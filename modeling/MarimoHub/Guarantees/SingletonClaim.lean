import MarimoHub.ObjectStore.Record
import MarimoHub.Source.Cas

/-!
# Singleton claims have one holder at a time

Any number of `acquireSingletonClaim` and `releaseSingletonClaim` calls on one key.
Every write to the key is conditional on the body that was read, or on absence, so it
is enough to look at what one write may replace (`ClaimWrite`): an acquisition replaces
a claim only after asking about its holder, and a release replaces a claim of its own
holder only.

The empty string is the exception: `acquireSingletonClaim` takes a claim recorded for
it as no claim at all (`empty_holder_is_replaced`).
-/

namespace MarimoHub.Guarantees

open ObjectStore Source Prog

variable {B : Schema} {t : Trace B} {holder : String}

section Calls

variable (cfg : SingletonClaimConfig B)

/-- The body is a claim of `holder`. -/
def Names (v : B.Val) (holder : String) : Prop := cfg.parseHolder v = some (some holder)

/-- The holder the stored claim names. -/
def recordedHolder (t : Trace B) : Option String :=
  (lookup cfg.key t).bind fun v => (cfg.parseHolder v).join

theorem recordedHolder_of_names (found : lookup cfg.key t = some v)
    (names : Names cfg v holder) : recordedHolder cfg t = some holder := by
  have parsed : cfg.parseHolder v = some (some holder) := names
  simp [recordedHolder, found, parsed]

theorem names_of_recordedHolder (recorded : recordedHolder cfg t = some holder) :
    ∃ v, lookup cfg.key t = some v ∧ Names cfg v holder := by
  simp only [recordedHolder, Option.bind_eq_some_iff, Option.join_eq_some_iff] at recorded
  exact recorded

/-- A release may pass the etag of an acquisition of its holder, that is of a body naming
the holder. -/
inductive ClaimCall where
  | acquire (holder : String) (valid : cfg.isHolder holder)
  | release (holder : String) (etag : Option { tag : Etag B // Names cfg tag.value holder })

variable {cfg}

def ClaimCall.run : ClaimCall cfg → Hub B (Option (ClaimResult B))
  | .acquire holder _ => some <$> acquireSingletonClaim cfg holder
  | .release holder etag => do
    releaseSingletonClaim cfg holder (etag.map Subtype.val)
    pure none

/-- What a call writes to the key, after its own events `past`. -/
inductive ClaimWrite (past : Log B) : ClaimCall cfg → B.Val → Cond B → Prop where
  | create (holder : String) (valid : cfg.isHolder holder) (v : B.Val) : Names cfg v holder →
      ClaimWrite past (.acquire holder valid) v .ifAbsent
  | replace (holder : String) (valid : cfg.isHolder holder) (v current : B.Val) (tag : Etag B)
      (asked rest : Log B) : Names cfg v holder →
      past = asked ++ ⟨.get cfg.key, .found current tag⟩ :: rest →
      ¬ Names cfg current holder →
      (∀ other, Names cfg current other → other ≠ "" →
        Runs (cfg.isHolderLive other) asked (.ret false)) →
      ClaimWrite past (.acquire holder valid) v (.ifMatch tag)
  | free (holder : String) (etag : Option { tag : Etag B // Names cfg tag.value holder })
      (v : B.Val) (tag : Etag B) : cfg.parseHolder v = some none →
      (Names cfg tag.value holder ∨
        ∃ current, ⟨.get cfg.key, .found current tag⟩ ∈ past ∧ Names cfg current holder) →
      ClaimWrite past (.release holder etag) v (.ifMatch tag)

def ClaimRule (call : ClaimCall cfg) (past : Log B) : Op B → Prop
  | .put k v c => k = cfg.key → ClaimWrite past call v c
  | .delete k => k ≠ cfg.key
  | _ => True

variable {call : ClaimCall cfg}

variable {past : Log B}

theorem claimRule_of_spares (spares : SparesKey cfg.key o) : ClaimRule call past o := by
  cases o with
  | put k v c => exact fun same => absurd same spares
  | delete k => exact spares
  | _ => trivial

variable (cfg) in
/-- An acquisition that succeeded ended with its own claim read or written. -/
def Acquired (holder : String) (tag : Etag B) (es : Log B) : Prop :=
  ∃ v rest, Names cfg v holder ∧ (es = ⟨.get cfg.key, .found v tag⟩ :: rest ∨
    ∃ c, es = ⟨.put cfg.key v c, .ok tag⟩ :: rest)

variable (cfg) in
def AcquireOutcome (holder : String) : Post B HubError (ClaimResult B)
  | .ok (.acquired tag), es => Acquired cfg holder tag es
  | _, _ => True

theorem emits_liveHolder (stale : ∀ asked, (∀ other, current = some (some other) → other ≠ "" →
      Runs (cfg.isHolderLive other) asked (.ret false)) → Q (.ok none) (asked ++ past))
    (live : ∀ other es, Q (.ok (some other)) es) (failed : ∀ err es, Q (.error err) es) :
    Emits (ClaimRule call) Q (liveHolder cfg current) past := by
  match current with
  | none => exact stale [] (by simp)
  | some none => exact stale [] (by simp)
  | some (some other) =>
    rw [liveHolder]
    split
    · next empty =>
      refine stale [] ?_
      rintro _ ⟨⟩ nonempty
      exact absurd empty nonempty
    · rw [emits_bind]
      refine ((cfg.spares other).emits (fun _ _ => claimRule_of_spares) past).traced.mono ?_
      rintro out es ⟨_, asked, rfl, runs⟩
      match out with
      | .error err => exact failed _ _
      | .ok true => exact live other _
      | .ok false =>
        refine stale asked ?_
        rintro _ ⟨⟩ _
        exact runs

theorem emits_acquireAttempt {valid : cfg.isHolder holder}
    (names : Names cfg body holder) : Emits (ClaimRule (.acquire holder valid))
      (retrying (fun _ => True) (AcquireOutcome cfg holder)) (acquireAttempt cfg holder body)
      past := by
  have written (c : Cond B) (es : Log B) (write : ClaimWrite es (.acquire holder valid) body c) :
      Emits (ClaimRule (.acquire holder valid))
        (retrying (fun _ => True) (AcquireOutcome cfg holder)) (do
          let etag ← casPut cfg.key body c
          pure (ClaimResult.acquired etag)) es := by
    simp only [emits_bind, emits_casPut, andThen_error]
    refine ⟨fun _ => write, ?_, retrying_error trivial trivial, retrying_error trivial trivial⟩
    intro tag
    exact ⟨body, es, names, .inr ⟨c, rfl⟩⟩
  rw [acquireAttempt, emits_bind, emits_bucketGet]
  refine ⟨trivial, ?_, written _ _ (.create holder valid body names),
    (andThen_error ..).mpr (retrying_error trivial trivial)⟩
  intro v tag
  rw [andThen_ok]
  dsimp only
  split
  · next mine => exact ⟨v, past, mine, .inl rfl⟩
  · next other =>
    rw [emits_bind]
    refine emits_liveHolder ?_ (fun _ _ => trivial) fun _ _ => retrying_error trivial trivial
    intro asked answers
    exact written _ _ (.replace holder valid body v tag asked past names rfl other answers)

theorem emits_acquire (valid : cfg.isHolder holder) :
    Emits (ClaimRule (.acquire holder valid)) (fun out es => ∀ tag,
      out = .ok (some (.acquired tag)) → Acquired cfg holder tag es)
      (ClaimCall.acquire holder valid).run [] := by
  have acquire : Emits (ClaimRule (.acquire holder valid)) (AcquireOutcome cfg holder)
      (acquireSingletonClaim cfg holder) [] := by
    refine ⟨trivial, fun now => ?_⟩
    exact emits_withCasRetry (fun past _ =>
      emits_acquireAttempt (cfg.parse_claim holder now valid)) (fun _ _ => trivial)
      cfg.retries _ trivial
  refine (emits_bind ..).mpr (acquire.mono ?_)
  intro out es acquired
  cases out with
  | error err => rintro _ ⟨⟩
  | ok result =>
    rintro tag ⟨⟩
    exact acquired

theorem emits_release {etag : Option { tag : Etag B // Names cfg tag.value holder }} :
    Emits (ClaimRule (.release holder etag)) (fun _ _ => True)
      (ClaimCall.release holder etag).run [] := by
  have fast (past : Log B) : Emits (ClaimRule (.release holder etag)) (fun _ _ => True)
      (releaseFast cfg (etag.map Subtype.val)) past := by
    cases etag with
    | none => trivial
    | some tag =>
      refine emits_dateNow_then trivial fun now => ?_
      rw [emits_tryCatch, emits_bind, emits_bucketPut]
      exact ⟨fun _ => .free holder _ _ tag.val (cfg.parse_free now) (.inl tag.property),
        fun _ => trivial, trivial, trivial⟩
  refine (emits_bind ..).mpr ?_
  rw [releaseSingletonClaim, ignoringErrors, emits_tryCatch, emits_bind]
  refine (fast []).mono ?_
  intro out es _
  cases out with
  | error err => trivial
  | ok done =>
    cases done with
    | true => trivial
    | false =>
      -- the slow path reads the claim first
      rw [andThen_ok, if_neg Bool.false_ne_true, emits_bind, emits_bucketGet]
      refine ⟨trivial, ?_, trivial, trivial⟩
      intro v tag
      rw [andThen_ok]
      dsimp only
      split
      · trivial
      · next current parsed =>
        split
        · next mine =>
          refine emits_dateNow_then trivial fun now => ?_
          rw [emits_bind, emits_bucketPut]
          refine ⟨fun _ => .free holder etag _ tag (cfg.parse_free now) (.inr ⟨v, by simp, ?_⟩),
            fun _ => trivial, trivial, trivial⟩
          exact parsed.trans (congrArg some mine)
        · trivial

theorem claimCall_keeps_rule : Emits (ClaimRule call) (fun _ _ => True) call.run [] := by
  cases call with
  | acquire holder valid => exact (emits_acquire valid).forget
  | release holder etag => exact emits_release

end Calls

/-! ## Runs -/

/-- How the claim of `holder` ends: its own release writes the free marker, or another
claimant replaces it after having read it and observed the holder as not live. -/
def ClaimEnds (cfg : SingletonClaimConfig B) (calls : Nat → ClaimCall cfg) (holder : String)
    (x : Event B) (past : Trace B) : Prop :=
  (∃ i etag v, x.thread = some i ∧ calls i = .release holder etag ∧
    x.effect cfg.key = some (some v) ∧ cfg.parseHolder v = some none) ∨
  ∃ i other valid v current tag asked rest, x.thread = some i ∧ calls i = .acquire other valid ∧
    other ≠ holder ∧ x.effect cfg.key = some (some v) ∧ Names cfg v other ∧
    own i past = asked ++ ⟨.get cfg.key, .found current tag⟩ :: rest ∧ Names cfg current holder ∧
    Runs (cfg.isHolderLive holder) asked (.ret false)

variable {x : Event B} {past : Trace B} {i : Nat}

section Runs

variable {cfg : SingletonClaimConfig B} {calls : Nat → ClaimCall cfg} {a : Adapter B}
  {seeds : Trace B} {c : Config B HubError (Option (ClaimResult B))}

/-- The body a conditional write found is the one its tag was issued for. -/
theorem found_of_holds (holds : (Cond.ifMatch tag).Holds a past k) :
    lookup k past = some tag.value := by
  obtain ⟨v, found, same⟩ := holds
  rw [found, ← same]
  rfl

section

variable (run : History a seeds (fun i => (calls i).run) c)
include run

theorem claimWrite_of_effect (moment : x :: past <:+ c.trace)
    (mine : x.thread = some i) (effect : x.effect cfg.key = some w) :
    ∃ v cond, w = some v ∧ ClaimWrite (own i past) (calls i) v cond ∧
      cond.Holds a past cfg.key := by
  obtain ⟨v, cond, r, rfl, shape, applied, rule⟩ := written_under
    (run.guarantee (fun i => claimCall_keeps_rule) moment mine) effect (absurd rfl)
  exact ⟨v, cond, rfl, rule rfl, (run.accepted.at moment).holds shape applied⟩

theorem release_own_claim (moment : x :: past <:+ c.trace) (mine : x.thread = some i)
    (call : calls i = .release holder etag) (changed : (x.effect cfg.key).isSome = true) :
    recordedHolder cfg past = some holder := by
  obtain ⟨w, effect⟩ := Option.isSome_iff_exists.mp changed
  obtain ⟨v, cond, _, write, holds⟩ := claimWrite_of_effect run moment mine effect
  rw [call] at write
  cases write with
  | free _ _ _ tag _ source =>
    refine recordedHolder_of_names cfg (found_of_holds holds) ?_
    rcases source with names | ⟨current, read, names⟩
    · exact names
    · obtain ⟨g, q, gMoment, _, shape⟩ := exists_own_mem read
      have toTrace := gMoment.trans moment.past
      rw [((run.accepted.at toTrace).tagged shape).2]
      exact names

theorem claim_step (nonempty : holder ≠ "") (moment : x :: past <:+ c.trace)
    (mine : x.thread = some i) (recorded : recordedHolder cfg past = some holder) :
    recordedHolder cfg (x :: past) = some holder ∨ ClaimEnds cfg calls holder x past := by
  cases effect : x.effect cfg.key with
  | none =>
    refine .inl ?_
    rw [recordedHolder, lookup_cons, effect]
    exact recorded
  | some w =>
    right
    obtain ⟨v, cond, rfl, write, holds⟩ := claimWrite_of_effect run moment mine effect
    obtain ⟨body, found, names⟩ := names_of_recordedHolder cfg recorded
    generalize call : calls i = called at write
    cases write with
    | create other valid _ _ =>
      have missing : lookup cfg.key past = none := holds
      rw [found] at missing
      cases missing
    | replace other valid _ current tag asked rest claims ownEq foreign answers =>
      -- the body replaced is the one the attempt read
      obtain ⟨g, q, gMoment, _, shape, _⟩ := exists_own (ownEq ▸ List.suffix_append asked _)
      have toTrace := gMoment.trans moment.past
      have same : body = current := by
        rw [found_of_holds holds, ((run.accepted.at toTrace).tagged shape).2] at found
        exact (Option.some.inj found).symm
      subst same
      refine .inr ⟨i, other, valid, v, body, tag, asked, rest, mine, call, ?_, effect,
        claims, ownEq, names, answers holder names nonempty⟩
      rintro rfl
      exact foreign names
    | free other etag _ tag freed source =>
      have own_claim := release_own_claim run moment mine call (by simp [effect])
      rw [recorded] at own_claim
      cases own_claim
      exact .inl ⟨i, etag, v, mine, call, effect, freed⟩

/-- From a moment at which a claim is recorded it stays, until it ends in one of the two
ways. -/
theorem claim_run (nonempty : holder ≠ "") (based : seeds <:+ told) (above : told <:+ t)
    (below : t <:+ c.trace) (recorded : recordedHolder cfg told = some holder) :
    recordedHolder cfg t = some holder ∨
      ∃ x past, x :: past <:+ t ∧ told <:+ past ∧ ClaimEnds cfg calls holder x past := by
  refine (until_run (P := (recordedHolder cfg · = some holder)) (E := ClaimEnds cfg calls holder)
    above recorded ?_).imp_right ?_
  · intro x past moment inside kept
    obtain ⟨i, mine⟩ := run.thread_of_moment (moment.trans below) (based.trans inside)
    exact claim_step run nonempty (moment.trans below) mine kept
  · rintro ⟨x, past, moment, inside, _, ends⟩
    exact ⟨x, past, moment, inside, ends⟩

theorem recorded_of_acquired (initial : Seeds a seeds)
    (call : calls i = .acquire holder valid) (done : c.prog i = .ret (some (.acquired tag))) :
    ∃ told, told <:+ c.trace ∧ seeds <:+ told ∧ own i told = own i c.trace ∧
      recordedHolder cfg told = some holder := by
  have alone := emits_acquire valid
  rw [← call] at alone
  obtain ⟨v, rest, names, last⟩ := run.returned alone done tag rfl
  have event : ∃ ev, ev :: rest = own i c.trace ∧
      (ev = ⟨.get cfg.key, .found v tag⟩ ∨ ∃ cond, ev = ⟨.put cfg.key v cond, .ok tag⟩) := by
    rcases last with same | ⟨cond, same⟩
    · exact ⟨_, same.symm, .inl rfl⟩
    · exact ⟨_, same.symm, .inr ⟨cond, rfl⟩⟩
  obtain ⟨ev, ownEq, kind⟩ := event
  obtain ⟨e, q, moment, mine, shape, before⟩ := exists_own ⟨[], ownEq⟩
  refine ⟨e :: q, moment, (run.after_seeds initial moment mine).cons, ?_, ?_⟩
  · rw [own_cons mine, shape, before, ownEq]
  · refine recordedHolder_of_names cfg ?_ names
    have accepts := run.accepted.at moment
    rcases kind with rfl | ⟨cond, rfl⟩
    · simp [Event.effect, congrArg Ev.op shape, (accepts.tagged shape).1]
    · simp [effect_put shape, (accepts.responds_of shape).2.2]

end

/-- A claimant with a non-empty id that was told it acquired the claim stays the recorded
holder until its own release, or until another claimant that observed it as not live
replaces it; and a release changes the record only where it names the releaser. -/
theorem singleton_claim_kept (cfg : SingletonClaimConfig B) (a : Adapter B) (seeds : Trace B)
    (initial : Seeds a seeds) (calls : Nat → ClaimCall cfg)
    (c : Config B HubError (Option (ClaimResult B)))
    (reach : Reaches a ⟨seeds, fun i => (calls i).run⟩ c) :
    (∀ i holder valid tag, holder ≠ "" → calls i = .acquire holder valid →
      c.prog i = .ret (some (.acquired tag)) →
      ∃ told, told <:+ c.trace ∧ own i told = own i c.trace ∧
        recordedHolder cfg told = some holder ∧ (recordedHolder cfg c.trace = some holder ∨
          ∃ x past, (x :: past) <:+ c.trace ∧ told <:+ past ∧ ClaimEnds cfg calls holder x past)) ∧
    ∀ x past i holder etag, (x :: past) <:+ c.trace → x.thread = some i →
      calls i = .release holder etag → (x.effect cfg.key).isSome = true →
      recordedHolder cfg past = some holder := by
  have run := reach.history initial
  constructor
  · intro i holder valid tag nonempty call done
    obtain ⟨told, below, based, ownEq, recorded⟩ := recorded_of_acquired run initial call done
    exact ⟨told, below, ownEq, recorded,
      claim_run run nonempty based below List.suffix_rfl recorded⟩
  · intro x past i holder etag moment mine call changed
    exact release_own_claim run moment mine call changed

end Runs

/-! ## The empty id -/

namespace ClaimBox

/-- One object, whose body is the holder or the free marker; liveness is asked of
another service. -/
@[reducible] def box : Schema where
  Key := Unit
  Val := Option String
  Query := String
  Answer := fun _ => Bool

def adapter : Adapter box := ⟨fun _ version => version, 0⟩

def cfg : SingletonClaimConfig box where
  key := ()
  serialize holder _ := holder
  parseHolder v := some v
  isHolder _ := True
  isHolderLive holder := Prog.perform (.ask holder)
  retries := defaultRetries
  parse_claim _ _ _ := rfl
  parse_free _ := rfl
  spares _ := ⟨trivial, fun _ => trivial⟩

/-- The first two claimants are `first` and `b`. -/
def calls (first : String) : Nat → ClaimCall cfg
  | 0 => .acquire first trivial
  | 1 => .acquire "b" trivial
  | _ => .release "b" none

def told : Prog box HubError (Option (ClaimResult box)) → Bool
  | .ret (some (.acquired _)) => true
  | _ => false

theorem ret_of_told (yes : told p = true) : ∃ tag, p = .ret (some (.acquired tag)) := by
  unfold told at yes
  split at yes
  · next tag => exact ⟨tag, rfl⟩
  · cases yes

def asks (e : Event box) : Bool :=
  match e.op with
  | .ask _ => true
  | _ => false

theorem not_observed {t : Trace box} (silent : t.all (fun e => !asks e) = true) {past : Trace box}
    (earlier : past <:+ t) (ownEq : own i past = asked ++ rest)
    (runs : Runs (cfg.isHolderLive holder) asked (.ret false)) : False := by
  have alone : Emits (fun _ _ => True) (fun _ es => ∃ r, (⟨.ask holder, r⟩ : Ev box) ∈ es)
      (cfg.isHolderLive holder) [] := ⟨trivial, fun r => ⟨r, .head _⟩⟩
  obtain ⟨r, member⟩ := (alone.runs runs).1
  obtain ⟨e, q, moment, _, shape⟩ := exists_own_mem (ownEq ▸ List.mem_append_left rest member)
  have quiet := List.all_eq_true.mp silent e ((moment.trans earlier).subset (.head _))
  simp [asks, congrArg Ev.op shape] at quiet

/-- The first claimant takes the absent claim, the second one finds it. -/
def twoAcquire : List (Move box) :=
  turns 0 1 [.ok, .ok, .ok] ++ turns 1 2 [.ok, .ok, .ok]

/-- The same, where the second one asks about the first and is told it is gone. -/
def takeover : List (Move box) :=
  turns 0 1 [.ok, .ok, .ok] ++ turns 1 2 [.ok, .ok, .answer "a" false] ++ [⟨1, 3, .ok⟩]

end ClaimBox

open ClaimBox

/-- A claimant with the empty id loses its claim although it never released it and nobody
asked whether it is live. -/
theorem empty_holder_is_replaced : ∃ c, Reaches adapter ⟨[], fun i => (calls "" i).run⟩ c ∧
      (∃ tag, c.prog 0 = .ret (some (.acquired tag))) ∧ recordedHolder cfg c.trace = some "b" ∧
      ∀ x past, (x :: past) <:+ c.trace → ¬ ClaimEnds cfg (calls "") "" x past := by
  obtain ⟨c, reach, observed⟩ := Config.play_any adapter ⟨[], fun i => (calls "" i).run⟩ twoAcquire
    (fun c => told (c.prog 0) = true ∧ recordedHolder cfg c.trace = some "b" ∧
      c.trace.all (fun e => !asks e) = true) (by decide)
  obtain ⟨done, holder, silent⟩ := observed
  refine ⟨c, reach, ret_of_told done, holder, ?_⟩
  rintro x past moment (⟨i, etag, v, mine, call, _⟩ |
    ⟨i, _, _, _, _, _, _, _, _, _, _, _, _, ownEq, _, runs⟩)
  · match i with
    | 0 => cases call
    | 1 => cases call
    | _ + 2 =>
      injection call with same
      exact absurd same (by decide)
  · exact not_observed silent moment.past ownEq runs

theorem singleton_claim_kept_until_takeover :
    ∃ c, Reaches adapter ⟨[], fun i => (calls "a" i).run⟩ c ∧
      recordedHolder cfg c.trace = some "b" ∧ ∃ x past, (x :: past) <:+ c.trace ∧
        ClaimEnds cfg (calls "a") "a" x past := by
  obtain ⟨c, reach, done, replaced⟩ := Config.play_any adapter ⟨[], fun i => (calls "a" i).run⟩
    takeover (fun c => told (c.prog 0) = true ∧ recordedHolder cfg c.trace = some "b") (by decide)
  obtain ⟨tag, returned⟩ := ret_of_told done
  have kept := singleton_claim_kept cfg adapter [] (Seeds.empty _) (calls "a") c reach
  obtain ⟨_, _, _, _, still | ⟨x, past, moment, _, ends⟩⟩ :=
    kept.1 0 "a" trivial tag (by decide) rfl returned
  · rw [replaced] at still
    exact absurd still (by decide)
  · exact ⟨c, reach, replaced, x, past, moment, ends⟩

end MarimoHub.Guarantees
