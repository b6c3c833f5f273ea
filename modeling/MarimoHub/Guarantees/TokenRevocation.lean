import MarimoHub.ObjectStore.Record
import MarimoHub.Source.TokenService

/-!
# Revoked tokens

The stored object is only ever written on the etag of an earlier read, so it does not come back
after a revocation. A verification accepts the token only on the strength of the object or of the
cached entry. The revocation takes both away; as long as no load fills the cache with an object
that is no longer stored, a verification that starts later finds neither
(`revoked_token_rejected`). A load that read the object before the revocation and fills the cache
after it makes the token valid again (`late_load_revives_token`).
-/

namespace MarimoHub.Guarantees.Tokens

open ObjectStore Source Source.Tokens Prog

/-! ## One call -/

/-- The object is only written over the version that was read. -/
def OnlyOverwrites : Op TokenStore → Prop
  | .put .object _ (.ifMatch _) => True
  | .put .object _ _ => False
  | _ => True

abbrev TokenRule (_ : Log TokenStore) : Op TokenStore → Prop := OnlyOverwrites

/-- The call found the token, in the cache or in the bucket. -/
def FoundToken (es : Log TokenStore) : Prop :=
  ∃ k v tag, (k = .cached ∨ k = .object) ∧ ⟨.get k, .found v tag⟩ ∈ es

def Ends : TokenCall → Option Tokens.AuthenticatedPrincipal → Log TokenStore → Prop
  | .verify _, out, es => out ≠ none → FoundToken es
  | .revoke _, _, es => ∃ rest, es = ⟨.delete .cached, .ok⟩ :: ⟨.delete .object, .ok⟩ :: rest

variable {userId : String} {n : Nat} {past : Log TokenStore}

theorem keeps_getIdentity : Keeps TokenRule (getIdentity userId) :=
  fun _ => ⟨trivial, fun answer => keeps_orRaise answer _⟩

theorem keeps_isSuspended : Keeps TokenRule (isSuspended userId) :=
  fun _ => ⟨trivial, fun answer => keeps_orRaise answer _⟩

theorem keeps_readEntry : Keeps TokenRule (readEntry n) := by
  refine (keeps_bucketGet fun _ => trivial).bind fun found => ?_
  split
  · exact keeps_ret
  · exact keeps_raise

theorem keeps_touch : Keeps TokenRule (touch n) := by
  refine Keeps.bind (fun _ => ⟨trivial, fun _ => trivial⟩) fun now => ?_
  refine keeps_readEntry.bind fun entry => ?_
  refine Keeps.ite keeps_ret (keeps_ignoringErrors ?_)
  refine (keeps_bucketPut fun _ => trivial).bind fun written => ?_
  exact (keeps_bucketPut fun _ => trivial).map

theorem keeps_isExpired (expiresAt : Option Nat) : Keeps TokenRule (isExpired expiresAt) := by
  cases expiresAt with
  | none => exact keeps_ret
  | some deadline => exact fun _ => ⟨trivial, fun _ => trivial⟩

theorem keeps_storeEntry : Keeps TokenRule (storeEntry record etag) := by
  refine keeps_getIdentity.bind fun identity => ?_
  cases identity with
  | none => exact keeps_ret
  | some user =>
    refine Keeps.bind (fun _ => ⟨trivial, fun _ => trivial⟩) fun now => ?_
    refine Keeps.bind (fun _ => ⟨trivial, fun _ => trivial⟩) fun n => ?_
    refine (keeps_bucketPut fun _ => trivial).bind fun _ => ?_
    exact (keeps_bucketPut fun _ => trivial).map

theorem keeps_freshEntry : Keeps TokenRule (freshEntry cached) := by
  unfold freshEntry
  split
  · exact keeps_readEntry.bind fun entry _ => ⟨trivial, fun _ => trivial⟩
  · exact keeps_ret

/-- What is done after the token was found. -/
theorem emits_found (keeps : Keeps TokenRule p) (found : FoundToken past) :
    Emits TokenRule (yields fun out es => out ≠ none → FoundToken es) p past := by
  refine (keeps past).grown.mono ?_
  rintro (_ | _) es ⟨_, grown⟩
  · trivial
  · obtain ⟨k, v, tag, either, member⟩ := found
    exact fun _ => ⟨k, v, tag, either, grown.subset member⟩

theorem emits_loadStored :
    Emits TokenRule (yields fun out es => out ≠ none → FoundToken es) loadStored past := by
  rw [loadStored, emits_bind, emits_bucketGet]
  refine ⟨trivial, fun v tag => ?_, ?_, trivial⟩
  · have found : FoundToken (⟨.get .object, .found v tag⟩ :: past) :=
      ⟨.object, v, tag, .inr rfl, .head _⟩
    cases v with
    | token record => exact emits_found keeps_storeEntry found
    | _ => exact nofun
  · simp [yields, OnlyOverwrites]

theorem emits_load :
    Emits TokenRule (yields fun out es => out ≠ none → FoundToken es) load past := by
  rw [load, emits_bind, emits_bucketGet]
  refine ⟨trivial, fun v tag => ?_, emits_loadStored, trivial⟩
  refine emits_found (keeps_freshEntry.bind fun fresh => ?_) ⟨.cached, v, tag, .inl rfl, .head _⟩
  cases fresh with
  | some n => exact keeps_ret
  | none => exact fun es => emits_loadStored.forget

theorem emits_run {hash : Nat → String → String} :
    Emits TokenRule (yields (Ends call)) (call.run hash tokenId) past := by
  cases call with
  | verify secret =>
    refine emits_then emits_load fun loaded es _ found => ?_
    cases loaded with
    | none => exact nofun
    | some n =>
      refine emits_found (keeps_readEntry.bind fun entry => ?_) (found nofun)
      refine Keeps.ite keeps_ret ((keeps_isExpired _).bind fun expired => ?_)
      refine Keeps.ite ((keeps_bucketDelete fun _ => trivial).map) ?_
      refine keeps_isSuspended.bind fun suspended => Keeps.ite keeps_ret ?_
      exact keeps_touch.map
  | revoke userId =>
    simp only [TokenCall.run, Tokens.revoke, emits_bind, emits_bucketGet]
    refine ⟨trivial, fun v tag => ?_, trivial, trivial⟩
    cases v with
    | token record =>
      simp only [andThen_ok, emits_ite, emits_bind, emits_bucketDelete]
      exact ⟨fun _ => ⟨trivial, ⟨trivial, ⟨_, rfl⟩, trivial⟩, trivial⟩, fun _ => trivial⟩
    | _ => trivial

/-! ## Whole runs -/

section Runs

variable {a : Adapter TokenStore} {seeds : Trace TokenStore} {hash : Nat → String → String}
  {tokenId : String} {calls : Nat → TokenCall}
  {c c' : Config TokenStore HubError (Option Tokens.AuthenticatedPrincipal)}

/-- The cache is filled only while the object is stored. -/
def cachesStored : Trace TokenStore → Bool
  | [] => true
  | x :: past => ((x.effect .cached).join.isNone || (lookup TokenKey.object past).isSome) &&
      cachesStored past

theorem cachesStored_suffix {t past : Trace TokenStore} (below : past <:+ t)
    (fills : cachesStored t = true) : cachesStored past = true := by
  induction t with
  | nil => exact List.suffix_nil.mp below ▸ fills
  | cons x rest ih =>
    rcases List.suffix_cons_iff.mp below with same | inside
    · exact same ▸ fills
    · exact ih inside (Bool.and_eq_true_iff.mp fills).2

theorem object_stays_gone
    (history : History a seeds (fun i => (calls i).run hash tokenId) c) {x : Event TokenStore}
    {past : Trace TokenStore} (moment : x :: past <:+ c.trace) (above : seeds <:+ past)
    (gone : lookup TokenKey.object past = none) : lookup TokenKey.object (x :: past) = none := by
  obtain ⟨i, mine⟩ := history.thread_of_moment moment above
  have rule := history.guarantee (fun i => emits_run) moment mine
  cases effect : x.effect .object with
  | none => rw [lookup_of_no_effect effect, gone]
  | some new =>
    cases new with
    | none => exact lookup_of_effect effect
    | some v =>
      obtain ⟨cond, r, shape, applied⟩ := effect_write effect
      rw [congrArg Ev.op shape] at rule
      cases cond with
      | ifMatch tag =>
        have stored := ((history.accepted.at moment).matched shape applied).1
        rw [gone] at stored
        cases stored
      | _ => exact rule.elim

/-- After a revocation has returned, the object does not come back, and while the cache is filled
only with stored objects every verification that starts later answers `null`. -/
theorem revoked_token_rejected (initial : Seeds a seeds) (hash : Nat → String → String)
    (tokenId : String) (calls : Nat → TokenCall)
    (reach : Reaches a ⟨seeds, fun i => (calls i).run hash tokenId⟩ c) {r : Nat} {userId : String}
    (revokes : calls r = .revoke userId) {out : Option Tokens.AuthenticatedPrincipal}
    (returned : c.prog r = .ret out) (later : Reaches a c c') :
    lookup TokenKey.object c'.trace = none ∧
      (cachesStored c'.trace = true → ∀ i secret principal, calls i = .verify secret →
        own i c.trace = [] → c'.prog i = .ret principal → principal = none) := by
  have before := reach.history initial
  have history := Reaches.history initial (Relation.ReflTransGen.trans reach later)
  have grows := later.grows
  have ended : Ends (.revoke userId) out (own r c.trace) := by
    rw [← revokes]
    exact before.returned emits_run returned
  obtain ⟨rest, ended⟩ := ended
  obtain ⟨d, q, cleared, _, clears, earlier⟩ := exists_own ⟨[], ended.symm⟩
  obtain ⟨d', q', deleted, mine, deletes, _⟩ := exists_own ⟨[], earlier.symm⟩
  have first : d' :: q' <:+ c'.trace :=
    (deleted.cons).trans (cleared.trans grows)
  have gone (u : Trace TokenStore) (inside : u <:+ c'.trace) (above : d' :: q' <:+ u) :
      lookup TokenKey.object u = none := by
    refine lasts (P := fun u => lookup TokenKey.object u = none) above ?_ ?_
    · have applied := (history.accepted.at first).responds_of deletes
      exact lookup_of_effect (by rw [effect_delete deletes, applied]; simp)
    · intro x past moment higher absent
      have based := (history.after_seeds initial first mine).trans (List.suffix_cons d' q')
      exact object_stays_gone history (moment.trans inside) (based.trans higher) absent
  refine ⟨gone _ List.suffix_rfl first,
    fun fills i secret principal verifies unstarted result => ?_⟩
  have uncached (u : Trace TokenStore) (inside : u <:+ c'.trace) (above : d :: q <:+ u) :
      lookup TokenKey.cached u = none := by
    refine value_lasts (P := (· = none)) above ?_ ?_
    · have applied := (history.accepted.at (cleared.trans grows)).responds_of clears
      exact lookup_of_effect (by rw [effect_delete clears, applied]; simp)
    · intro x past new moment higher absent effect
      have below := (moment.trans inside).past
      have away := gone past below ((deleted.cons).trans higher)
      have fill := (Bool.and_eq_true_iff.mp (cachesStored_suffix (moment.trans inside) fills)).1
      rw [away] at fill
      simpa [effect] using fill
  by_contra present
  have found : Ends (.verify secret) principal (own i c'.trace) := by
    rw [← verifies]
    exact history.returned emits_run result
  obtain ⟨k, v, tag, either, member⟩ := found present
  obtain ⟨y, past, moment, me, shape⟩ := exists_own_mem member
  have stored := ((history.accepted.at moment).tagged shape).1
  rcases mem_seeds_or_after grows moment with started | after
  · have own := mem_own started me
    rw [unstarted] at own
    cases own
  · have inside := moment.past
    rcases either with rfl | rfl
    · rw [uncached past inside (cleared.trans after)] at stored
      cases stored
    · have above := (deleted.cons).trans (cleared.trans after)
      rw [gone past inside above] at stored
      cases stored

end Runs

/-! ## A load that ends after the revocation -/

namespace LateLoad

def adapter : Adapter TokenStore := ⟨fun _ version => version, 0⟩

def token : Token := ⟨"u", "secret", 1, none, none, none, none, none⟩

def seeds : Trace TokenStore := seed adapter [(.object, .token token)]

/-- Two verifications and a revocation; a secret is its own hash. -/
def calls (i : Nat) : TokenCall := if i = 1 then .revoke "u" else .verify "secret"

def start : Config TokenStore HubError (Option Tokens.AuthenticatedPrincipal) :=
  ⟨seeds, fun i => (calls i).run (fun _ secret => secret) "t"⟩

def step (i : Nat) : Move TokenStore := ⟨i, 0, .ok⟩

/-- The load has read the token when the revocation runs. -/
def revocation : List (Move TokenStore) := [step 0, step 0, step 1, step 1, step 1]

/-- The load fills the cache. -/
def fill : List (Move TokenStore) :=
  [⟨0, 0, .answer (.identity "u") (.ok (some ⟨"u", "e", "n"⟩))⟩, step 0, ⟨0, 0, .id 0⟩,
    step 0, step 0]

/-- A verification of what was loaded, up to its touch of the object. -/
def accepts (i : Nat) : List (Move TokenStore) :=
  [step i, ⟨i, 0, .answer (.suspended "u") (.ok false)⟩, step i, step i]

/-- A verification that hits the cache; its touch is refused. -/
def hit : List (Move TokenStore) := [step 2, step 2, step 2] ++ accepts 2 ++ [⟨2, 0, .lost⟩]

/-- The first verification fills the cache and touches the object before the revocation. -/
def filledFirst : List (Move TokenStore) :=
  [step 0, step 0] ++ fill ++ accepts 0 ++ [step 0, step 0, step 1, step 1, step 1]

/-- Whom the token stands for. -/
def owner : Tokens.AuthenticatedPrincipal := ⟨⟨"u", "e", "n"⟩, none, none, none, none⟩

end LateLoad

open LateLoad

/-- The load that the revocation overtook fills the cache, and the next verification hits it. -/
theorem late_load_revives_token : ∃ c c', Reaches adapter start c ∧
    c.prog 1 = .ret none ∧ own 2 c.trace = [] ∧ Reaches adapter c c' ∧
      c'.prog 2 = .ret (some owner) := by
  obtain ⟨c, reach, seen⟩ := Config.play_any adapter start
    revocation (fun c => (c.prog 1).value? = some none ∧ (own 2 c.trace).isEmpty ∧
      (c.play adapter (fill ++ hit)).any (fun c' => (c'.prog 2).value? = some (some owner)))
    (by decide +kernel)
  obtain ⟨returned, unstarted, rest⟩ := seen
  obtain ⟨c', later, accepted⟩ := Config.play_any _ _ _ _ rest
  exact ⟨c, c', reach, value?_eq_some.mp returned, List.isEmpty_iff.mp unstarted, later,
    value?_eq_some.mp accepted⟩

/-- The cache was filled while the object was stored, so after the revocation nobody is let in. -/
theorem earlier_fill_rejects : ∃ c c', Reaches adapter start c ∧ c.prog 0 = .ret (some owner) ∧
    c.trace.any (fun x => (x.effect TokenKey.cached).join.isSome) ∧ c.prog 1 = .ret none ∧
    own 2 c.trace = [] ∧
    Reaches adapter c c' ∧ cachesStored c'.trace = true ∧ lookup TokenKey.object c'.trace = none ∧
    ∃ principal, c'.prog 2 = .ret principal ∧ principal = none := by
  obtain ⟨c, reach, accepted, filled, returned, unstarted, rest⟩ := Config.play_any adapter start
    filledFirst (fun c => (c.prog 0).value? = some (some owner) ∧
      c.trace.any (fun x => (x.effect TokenKey.cached).join.isSome) ∧
      (c.prog 1).value? = some none ∧
      (own 2 c.trace).isEmpty ∧ (c.play adapter [step 2, step 2, step 2]).any (fun c' =>
        cachesStored c'.trace = true ∧ (c'.prog 2).value? = some none))
    (by decide +kernel)
  obtain ⟨c', later, fills, answered⟩ := Config.play_any _ _ _ _ rest
  have result := value?_eq_some.mp answered
  have unseen := List.isEmpty_iff.mp unstarted
  obtain ⟨gone, rejected⟩ := revoked_token_rejected (seeds_seed _ _) _ _ _ reach rfl
    (value?_eq_some.mp returned) later
  exact ⟨c, c', reach, value?_eq_some.mp accepted, filled, value?_eq_some.mp returned,
    unseen, later, fills, gone, none, result, rejected fills 2 "secret" none rfl unseen result⟩

end MarimoHub.Guarantees.Tokens
