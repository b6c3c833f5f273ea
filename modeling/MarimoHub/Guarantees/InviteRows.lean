import Mathlib.Tactic.Tauto
import MarimoHub.Source.ProjectMembers

/-!
# Resolving invites

The loop of `resolveInviteRows` gives a role to the row of its user, or lets it wait until that row
comes. What a user is owed is compared rank by rank (`Reaches`), so that neither the order of the
rows nor the merging of roles matters: at each turn the rows written and the roles waiting reach
exactly what the rows read so far reach (`Scanned.held`).
-/

namespace MarimoHub.Guarantees.Invites

open Source

variable {engine : Engine} {resolved byEmail : List (String × UserId)} {scan : InviteScan}
  {id other : UserId} {role : Role} {k : Nat} {row : ProjectMember}
  {rows seen rest : List ProjectMember} {p : ProjectMember → Prop} {pending : List (UserId × Role)}

/-! ## Roles on the way -/

/-- Among the rows `p` picks, one gives a role of at least rank `k`. -/
def Reaches (p : ProjectMember → Prop) (rows : List ProjectMember) (k : Nat) : Prop :=
  ∃ row ∈ rows, p row ∧ k ≤ row.role.rank

@[simp] theorem reaches_nil : ¬ Reaches p [] k := by simp [Reaches]

@[simp] theorem reaches_append :
    Reaches p (rows ++ rest) k ↔ Reaches p rows k ∨ Reaches p rest k := by
  simp only [Reaches, List.mem_append, or_and_right, exists_or]

@[simp] theorem reaches_cons :
    Reaches p (row :: rows) k ↔ p row ∧ k ≤ row.role.rank ∨ Reaches p rows k := by
  simp only [Reaches, List.mem_cons, or_and_right, exists_or, exists_eq_left]

theorem le_higherRole : k ≤ (higherRole a b).rank ↔ k ≤ a.rank ∨ k ≤ b.rank := by
  simp only [higherRole, roleAtLeast, decide_eq_true_eq]
  split <;> omega

/-- A role of at least rank `k` waits for the row of the user. -/
def Waits (pending : List (UserId × Role)) (id : UserId) (k : Nat) : Prop :=
  ∃ role ∈ pending.lookup id, k ≤ role.rank

theorem waits_cons : Waits ((id, role) :: pending) other k ↔
      if other = id then k ≤ role.rank else Waits pending other k := by
  by_cases same : other = id
  · simp [Waits, same]
  · simp [Waits, List.lookup_cons, beq_eq_false_iff_ne.mpr same, same]

theorem waits_without : Waits (pending.filter fun entry => entry.1 ≠ id) other k ↔
      other ≠ id ∧ Waits pending other k := by
  induction pending with
  | nil => simp [Waits]
  | cons entry rest ih =>
    rw [List.filter_cons]
    split <;> grind [waits_cons]

/-- A role of at least rank `k` has been given to the user, or is waiting for their row. -/
def Held (scan : InviteScan) (id : UserId) (k : Nat) : Prop :=
  Reaches (·.userId = some id) scan.output k ∨ Waits scan.pendingRoles id k

theorem held_scanUser :
    Held (scanUser scan id role) other k ↔ Held scan other k ∨ other = id ∧ k ≤ role.rank := by
  simp only [Held, scanUser, reaches_append, reaches_cons, reaches_nil, ProjectMember.ofUser,
    waits_without]
  grind [Waits, le_higherRole]

theorem split_at (found : rows[n]? = some row) : ∃ before after, rows = before ++ row :: after ∧
      ∀ f, rows.modify n f = before ++ f row :: after := by
  obtain ⟨below, rfl⟩ := List.getElem?_eq_some_iff.mp found
  exact ⟨rows.take n, rows.drop (n + 1), by simp, fun f => List.modify_eq_take_cons_drop below⟩

theorem held_scanClaimed (indexed : ∀ n, scan.outputIndexByUserId.lookup id = some n →
      ∃ role, scan.output[n]? = some (.ofUser id role)) :
    Held (scanClaimed direct scan id role) other k ↔
      Held scan other k ∨ other = id ∧ k ≤ role.rank := by
  unfold scanClaimed
  dsimp only
  split
  · next n found =>
    obtain ⟨held, at_index⟩ := indexed n found
    obtain ⟨before, after, rows, modified⟩ := split_at at_index
    simp only [Held, modified]
    simp only [rows, reaches_append, reaches_cons, ProjectMember.ofUser, le_higherRole]
    grind
  · split
    · simp only [Held, waits_cons]
      grind [Waits, le_higherRole]
    · simp only [Held, reaches_append, reaches_cons, reaches_nil, ProjectMember.ofUser]
      grind

/-! ## The loop -/

/-- The user a row names: its own, or the one its invite resolves to. -/
def namedUser (engine : Engine) (resolved : List (String × UserId)) (row : ProjectMember) :
    Option UserId :=
  match row.group, row.userId, row.email with
  | some _, _, _ => none
  | none, some id, _ => some id
  | none, none, some email => resolved.lookup (engine.foldCase email)
  | none, none, none => none

theorem namedUser_of_userId (valid : withMemberIdentityRules row = true)
    (mine : row.userId = some id) : namedUser engine resolved row = some id := by
  cases group : row.group with
  | none => simp [namedUser, group, mine]
  | some name =>
    cases email : row.email <;> simp [withMemberIdentityRules, group, mine, email] at valid

theorem namedUser_ofUser : namedUser engine resolved (.ofUser id role) = some id := rfl

/-- A row the loop passes on, or the row of a user. -/
def Settled (engine : Engine) (resolved : List (String × UserId)) (row : ProjectMember) : Prop :=
  namedUser engine resolved row = none ∧ row.userId = none ∨ ∃ id role, row = .ofUser id role

abbrev userIds (rows : List ProjectMember) : List UserId := rows.filterMap ProjectMember.userId

/-- What the loop has made of the rows it has seen, with `rest` still ahead. -/
structure Scanned (engine : Engine) (resolved : List (String × UserId))
    (seen rest : List ProjectMember) (scan : InviteScan) : Prop where
  indexed : ∀ id n, scan.outputIndexByUserId.lookup id = some n →
    ∃ role, scan.output[n]? = some (.ofUser id role)
  listed : ∀ row ∈ scan.output, ∀ id, row.userId = some id →
    (scan.outputIndexByUserId.lookup id).isSome ∧ id ∉ userIds rest
  nodup : (userIds scan.output).Nodup
  settled : ∀ row ∈ scan.output, Settled engine resolved row
  stays : scan.output.filter (namedUser engine resolved · = none) =
    seen.filter (namedUser engine resolved · = none)
  held : ∀ id k, Held scan id k ↔ Reaches (namedUser engine resolved · = some id) seen k
  waiting : ∀ id k, Waits scan.pendingRoles id k → id ∈ userIds rest

namespace Scanned

variable (scanned : Scanned engine resolved seen (row :: rest) scan)
include scanned

theorem pass (unnamed : namedUser engine resolved row = none) (unlisted : row.userId = none) :
    Scanned engine resolved (seen ++ [row]) rest { scan with output := scan.output ++ [row] } where
  indexed id n found := by
    obtain ⟨role, at_index⟩ := scanned.indexed id n found
    exact ⟨role, by grind⟩
  listed := by
    have listed := scanned.listed
    grind
  nodup := by simpa [unlisted] using scanned.nodup
  settled := by
    have settled := scanned.settled
    grind [Settled]
  stays := by simp [scanned.stays]
  held id k := by
    have held := scanned.held id k
    simp_all [Held]
  waiting id k waits := by simpa [unlisted] using scanned.waiting id k waits

variable (names : namedUser engine resolved row = some id)
include names

theorem held_next
    (held : ∀ other k, Held scan' other k ↔ Held scan other k ∨ other = id ∧ k ≤ row.role.rank)
    (other : UserId) (k : Nat) : Held scan' other k ↔
      Reaches (namedUser engine resolved · = some other) (seen ++ [row]) k := by
  rw [held, scanned.held, reaches_append, reaches_cons, names]
  simp [eq_comm]

theorem join (new : ∀ other ∈ scan.output, other.userId ≠ some id) (ahead : id ∉ userIds rest)
    (written : scan'.output = scan.output ++ [.ofUser id role])
    (index : scan'.outputIndexByUserId = (id, scan.output.length) :: scan.outputIndexByUserId)
    (held : ∀ other k, Held scan' other k ↔ Held scan other k ∨ other = id ∧ k ≤ row.role.rank)
    (waiting : ∀ other k, Waits scan'.pendingRoles other k → other ∈ userIds rest) :
    Scanned engine resolved (seen ++ [row]) rest scan' where
  indexed other n found := by
    have indexed := scanned.indexed other n
    rw [index, List.lookup_cons] at found
    by_cases same : other = id
    · grind
    · rw [beq_eq_false_iff_ne.mpr same] at found
      grind
  listed other inside := by
    have listed := scanned.listed other
    grind [ProjectMember.ofUser]
  nodup := by
    have nodup := scanned.nodup
    rw [written, userIds, List.filterMap_append]
    simp [ProjectMember.ofUser]
    grind
  settled := by
    have settled := scanned.settled
    grind [Settled]
  stays := by simp [written, scanned.stays, names, namedUser_ofUser]
  held := scanned.held_next names held
  waiting := waiting

theorem user (mine : row.userId = some id) (distinct : (userIds (row :: rest)).Nodup) :
    Scanned engine resolved (seen ++ [row]) rest (scanUser scan id row.role) := by
  have first : userIds (row :: rest) = id :: userIds rest := by simp [mine]
  rw [first, List.nodup_cons] at distinct
  have new (other : ProjectMember) (inside : other ∈ scan.output) : other.userId ≠ some id := by
    intro same
    have ahead := (scanned.listed other inside id same).2
    rw [first] at ahead
    exact ahead (.head _)
  have unindexed : scan.outputIndexByUserId.lookup id = none := by
    cases index : scan.outputIndexByUserId.lookup id with
    | none => rfl
    | some n =>
      obtain ⟨role, at_index⟩ := scanned.indexed id n index
      exact absurd rfl (new _ (List.mem_of_getElem? at_index))
  refine scanned.join names new distinct.1 rfl (by simp [scanUser, unindexed])
    (fun _ _ => held_scanUser) ?_
  intro other k waits
  obtain ⟨different, waits⟩ := waits_without.mp waits
  have ahead := scanned.waiting other k waits
  rw [first] at ahead
  exact (List.mem_cons.mp ahead).resolve_left different

/-- An invite of a known user raises their row, waits for it or becomes it. -/
theorem claimed (invite : row.userId = none)
    (valid : ∀ row ∈ seen, withMemberIdentityRules row = true) :
    Scanned engine resolved (seen ++ [row]) rest
      (scanClaimed (userIds (seen ++ row :: rest)) scan id row.role) := by
  have waiting (other : UserId) (k : Nat) (waits : Waits scan.pendingRoles other k) :
      other ∈ userIds rest := by
    simpa [invite] using scanned.waiting other k waits
  have held (other : UserId) (k : Nat) :
      Held (scanClaimed (userIds (seen ++ row :: rest)) scan id row.role) other k ↔ _ :=
    held_scanClaimed (scanned.indexed id)
  revert held
  unfold scanClaimed
  dsimp only
  split
  · next n found =>
    intro held
    obtain ⟨old, at_index⟩ := scanned.indexed id n found
    obtain ⟨before, after, rows, modified⟩ := split_at at_index
    have ⟨_, listed, nodup, settled, stays, _, _⟩ := scanned
    rw [rows] at listed settled nodup stays
    refine ⟨?_, ?_, ?_, ?_, ?_, scanned.held_next names held, waiting⟩
    · intro other m index
      obtain ⟨role, at_other⟩ := scanned.indexed other m index
      rw [List.getElem?_modify]
      split
      · exact ⟨higherRole role row.role, by simp_all [ProjectMember.ofUser]⟩
      · exact ⟨role, by simpa using at_other⟩
    · rw [modified]
      grind [ProjectMember.ofUser]
    · rw [modified]
      simpa [ProjectMember.ofUser] using nodup
    · rw [modified]
      grind [Settled]
    · rw [modified]
      simpa [names, namedUser_ofUser] using stays
  · next missing =>
    have new (other : ProjectMember) (inside : other ∈ scan.output) : other.userId ≠ some id := by
      intro same
      have indexed := (scanned.listed other inside id same).1
      rw [missing] at indexed
      cases indexed
    split
    · next member =>
      intro held
      -- a row of the user that was read already would have been written or be waited for
      have ahead : id ∈ userIds rest := by
        simp only [List.filterMap_append, List.mem_append, List.filterMap_cons, invite] at member
        refine member.elim (fun earlier => ?_) (fun later => later)
        obtain ⟨other, inside, same⟩ := List.mem_filterMap.mp earlier
        rcases (scanned.held id 0).mpr
          ⟨other, inside, namedUser_of_userId (valid other inside) same,
          Nat.zero_le _⟩ with ⟨given, written, mine, _⟩ | waits
        · exact absurd mine (new given written)
        · exact waiting id 0 waits
      refine ⟨scanned.indexed, ?_, scanned.nodup, scanned.settled, ?_,
        scanned.held_next names held, ?_⟩
      · simpa [invite] using scanned.listed
      · simp [scanned.stays, names]
      · intro other k waits
        rw [waits_cons] at waits
        split at waits
        · next same => exact same ▸ ahead
        · exact waiting other k waits
    · next outside =>
      intro held
      refine scanned.join names new (fun inside => outside ?_) rfl rfl held waiting
      exact ((List.sublist_cons_self row rest).trans
        (List.sublist_append_right seen _)).filterMap _ |>.subset inside

end Scanned

/-- The resolver's answers as the loop looks them up. -/
def Agrees (engine : Engine) (resolved byEmail : List (String × UserId)) (row : ProjectMember) :
    Prop :=
  ∀ email ∈ row.email,
    byEmail.lookup (engine.foldCase email) = resolved.lookup (engine.foldCase email)

theorem Scanned.step (scanned : Scanned engine resolved seen (row :: rest) scan)
    (valid : ∀ other ∈ seen ++ row :: rest, withMemberIdentityRules other = true)
    (distinct : (userIds (row :: rest)).Nodup) (agrees : Agrees engine resolved byEmail row) :
    Scanned engine resolved (seen ++ [row]) rest
      (scanMember engine (userIds (seen ++ row :: rest)) byEmail scan row) := by
  unfold scanMember
  split
  · next name group =>
    refine scanned.pass (by simp [namedUser, group]) ?_
    cases mine : row.userId with
    | none => rfl
    | some id =>
      have rules := valid row (List.mem_append_right _ (.head _))
      have named : namedUser engine resolved row = some id := namedUser_of_userId rules mine
      simp [namedUser, group] at named
  · next id group mine => exact scanned.user (by simp [namedUser, group, mine]) mine distinct
  · next email group mine invited =>
    rw [agrees email invited]
    split
    · next unknown => exact scanned.pass (by simp [namedUser, group, mine, invited, unknown]) mine
    · next id known =>
      exact scanned.claimed (by simp [namedUser, group, mine, invited, known]) mine
        fun other inside => valid other (List.mem_append_left _ inside)
  · next group mine uninvited =>
    exact scanned.pass (by simp [namedUser, group, mine, uninvited]) mine

theorem Scanned.run (scanned : Scanned engine resolved seen rest scan)
    (valid : ∀ row ∈ seen ++ rest, withMemberIdentityRules row = true)
    (distinct : (userIds rest).Nodup) (agrees : ∀ row ∈ rest, Agrees engine resolved byEmail row) :
    Scanned engine resolved (seen ++ rest) []
      (rest.foldl (scanMember engine (userIds (seen ++ rest)) byEmail) scan) := by
  induction rest generalizing seen scan with
  | nil => simpa using scanned
  | cons row rest ih =>
    have next := scanned.step valid distinct (agrees row (.head _))
    have later := distinct.sublist ((List.sublist_cons_self row rest).filterMap _)
    rw [List.append_cons seen row rest] at next valid ⊢
    exact ih next valid later fun other inside => agrees other (.tail _ inside)

theorem rescan (settled : ∀ row ∈ rows, Settled engine resolved row)
    (agrees : ∀ row ∈ rows, Agrees engine resolved byEmail row) (idle : scan.pendingRoles = []) :
    (rows.foldl (scanMember engine direct byEmail) scan).output = scan.output ++ rows := by
  induction rows generalizing scan with
  | nil => simp
  | cons row rest ih =>
    have turn : (scanMember engine direct byEmail scan row).output = scan.output ++ [row] ∧
        (scanMember engine direct byEmail scan row).pendingRoles = [] := by
      rcases settled row (.head _) with ⟨unnamed, unlisted⟩ | ⟨id, role, rfl⟩
      · unfold scanMember
        cases group : row.group with
        | some name => simp [idle]
        | none =>
          cases invited : row.email with
          | none => simp [unlisted, idle]
          | some email =>
            simp only [namedUser, group, unlisted, invited] at unnamed
            simp [unlisted, agrees row (.head _) email invited, unnamed, idle]
      · simp [scanMember, ProjectMember.ofUser, scanUser, idle]
    have later := ih (fun other inside => settled other (.tail _ inside))
      (fun other inside => agrees other (.tail _ inside)) turn.2
    rw [List.foldl_cons, later, turn.1, List.append_assoc, List.singleton_append]

theorem lookup_known {emails : List String} :
    (emails.filterMap fun email => (resolved.lookup email).map fun id => (email, id)).lookup email =
      if email ∈ emails then resolved.lookup email else none := by
  induction emails with
  | nil => rfl
  | cons first others ih =>
    cases known : resolved.lookup first with
    | none =>
      rw [List.filterMap_cons_none (by rw [known]; rfl), ih]
      by_cases same : email = first <;> simp [same, known]
    | some id =>
      rw [List.filterMap_cons_some (by rw [known]; rfl), List.lookup_cons, ih]
      by_cases same : email = first
      · simp [same, known]
      · simp [same, beq_eq_false_iff_ne.mpr same]

theorem agrees_invited (inside : row ∈ rows) : Agrees engine resolved
    ((invitedEmails engine rows).filterMap fun email =>
      (resolved.lookup email).map fun id => (email, id)) row := by
  intro email invited
  rw [lookup_known, if_pos]
  simp only [invitedEmails, List.mem_reverse, List.mem_dedup, List.mem_filterMap]
  exact ⟨row, inside, by rw [Option.mem_def.mp invited, Option.map_some]⟩

/-! ## The effective role -/

variable {subject : IdentitySubject}

theorem reaches_improved :
    (∃ found ∈ (if improves best row then some (row.role, row.source) else best),
      k ≤ found.1.rank) ↔ (∃ found ∈ best, k ≤ found.1.rank) ∨ k ≤ row.role.rank := by
  cases best with
  | none => simp [improves]
  | some found =>
    simp only [improves, Bool.or_eq_true, Bool.and_eq_true, decide_eq_true_eq]
    split <;> simp <;> omega

theorem rank_le_admin : role.rank ≤ Role.admin.rank := by cases role <;> decide

theorem bestMembership_reaches (plain : ∀ row ∈ rows, withMemberIdentityRules row = true) :
    (∃ found ∈ bestMembership engine subject rows best, k ≤ found.1.rank) ↔
      (∃ found ∈ best, k ≤ found.1.rank) ∨
        Reaches (memberRefMatchesSubject engine · subject = true) rows k := by
  induction rows generalizing best with
  | nil => simp [bestMembership]
  | cons row rest ih =>
    have later (best : Option (Role × MemberSource)) := @ih best
      fun other inside => plain other (.tail _ inside)
    have unskipped : (row.group.isSome && row.role == .admin) = false := by
      have rules := plain row (.head _)
      cases group : row.group <;> grind [withMemberIdentityRules]
    rw [bestMembership, unskipped, Bool.false_or, reaches_cons]
    cases matched : memberRefMatchesSubject engine row subject with
    | false => simpa using later best
    | true =>
      simp only [Bool.not_true, Bool.false_eq_true, if_false, true_and]
      rw [← or_assoc, ← reaches_improved]
      generalize (if improves best row = true then some (row.role, row.source) else best) = next
      split
      · next admin =>
        -- the loop stops at the highest rank
        rw [admin]
        have below (reached : Reaches (memberRefMatchesSubject engine · subject = true) rest k) :
            k ≤ Role.admin.rank := by
          obtain ⟨other, _, _, below⟩ := reached
          exact Nat.le_trans below rank_le_admin
        simpa using below
      · exact later next

/-- The highest role among the rows `p` picks. -/
def IsHighest (p : ProjectMember → Prop) (rows : List ProjectMember) (role : Role) : Prop :=
  (∃ row ∈ rows, p row ∧ row.role = role) ∧ ∀ row ∈ rows, p row → row.role.rank ≤ role.rank

theorem rank_injective {a b : Role} (same : a.rank = b.rank) : a = b := by
  cases a <;> cases b <;> first | rfl | cases same

theorem isHighest_iff : IsHighest p rows role ↔ ∀ k, Reaches p rows k ↔ k ≤ role.rank := by
  refine ⟨?_, ?_⟩
  · rintro ⟨⟨row, inside, picked, rfl⟩, top⟩ k
    refine ⟨?_, fun below => ⟨row, inside, picked, below⟩⟩
    rintro ⟨other, within, also, below⟩
    exact Nat.le_trans below (top other within also)
  · intro reaches
    have top (row : ProjectMember) (inside : row ∈ rows) (picked : p row) :
        row.role.rank ≤ role.rank := (reaches _).mp ⟨row, inside, picked, Nat.le_refl _⟩
    obtain ⟨row, inside, picked, above⟩ := (reaches role.rank).mpr (Nat.le_refl _)
    exact ⟨⟨row, inside, picked, rank_injective (Nat.le_antisymm (top row inside picked) above)⟩,
      top⟩

theorem memberRole_iff (plain : ∀ row ∈ rows, withMemberIdentityRules row = true) :
    (bestMembership engine subject rows none).map Prod.fst = some role ↔
      IsHighest (memberRefMatchesSubject engine · subject = true) rows role := by
  have reaches (k : Nat) : (∃ found ∈ bestMembership engine subject rows none,
      k ≤ found.1.rank) ↔ _ := bestMembership_reaches plain
  rw [isHighest_iff]
  cases found : bestMembership engine subject rows none with
  | none =>
    have nothing := (reaches 0).mpr.mt (by simp [found])
    simp only [Option.map_none, reduceCtorEq, false_iff]
    exact fun all => nothing (.inr ((all 0).mpr (Nat.zero_le _)))
  | some best =>
    simp only [found, Option.mem_def, Option.some.injEq, exists_eq_left', reduceCtorEq, false_and,
      exists_false, false_or] at reaches
    simp only [← reaches, Option.map_some, Option.some.injEq]
    refine ⟨fun same k => same ▸ Iff.rfl, fun same => rank_injective ?_⟩
    exact Nat.le_antisymm ((same _).mp (Nat.le_refl _)) ((same _).mpr (Nat.le_refl _))

/-- The row stands for the subject: it names them, or it names no user and matches them. -/
def Denotes (engine : Engine) (resolved : List (String × UserId)) (subject : IdentitySubject)
    (row : ProjectMember) : Prop :=
  match namedUser engine resolved row with
  | some id => id = subject.id
  | none => memberRefMatchesSubject engine row subject = true

theorem reaches_denotes : Reaches (Denotes engine resolved subject) rows k ↔
    Reaches (namedUser engine resolved · = some subject.id) rows k ∨
      Reaches (memberRefMatchesSubject engine · subject = true)
        (rows.filter (namedUser engine resolved · = none)) k := by
  induction rows with
  | nil => simp
  | cons row rest ih =>
    cases named : namedUser engine resolved row <;> simp [Denotes, named] <;> tauto

/-- Where the resolver knows the subject's email as theirs, rows denote whom they match. -/
theorem denotes_iff_matches (knows : ∀ email id, resolved.lookup (engine.foldCase email) = some id →
        (id = subject.id ↔ emailsEqual engine email subject.email = true)) :
    Denotes engine resolved subject row ↔ memberRefMatchesSubject engine row subject = true := by
  cases named : namedUser engine resolved row with
  | none => simp [Denotes, named]
  | some id =>
    simp only [Denotes, named]
    unfold namedUser at named
    split at named
    · cases named
    · next group mine =>
      cases named
      simp [memberRefMatchesSubject, group, mine]
    · next email group mine invited =>
      simp [memberRefMatchesSubject, group, mine, invited, knows email id named]
    · cases named

theorem Settled.denotes (settled : Settled engine resolved row) :
    memberRefMatchesSubject engine row subject = true ↔ Denotes engine resolved subject row := by
  rcases settled with ⟨unnamed, _⟩ | ⟨id, role, rfl⟩
  · simp [Denotes, unnamed]
  · exact beq_iff_eq

namespace Scanned

variable (scanned : Scanned engine resolved seen [] scan)
include scanned

theorem plain (valid : ∀ row ∈ seen, withMemberIdentityRules row = true) (row : ProjectMember)
    (inside : row ∈ scan.output) : withMemberIdentityRules row = true := by
  rcases scanned.settled row inside with ⟨unnamed, _⟩ | ⟨id, role, rfl⟩
  · have kept : row ∈ scan.output.filter (namedUser engine resolved · = none) := by
      simp [inside, unnamed]
    rw [scanned.stays] at kept
    exact valid row (List.mem_filter.mp kept).1
  · rfl

/-- No role waits after the last row, so the rows written reach what the rows read reached. -/
theorem reaches : Reaches (memberRefMatchesSubject engine · subject = true) scan.output k ↔
    Reaches (Denotes engine resolved subject) seen k := by
  have owned : Reaches (namedUser engine resolved · = some subject.id) scan.output k ↔
      Reaches (namedUser engine resolved · = some subject.id) seen k := by
    rw [← scanned.held, Held, or_iff_left fun waits => by simpa using scanned.waiting _ k waits]
    refine exists_congr fun row => and_congr_right fun inside => and_congr_left fun _ => ?_
    rcases scanned.settled row inside with ⟨unnamed, unlisted⟩ | ⟨user, role, rfl⟩
    · simp [unnamed, unlisted]
    · rfl
  calc Reaches (memberRefMatchesSubject engine · subject = true) scan.output k
      ↔ Reaches (Denotes engine resolved subject) scan.output k :=
        exists_congr fun row => and_congr_right fun inside => and_congr_left fun _ =>
          (scanned.settled row inside).denotes
    _ ↔ Reaches (Denotes engine resolved subject) seen k := by
        rw [reaches_denotes, reaches_denotes, owned, scanned.stays]

end Scanned

/-- Resolving the invites of a roster without two rows of one user gives every subject the highest
role among the rows that denote them, passes on groups and unresolved invites in their order, leaves
one row for each user and, done again, changes nothing. -/
theorem invites_resolved (engine : Engine) (members : List ProjectMember)
    (resolved : List (String × UserId))
    (valid : ∀ row ∈ members, withMemberIdentityRules row = true)
    (distinct : (members.filterMap ProjectMember.userId).Nodup) :
    let after := (resolveInviteRows engine members resolved).members
    (∀ subject role, (bestMembership engine subject after none).map Prod.fst = some role ↔
      IsHighest (Denotes engine resolved subject) members role) ∧
    after.filter (namedUser engine resolved · = none) =
      members.filter (namedUser engine resolved · = none) ∧
    (after.filterMap ProjectMember.userId).Nodup ∧
    (resolveInviteRows engine after resolved).members = after ∧
    ∀ subject : IdentitySubject, (∀ email id, resolved.lookup (engine.foldCase email) = some id →
      (id = subject.id ↔ emailsEqual engine email subject.email = true)) →
      ∀ row ∈ members, Denotes engine resolved subject row ↔
        memberRefMatchesSubject engine row subject = true := by
  have start : Scanned engine resolved [] members ⟨[], [], [], 0⟩ :=
    ⟨by simp, by simp, by simp, by simp, rfl, by simp [Held, Waits], by simp [Waits]⟩
  have scanned := start.run valid distinct fun _ inside => agrees_invited inside
  refine ⟨?_, scanned.stays, scanned.nodup, ?_, fun _ knows _ _ => denotes_iff_matches knows⟩
  · intro subject role
    refine (memberRole_iff (scanned.plain valid)).trans ?_
    rw [isHighest_iff, isHighest_iff]
    exact forall_congr' fun k => iff_congr scanned.reaches Iff.rfl
  · exact (rescan scanned.settled (fun _ inside => agrees_invited inside) rfl).trans
      (List.nil_append _)

/-- Two invites and the row of one person become one row. -/
theorem invites_resolved_merged :
    ((resolveInviteRows ⟨fun text => text, fun _ => none, fun text => text, fun _ => false⟩
      [⟨none, some "a@x", none, .editor⟩, .ofUser "u" .viewer, ⟨none, some "b@x", none, .manager⟩]
      [("a@x", "u"), ("b@x", "u")]).members.filterMap ProjectMember.userId).Nodup :=
  (invites_resolved _ _ _ (by decide) (by decide)).2.2.1

end MarimoHub.Guarantees.Invites
