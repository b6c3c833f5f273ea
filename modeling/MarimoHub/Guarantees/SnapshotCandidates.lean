import MarimoHub.Source.SnapshotCache

/-!
# The candidates of a subject

Role resolution reads the record of a project, the index its catalog entry. A role comes from the
owner, from a matching row or from the project's default, and each of the three puts the project
under a key `candidatesFor` looks up (`candidates_complete`).
-/

namespace MarimoHub.Guarantees

open Source Source.SnapshotCacheEntry

variable {engine : Engine} {subject : IdentitySubject} {policy : Option AuthzPolicy}
  {record : Project} {entry : OwnedProjectEntry} {projects : List OwnedProjectEntry}
  {map : ProjectListing} {index : ProjectInvolvement}

/-! ## What the index offers -/

theorem mem_add :
    found ∈ map.add other project key ↔ found ∈ map key ∨ key = other ∧ found = project := by
  by_cases same : key = other
  · subst same
    simp [ProjectListing.add]
  · simp [ProjectListing.add, same]

theorem mem_addAll :
    found ∈ addAll map keys project key ↔ found ∈ map key ∨ key ∈ keys ∧ found = project := by
  induction keys generalizing map with
  | nil => simp [addAll]
  | cons first rest ih =>
    have step := @ih (map.add first project)
    simp only [addAll, List.foldl_cons, List.mem_cons] at step ⊢
    rw [step, mem_add]
    tauto

/-- The entry names the subject, or its default gives them access. -/
def Involves (engine : Engine) (subject : IdentitySubject) (entry : OwnedProjectEntry) : Prop :=
  subject.id = entry.owner ∨ subject.id ∈ entry.memberIds.getD [] ∨
    engine.foldCase subject.email ∈ (entry.memberEmails.getD []).map engine.foldCase ∨
    (∃ group ∈ subject.groups, group ∈ entry.memberGroups.getD []) ∨
    entry.defaultRole ≠ some .inherit ∧ entry.defaultRole ≠ some .none

/-- The projects an index offers the subject. -/
def offers (engine : Engine) (subject : IdentitySubject) (index : ProjectInvolvement) :
    List ProjectId :=
  index.legacy ++ index.defaultAccess ++ index.userIds subject.id ++
    index.emails (engine.foldCase subject.email) ++ subject.groups.flatMap index.groups

theorem offers_involve (offered : found ∈ offers engine subject index ∨
      Involves engine subject entry ∧ found = entry.id) :
    found ∈ offers engine subject (involve engine index entry) := by
  simp only [offers, involve, Involves, List.mem_append, List.mem_flatMap, mem_addAll, mem_add]
    at offered ⊢
  split_ifs <;> grind

theorem offers_foldl (offered : found ∈ offers engine subject index) :
    found ∈ offers engine subject (projects.foldl (involve engine) index) := by
  induction projects generalizing index with
  | nil => exact offered
  | cons next rest ih => exact ih (offers_involve (.inl offered))

theorem candidate_of_involves (member : entry ∈ projects)
    (involves : Involves engine subject entry) :
    entry.id ∈ candidatesFor engine projects subject true := by
  obtain ⟨before, after, rfl⟩ := List.append_of_mem member
  change _ ∈ offers engine subject (buildInvolvement engine _)
  rw [buildInvolvement, List.foldl_append, List.foldl_cons]
  exact offers_foldl (offers_involve (.inr ⟨involves, rfl⟩))

/-! ## Where a role comes from -/

theorem bestMembership_unmatched
    (unmatched : ∀ member ∈ members, memberRefMatchesSubject engine member subject = false) :
    bestMembership engine subject members best = best := by
  induction members with
  | nil => rfl
  | cons member rest ih =>
    simp only [bestMembership, unmatched member (.head _), Bool.not_false, Bool.or_true]
    exact ih fun other inside => unmatched other (.tail _ inside)

theorem role_granted (ordinary : isSuperAdmin engine subject (superAdminRefs policy) = false)
    (undefaulted : subjectDefaultRole subject policy = none)
    (held : (resolveEffectiveRole engine record subject policy).role ≠ none) :
    record.owner = subject.id ∨
      (∃ member ∈ record.members, memberRefMatchesSubject engine member subject = true) ∨
      ∃ role, record.defaultRole = some (.role role) := by
  obtain ⟨unentitled, unlisted⟩ := Bool.or_eq_false_iff.mp ordinary
  by_cases unmatched : ∀ member ∈ record.members,
      memberRefMatchesSubject engine member subject = false
  · simp only [resolveEffectiveRole, unentitled, unlisted, Bool.false_eq_true, if_false,
      bestMembership_unmatched unmatched, undefaulted] at held
    split at held
    · next owns => exact .inl owns
    · split at held
      · next role granted => exact .inr (.inr ⟨role, granted⟩)
      · exact absurd rfl held
      · exact absurd rfl held
  · push Not at unmatched
    obtain ⟨member, inside, matched⟩ := unmatched
    exact .inr (.inl ⟨member, inside, Bool.eq_true_of_not_eq_false matched⟩)

/-- The entry of a record that projecting the record again would not change. -/
structure ExactProjection (record : Project) (entry : OwnedProjectEntry) : Prop where
  id : entry.id = record.id
  owner : entry.owner = record.owner
  current : ∃ finalize, projectCatalogPatch record entry.toSnapshotProjectEntry finalize
    entry.toSnapshotProjectEntry = entry.toSnapshotProjectEntry

theorem ExactProjection.roster (projected : ExactProjection record entry) :
    entry.memberIds = some (record.members.filterMap ProjectMember.userId) ∧
      entry.memberEmails = some (record.members.filterMap ProjectMember.email) ∧
      entry.memberGroups = some (record.members.filterMap ProjectMember.group) ∧
      entry.defaultRole = some (record.defaultRole.getD .inherit) := by
  obtain ⟨finalize, current⟩ := projected.current
  rw [← current]
  exact ⟨rfl, rfl, rfl, rfl⟩

/-- A matching row lists the project under the subject's id, email or one of their groups. -/
theorem ExactProjection.involves_of_match (projected : ExactProjection record entry)
    (listed : row ∈ record.members) (matched : memberRefMatchesSubject engine row subject = true) :
    Involves engine subject entry := by
  obtain ⟨ids, emails, groups, _⟩ := projected.roster
  simp only [Involves, ids, emails, groups, Option.getD_some, List.mem_filterMap, List.mem_map]
  unfold memberRefMatchesSubject at matched
  split at matched
  · next group named =>
    simp only [Bool.and_eq_true, List.contains_iff_mem] at matched
    exact .inr (.inr (.inr (.inl ⟨group, matched.2, row, listed, named⟩)))
  · split at matched
    · next user named => exact .inr (.inl ⟨row, listed, eq_of_beq matched ▸ named⟩)
    · split at matched
      · next email named =>
        exact .inr (.inr (.inl ⟨email, ⟨row, listed, named⟩, eq_of_beq matched⟩))
      · cases matched

/-- Every project on which an ordinary subject without a default role holds a role is among their
candidates. -/
theorem candidates_complete (engine : Engine) (policy : Option AuthzPolicy)
    (subject : IdentitySubject) (records : List Project) (projects : List OwnedProjectEntry)
    (projected : List.Forall₂ ExactProjection records projects)
    (ordinary : isSuperAdmin engine subject (superAdminRefs policy) = false)
    (undefaulted : subjectDefaultRole subject policy = none) (record : Project)
    (stored : record ∈ records)
    (held : (resolveEffectiveRole engine record subject policy).role ≠ none) :
    record.id ∈ candidatesFor engine projects subject true := by
  obtain ⟨sameLength, fits⟩ := List.forall₂_iff_get.mp projected
  obtain ⟨⟨i, below⟩, rfl⟩ := List.get_of_mem stored
  have fits := fits i below (sameLength ▸ below)
  rw [← fits.id]
  refine candidate_of_involves (List.get_mem _ _) ?_
  rcases role_granted ordinary undefaulted held with owns | ⟨row, listed, matched⟩ | ⟨role, default⟩
  · exact .inl (owns.symm.trans fits.owner.symm)
  · exact fits.involves_of_match listed matched
  · refine .inr (.inr (.inr (.inr ?_)))
    rw [fits.roster.2.2.2, default]
    simp

namespace MemberLists

/-- A project of somebody else, by its id and its rows. -/
def shared (id : ProjectId) (rows : List ProjectMember) : Project :=
  ⟨id, "p", "", "owner", rows, none, .active, 3, [], none⟩

def listing (id : ProjectId) (ids emails groups : List String) : OwnedProjectEntry :=
  ⟨⟨id, "p", "", .active, 3, some [], some ids, some .inherit, some emails, some groups, some none,
    false⟩, "owner"⟩

def records : List Project :=
  [shared 7 [⟨some "v", none, none, .editor⟩, ⟨none, none, some "staff", .viewer⟩],
    shared 8 [⟨none, some "u@x", none, .viewer⟩, ⟨some "v", none, none, .viewer⟩],
    shared 9 [⟨some "v", none, none, .viewer⟩]]

def entries : List OwnedProjectEntry :=
  [listing 7 ["v"] [] ["staff"], listing 8 ["v"] ["u@x"] [], listing 9 ["v"] [] []]

end MemberLists

open MemberLists in
/-- A group row of one project and an email row of another make both candidates. -/
theorem candidates_complete_group :
    let listed := candidatesFor ⟨id, fun _ => none, id, fun _ => false⟩ entries
      ⟨"u", "u@x", [], ["staff"]⟩ true
    7 ∈ listed ∧ 8 ∈ listed ∧ 9 ∉ listed := by
  have complete := candidates_complete ⟨id, fun _ => none, id, fun _ => false⟩ none
    ⟨"u", "u@x", [], ["staff"]⟩ records entries (.cons ⟨rfl, rfl, false, rfl⟩
      (.cons ⟨rfl, rfl, false, rfl⟩ (.cons ⟨rfl, rfl, false, rfl⟩ .nil))) (by decide) (by decide)
  exact ⟨complete _ (.head _) (by decide), complete _ (.tail _ (.head _)) (by decide), by decide⟩

end MarimoHub.Guarantees
