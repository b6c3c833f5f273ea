import MarimoHub.Source.ProjectRoster
import MarimoHub.Guarantees.ProjectCalls
import MarimoHub.Guarantees.CatalogPointer
import MarimoHub.ObjectStore.Record

/-!
# The owner's row

The guard of `updateMemberRoleWithMutation` and `removeMemberWithMutation` compares the
caller's selector with the owner. The row that is edited is another one: the row the selected
row has become once its invite is claimed. A roster keeps the owner's row exactly as long as no
such call edits, through an invite, the row of the owner.
-/

namespace MarimoHub.Guarantees

open ObjectStore Source Prog

variable {engine : Engine}

/-! ## Claiming invites -/

theorem higherRole_admin : higherRole .admin role = .admin := by
  cases role <;> rfl

/-- What the loop over the rows has kept: an index points at a row of its user, and an
administrator among the rows read is one among the rows written. -/
structure ScanKeeps (owner : UserId) (rows : List ProjectMember) (scan : InviteScan) : Prop where
  indexed : ∀ id n, scan.outputIndexByUserId.lookup id = some n →
    ∃ role, scan.output[n]? = some (.ofUser id role)
  kept : ProjectMember.ofUser owner .admin ∈ rows → .ofUser owner .admin ∈ scan.output

section Scan

theorem getElem?_append_of_some {xs ys : List α} {n : Nat} (found : xs[n]? = some x) :
    (xs ++ ys)[n]? = some x := by
  rw [List.getElem?_append_left (List.getElem?_eq_some_iff.mp found).1]
  exact found

section

variable (keeps : ScanKeeps owner rows scan)
include keeps

theorem ScanKeeps.pass (member : ProjectMember) :
    ScanKeeps owner (rows ++ [member]) { scan with output := scan.output ++ [member] } where
  indexed id n found := by
    obtain ⟨role, at_index⟩ := keeps.indexed id n found
    exact ⟨role, getElem?_append_of_some at_index⟩
  kept member' := by
    rcases List.mem_append.mp member' with before | here
    · exact List.mem_append_left _ (keeps.kept before)
    · exact List.mem_append_right _ here

theorem ScanKeeps.user (member : ProjectMember) {id : UserId}
    (known : member.userId = some id) :
    ScanKeeps owner (rows ++ [member]) (scanUser scan id member.role) := by
  obtain ⟨raised, written, admin⟩ : ∃ raised, (scanUser scan id member.role).output =
      scan.output ++ [.ofUser id raised] ∧ (member.role = .admin → raised = .admin) := by
    cases pending : scan.pendingRoles.lookup id with
    | none => exact ⟨member.role, by simp [scanUser, pending], fun same => same⟩
    | some invited =>
      refine ⟨higherRole member.role invited, by simp [scanUser, pending], ?_⟩
      intro same
      rw [same, higherRole_admin]
  refine ⟨?_, ?_⟩
  · intro other n found
    rw [written]
    simp only [scanUser] at found
    split at found
    · obtain ⟨held, at_index⟩ := keeps.indexed other n found
      exact ⟨held, getElem?_append_of_some at_index⟩
    · rw [List.lookup_cons] at found
      split at found
      · next same =>
        obtain rfl := beq_iff_eq.mp same
        obtain rfl := Option.some.inj found
        exact ⟨raised, by simp⟩
      · obtain ⟨held, at_index⟩ := keeps.indexed other n found
        exact ⟨held, getElem?_append_of_some at_index⟩
  · intro listed
    rw [written]
    rcases List.mem_append.mp listed with before | here
    · exact List.mem_append_left _ (keeps.kept before)
    · obtain rfl := List.mem_singleton.mp here
      obtain rfl : owner = id := Option.some.inj known
      rw [admin rfl]
      exact List.mem_append_right _ (.head _)

/-- An invite of a known user raises that user's row, waits for it, or becomes it. -/
theorem ScanKeeps.claimed (direct : List UserId)
    (member : ProjectMember) (invite : member.userId = none) (id : UserId) :
    ScanKeeps owner (rows ++ [member]) (scanClaimed direct scan id member.role) := by
  have earlier (listed : ProjectMember.ofUser owner .admin ∈ rows ++ [member]) :
      ProjectMember.ofUser owner .admin ∈ rows := by
    rcases List.mem_append.mp listed with before | here
    · exact before
    · rw [← List.mem_singleton.mp here] at invite
      cases invite
  cases index : scan.outputIndexByUserId.lookup id with
  | some at_id =>
    obtain ⟨held, at_index⟩ := keeps.indexed id at_id index
    simp only [scanClaimed, index]
    refine ⟨?_, ?_⟩
    · intro other n found
      obtain ⟨role, at_other⟩ := keeps.indexed other n found
      rw [List.getElem?_modify]
      split
      · exact ⟨higherRole role member.role, by simp_all [ProjectMember.ofUser]⟩
      · exact ⟨role, by simpa using at_other⟩
    · intro listed
      obtain ⟨n, at_owner⟩ := List.mem_iff_getElem?.mp (keeps.kept (earlier listed))
      refine List.mem_iff_getElem?.mpr ⟨n, ?_⟩
      rw [List.getElem?_modify, at_owner]
      split
      · next same =>
        rw [same, at_owner] at at_index
        obtain ⟨rfl, rfl⟩ : owner = id ∧ Role.admin = held := by
          simpa [ProjectMember.ofUser] using at_index
        simp [ProjectMember.ofUser, higherRole_admin]
      · rfl
  | none =>
    by_cases listedId : id ∈ direct
    · simp only [scanClaimed, index, if_pos listedId]
      exact ⟨keeps.indexed, fun listed => keeps.kept (earlier listed)⟩
    · simp only [scanClaimed, index, if_neg listedId]
      refine ⟨?_, fun listed => List.mem_append_left _ (keeps.kept (earlier listed))⟩
      intro other n found
      rw [List.lookup_cons] at found
      split at found
      · next same =>
        obtain rfl := beq_iff_eq.mp same
        obtain rfl := Option.some.inj found
        exact ⟨member.role, by simp⟩
      · obtain ⟨role, at_other⟩ := keeps.indexed other n found
        exact ⟨role, getElem?_append_of_some at_other⟩

theorem ScanKeeps.step (direct : List UserId)
    (byEmail : List (String × UserId)) (member : ProjectMember) :
    ScanKeeps owner (rows ++ [member]) (scanMember engine direct byEmail scan member) := by
  unfold scanMember
  split
  · exact keeps.pass member
  · next known => exact keeps.user member known
  · next invite _ =>
    split
    · exact keeps.pass member
    · exact keeps.claimed direct member invite _
  · exact keeps.pass member

theorem ScanKeeps.run (direct : List UserId) (byEmail : List (String × UserId))
    (members : List ProjectMember) :
    ScanKeeps owner (rows ++ members) (members.foldl (scanMember engine direct byEmail) scan) := by
  induction members generalizing rows scan with
  | nil => rwa [List.append_nil]
  | cons member rest ih =>
    rw [List.append_cons]
    exact ih (keeps.step direct byEmail member)

end

end Scan

variable {members : List ProjectMember} {current : Project} {resolved : List (String × UserId)}
  {derive : DeriveMembers} {past : Events} {row : ProjectMember}

theorem claimedRows_keep (listed : ProjectMember.ofUser owner .admin ∈ members) :
    .ofUser owner .admin ∈ (claimedRows engine members resolved).members := by
  unfold claimedRows
  split
  · have start : ScanKeeps owner [] ⟨[], [], [], 0⟩ := ⟨by simp, by simp⟩
    exact (start.run _ _ members).kept listed
  · exact listed

/-! ## One change -/

inductive RosterCall where
  | addMember (id : ProjectId) (member : NewMember) (role : AssignableRole) (actor : UserId)
  | updateMemberRole (id : ProjectId) (selector : MemberSelector) (role : AssignableRole)
      (actor : UserId)
  | removeMember (id : ProjectId) (selector : MemberSelector) (actor : UserId)
  | claimPendingInvites

def RosterCall.run (engine : Engine) (isAuthGroupId : String → Bool) : RosterCall → Hub Content Unit
  | .addMember id member role actor => do
    let _ ← addMemberWithMutation engine isAuthGroupId id member role actor
  | .updateMemberRole id selector role actor => do
    let _ ← updateMemberRoleWithMutation engine id selector role actor
  | .removeMember id selector actor => do
    let _ ← removeMemberWithMutation engine id selector actor
  | .claimPendingInvites => do
    let _ ← Source.claimPendingInvites engine

/-- The rosters a call may write for a project, from the roster it read. -/
inductive RosterCall.Derives (engine : Engine) : RosterCall → ProjectId → DeriveMembers → Prop where
  | group (id : ProjectId) (name : String) (role : AssignableRole) (actor : UserId) :
      Derives engine (.addMember id (.group name) role actor) id (addGroup id name role)
  | person (id : ProjectId) (member : NewMember) (userId : Option UserId) (email : Option String)
      (role : AssignableRole) (actor : UserId) :
      Derives engine (.addMember id member role actor) id (addPerson id userId email role)
  | role (id : ProjectId) (selector : MemberSelector) (role : AssignableRole) (actor : UserId) :
      Derives engine (.updateMemberRole id selector role actor) id
        (changeRole engine id selector role)
  | removal (id : ProjectId) (selector : MemberSelector) (actor : UserId) :
      Derives engine (.removeMember id selector actor) id (dropMember engine id selector)
  | claim (id : ProjectId) :
      Derives engine .claimPendingInvites id fun _ claimed => .ok claimed.members

/-- The row a call edits, named as the caller names it. -/
def RosterCall.selector : RosterCall → Option MemberSelector
  | .updateMemberRole _ selector _ _ => some selector
  | .removeMember _ selector _ => some selector
  | _ => none

/-- The selected row becomes the owner's once its invite is claimed. -/
def editsOwner (engine : Engine) (call : RosterCall) (current : Project)
    (resolved : List (String × UserId)) : Bool :=
  match call.selector with
  | none => false
  | some selector =>
    match current.members.find? fun m => memberRefMatchesSelector engine m selector with
    | none => false
    | some row =>
      selectorAfterClaims engine row (claimedRows engine current.members resolved) =
        .ref current.owner

theorem ofUser_matches (owner : UserId) (role : Role) (selector : MemberSelector) :
    memberRefMatchesSelector engine (.ofUser owner role) selector = true ↔
      selector = .ref owner := by
  cases selector with
  | group name => simp [memberRefMatchesSelector, ProjectMember.ofUser]
  | ref text =>
    change (owner == text) = true ↔ _
    rw [beq_iff_eq, MemberSelector.ref.injEq]
    exact eq_comm

theorem assignable_ne_admin {role : AssignableRole} : role.toRole ≠ .admin := by
  cases role <;> decide

theorem selectedRow_ok {id : ProjectId}
    (selected : selectedRow engine id selector refused current = .ok row) :
    current.members.find? (fun m => memberRefMatchesSelector engine m selector) = some row := by
  unfold selectedRow at selected
  split at selected
  · cases selected
  · split at selected
    · cases selected
    · next found =>
      cases selected
      exact found

variable {call : RosterCall} {o : Op Content}

theorem editsOwner_of_row (selects : call.selector = some selector)
    (found : current.members.find? (fun m => memberRefMatchesSelector engine m selector) = some
      row) : editsOwner engine call current resolved =
      decide (selectorAfterClaims engine row (claimedRows engine current.members resolved) =
        .ref current.owner) := by
  simp only [editsOwner, selects, found]

/-- A change of the roster keeps the owner's row exactly when it does not edit it. -/
theorem derives_keeps_iff {id : ProjectId} (derives : call.Derives engine id derive)
    (derived : derive current (claimedRows engine current.members resolved) = .ok members)
    (listed : ProjectMember.ofUser current.owner .admin ∈ current.members) :
    .ofUser current.owner .admin ∈ members ↔ editsOwner engine call current resolved = false := by
  have claimed : .ofUser current.owner .admin ∈
      (claimedRows engine current.members resolved).members := claimedRows_keep listed
  cases derives with
  | group _ name role actor =>
    simp only [addGroup] at derived
    split at derived
    · cases derived
    · cases derived
      exact ⟨fun _ => rfl, fun _ => List.mem_append_left _ claimed⟩
  | person _ member userId email role actor =>
    simp only [addPerson] at derived
    split at derived
    · cases derived
    · cases derived
      exact ⟨fun _ => rfl, fun _ => List.mem_append_left _ claimed⟩
  | claim =>
    cases derived
    exact ⟨fun _ => rfl, fun _ => claimed⟩
  | role _ selector role actor =>
    simp only [changeRole] at derived
    cases selected : selectedRow engine id selector
        "Cannot change the role of the project owner" current with
    | error err =>
      rw [selected] at derived
      cases derived
    | ok row =>
      rw [selected] at derived
      cases derived
      rw [editsOwner_of_row rfl (selectedRow_ok selected), decide_eq_false_iff_not]
      constructor
      · intro kept same
        obtain ⟨m, _, written⟩ := List.mem_map.mp kept
        split at written
        · exact assignable_ne_admin (congrArg ProjectMember.role written)
        · next unmatched =>
          rw [written] at unmatched
          exact unmatched ((ofUser_matches _ _ _).mpr same)
      · intro other
        refine List.mem_map.mpr ⟨_, claimed, if_neg ?_⟩
        rwa [ofUser_matches]
  | removal _ selector actor =>
    simp only [dropMember] at derived
    cases selected : selectedRow engine id selector "Cannot remove the project owner" current with
    | error err =>
      rw [selected] at derived
      cases derived
    | ok row =>
      rw [selected] at derived
      cases derived
      rw [editsOwner_of_row rfl (selectedRow_ok selected), decide_eq_false_iff_not, List.mem_filter,
        Bool.not_eq_true', ← Bool.not_eq_true, ofUser_matches]
      exact ⟨fun kept => kept.2, fun other => ⟨claimed, other⟩⟩

/-! ## What a call does, alone -/

/-- A call that names a row derives the new roster from the record it read and from what the
identity provider told it last. -/
structure RosterWrite (engine : Engine) (call : RosterCall) (id : ProjectId) (past : Events)
    (old new : Project) : Prop where
  owner : new.owner = old.owner
  derived : ∃ derive resolved, call.Derives engine id derive ∧
    derive old (claimedRows engine old.members resolved) = .ok new.members ∧
    (call.selector.isSome = true → resolved = lastResolved past)

def RosterRule (engine : Engine) (call : RosterCall) (past : Events) : Op Content → Prop
  | .put (.project id) v c => ∃ (old new : Project) (tag : Etag Content),
      v = .project new ∧ c = .ifMatch tag ∧
      ⟨.get (.project id), .found (.project old) tag⟩ ∈ past ∧
      RosterWrite engine call id past old new
  | .delete (.project _) => False
  | _ => True

section Alone

variable {resolver : InviteResolver}

theorem rosterRule_of_catalogOp (op : CatalogOp o) : RosterRule engine call past o := by
  cases o with
  | put k v c => cases k <;> first | exact op.elim | trivial
  | delete k => cases k <;> first | exact op.elim | trivial
  | _ => trivial

theorem rosterRule_of_readOnly (readOnly : ReadOnly o) :
    RosterRule engine call past o := rosterRule_of_catalogOp (catalogOp_of_readOnly readOnly)

theorem keeps_rosterEntry {id : ProjectId} : Keeps (RosterRule engine call)
    (updateProjectEntry operation actor id (projectRecord id false)) := by
  refine keeps_of_emits fun _ => emits_mutateSnapshot ⟨fun _ _ => rosterRule_of_readOnly,
    fun _ _ _ _ => trivial, fun base => ?_, fun _ _ => trivial, fun _ _ => trivial,
    fun _ _ => trivial⟩
  exact (patchProjectFn_reads (fun _ => loadProjectCatalogPatch_reads) base).emits
    fun _ _ => rosterRule_of_readOnly

theorem keeps_writeRoster {id : ProjectId} (derives : call.Derives engine id derive)
    (named : call.selector.isSome = true → resolver = .provider) :
    Keeps (RosterRule engine call) (mutateMemberObject engine id derive skip resolver) := by
  refine keeps_mutateMemberObject (fun _ _ => rosterRule_of_readOnly) ?_
  rintro es old tag members _ updatedAt read ⟨resolved, rfl, told⟩ derived
  exact ⟨old, _, tag, rfl, rfl, read, rfl, derive, resolved, derives, derived,
    fun names => told (named names)⟩

theorem keeps_writeMembersRoster {id : ProjectId} (derives : call.Derives engine id derive) :
    Keeps (RosterRule engine call) (writeMembers engine id derive actor) :=
  (keeps_writeRoster derives fun _ => rfl).bind fun _ => keeps_rosterEntry.map

theorem keeps_claimAll :
    Keeps (RosterRule engine .claimPendingInvites) (claimAll engine resolved candidates) := by
  induction candidates with
  | nil => exact keeps_ret
  | cons candidate rest ih =>
    refine Keeps.bind (Keeps.tryCatch ?_ fun err => Keeps.ite keeps_ret keeps_raise) fun _ => ih.map
    refine (keeps_writeRoster (.claim candidate.id) (by simp [RosterCall.selector])).bind fun _ =>
      ?_
    exact Keeps.ite keeps_ret keeps_rosterEntry.map

theorem rosterCall_keeps_rule :
    Keeps (RosterRule engine call) (call.run engine isAuthGroupId) := by
  cases call with
  | addMember id member role actor =>
    refine Keeps.map ?_
    unfold addMemberWithMutation
    cases member with
    | group name => exact Keeps.ite (keeps_writeMembersRoster (.group ..)) keeps_raise
    | user user email => exact keeps_writeMembersRoster (.person ..)
    | email email => exact keeps_writeMembersRoster (.person ..)
  | updateMemberRole => exact (keeps_writeMembersRoster (.role ..)).map
  | removeMember => exact (keeps_writeMembersRoster (.removal ..)).map
  | claimPendingInvites =>
    have reads := readOnly_getCurrentSnapshot.emits (G := RosterRule engine .claimPendingInvites)
      fun _ _ => rosterRule_of_readOnly
    refine Keeps.bind (Keeps.bind reads fun snapshot => ?_) fun _ => keeps_ret
    refine Keeps.ite keeps_ret fun past => ⟨trivial, fun answer => ?_⟩
    cases answer with
    | none => trivial
    | some resolved => exact keeps_claimAll _

end Alone

/-! ## Runs -/

/-- The stored roster has the owner's row, as an administrator. -/
def KeepsOwner (id : ProjectId) (t : Trace Content) : Prop :=
  ∃ project, lookup (Key.project id) t = some (.project project) ∧
    ProjectMember.ofUser project.owner .admin ∈ project.members

def storedProject (id : ProjectId) (t : Trace Content) : Option Project :=
  match lookup (Key.project id) t with
  | some (.project project) => some project
  | _ => none

theorem storedProject_eq_some {id : ProjectId} : storedProject id t = some project ↔
      lookup (Key.project id) t = some (.project project) := by
  unfold storedProject
  cases lookup (Key.project id) t with
  | none => simp
  | some v => cases v <;> simp

instance (id : ProjectId) (t : Trace Content) : Decidable (KeepsOwner id t) :=
  decidable_of_iff (∃ project ∈ storedProject id t,
    ProjectMember.ofUser project.owner .admin ∈ project.members) (by
      simp only [KeepsOwner, Option.mem_def, storedProject_eq_some])

/-- The event writes a roster for a call that edits the owner's row through an invite. -/
def editsOwnerAt (engine : Engine) (calls : Nat → RosterCall) (id : ProjectId)
    (past : Trace Content) (x : Event Content) : Bool :=
  match x.thread, x.effect (.project id), lookup (Key.project id) past with
  | some i, some (some (.project _)), some (.project current) =>
    editsOwner engine (calls i) current (lastResolved (own i past))
  | _, _, _ => false

variable {x : Event Content}

section Runs

variable
  {calls : Nat → RosterCall} {id : ProjectId}

theorem roster_written (history : History a seeds (fun i => (calls i).run engine isAuthGroupId) c)
    {past : Trace Content} (moment : x :: past <:+ c.trace) (based : seeds <:+ past)
    (effect : x.effect (.project id) = some now) :
    ∃ i old new, x.thread = some i ∧ now = some (.project new) ∧
      lookup (Key.project id) past = some (.project old) ∧
      RosterWrite engine (calls i) id (own i past) old new := by
  obtain ⟨i, mine⟩ := history.thread_of_moment moment based
  have accepted := history.accepted.suffix moment
  obtain ⟨v, condition, r, rfl, shape, applied, old, new, tag, rfl, rfl, read, write⟩ :=
    written_under (history.guarantee (fun _ => rosterCall_keeps_rule []) moment mine) effect
      False.elim
  refine ⟨i, old, new, mine, rfl, ?_, write⟩
  rw [(accepted.1.matched shape applied).1, Issued.value (.inl read) accepted.2]

theorem editsOwner_told (same : call.selector.isSome = true → resolved = resolved') :
    editsOwner engine call current resolved = editsOwner engine call current resolved' := by
  cases named : call.selector with
  | none => simp only [editsOwner, named]
  | some selector => rw [same (by rw [named]; rfl)]

theorem keepsOwner_step (history : History a seeds (fun i => (calls i).run engine isAuthGroupId) c)
    {past : Trace Content} (moment : x :: past <:+ c.trace) (based : seeds <:+ past)
    (kept : KeepsOwner id past) :
    KeepsOwner id (x :: past) ↔ editsOwnerAt engine calls id past x = false := by
  obtain ⟨project, stored, listed⟩ := kept
  cases effect : x.effect (.project id) with
  | none =>
    have quiet : editsOwnerAt engine calls id past x = false := by simp [editsOwnerAt, effect]
    exact ⟨fun _ => quiet, fun _ => ⟨project, by rwa [lookup_of_no_effect effect], listed⟩⟩
  | some now =>
    obtain ⟨i, old, new, mine, rfl, before, owner, derive, resolved, derives, derived, told⟩ :=
      roster_written history moment based effect
    obtain rfl : project = old := by
      rw [stored] at before
      cases before
      rfl
    have edits : editsOwnerAt engine calls id past x =
        editsOwner engine (calls i) project (lastResolved (own i past)) := by
      simp only [editsOwnerAt, mine, effect, stored]
    rw [edits, ← editsOwner_told told, ← derives_keeps_iff derives derived listed, KeepsOwner,
      lookup_of_effect effect, ← owner]
    constructor
    · rintro ⟨_, ⟨⟩, kept⟩
      exact kept
    · intro kept
      exact ⟨new, rfl, kept⟩

end Runs

/-- In every run of any number of roster changes, however interleaved, and whatever the identity
provider answers, the owner's row stays an administrator's exactly as long as no change edits the
row of the owner through an invite. -/
theorem owner_row_kept_iff (a : Adapter Content) (seeds : Trace Content) (initial : Seeds a seeds)
    (engine : Engine) (isAuthGroupId : String → Bool) (calls : Nat → RosterCall)
    (c : Config Content HubError Unit)
    (reach : Reaches a ⟨seeds, fun i => (calls i).run engine isAuthGroupId⟩ c) (id : ProjectId)
    (start : KeepsOwner id seeds) : (∀ t, seeds <:+ t → t <:+ c.trace → KeepsOwner id t) ↔
      ∀ x past, (x :: past) <:+ c.trace → seeds <:+ past →
        editsOwnerAt engine calls id past x = false := by
  have history := reach.history initial
  constructor
  · intro always x past moment based
    refine (keepsOwner_step history moment based ?_).mp ?_
    · exact always past based moment.past
    · exact always _ (based.cons) moment
  · intro never t based inside
    refine lasts based start ?_
    intro x past moment above kept
    have earlier := moment.trans inside
    exact (keepsOwner_step history earlier above kept).mpr (never x past earlier above)

/-! ## An invite of the owner -/

namespace OwnerInvite

def adapter : Adapter Content := ⟨fun _ version => version, 1⟩

def plain : Engine := ⟨id, fun _ => none, id, fun _ => false⟩

def roster : List ProjectMember := [.ofUser "owner" .admin, .ofUser "manager" .manager]

def contents : List (Key × Val) :=
  [(.project 7, .project ⟨7, "p", "", "owner", roster, none, .active, 0, [], none⟩)]

/-- The manager invites an email and then gives the invited row another role. -/
def calls : Nat → RosterCall
  | 0 => .addMember 7 (.email "o@example.org") .viewer "manager"
  | _ => .updateMemberRole 7 (.ref "o@example.org") .viewer "manager"

/-- The provider knows the email as the one of `user`. -/
def moves (user : UserId) : List (Move Content) :=
  turns 0 1 [.ok, .ok, .ok] ++ turns (B := Content) 1 2 [.ok, .answer
    (.resolveIdentitiesByEmail ["o@example.org"]) (some [("o@example.org", user)]), .ok, .ok]

def start : Config Content HubError Unit :=
  ⟨seed adapter contents, fun i => (calls i).run plain fun _ => true⟩

def storedRoster (t : Trace Content) : Option (List ProjectMember) :=
  (storedProject 7 t).map Project.members

end OwnerInvite

open OwnerInvite

/-- The owner's own email is invited and then made a viewer: the project has no administrator
left. -/
theorem owner_demoted_through_invite : KeepsOwner 7 start.trace ∧ ∃ c, Reaches adapter start c ∧
      storedRoster c.trace = some [.ofUser "owner" .viewer, .ofUser "manager" .manager] ∧
      ¬ KeepsOwner 7 c.trace := by
  refine ⟨by decide, ?_⟩
  obtain ⟨c, reach, observed⟩ := Config.play_any adapter start (moves "owner")
    (fun c => storedRoster c.trace = some [.ofUser "owner" .viewer, .ofUser "manager" .manager] ∧
      ¬ KeepsOwner 7 c.trace) (by decide)
  exact ⟨c, reach, observed⟩

/-- The same calls, for an email of somebody else. -/
theorem owner_row_kept_guest : ∃ c, Reaches adapter start c ∧
      storedRoster c.trace = some [.ofUser "owner" .admin,
        .ofUser "manager" .manager, .ofUser "guest" .viewer] ∧ KeepsOwner 7 c.trace := by
  obtain ⟨c, reach, observed⟩ := Config.play_any adapter start (moves "guest")
    (fun c => storedRoster c.trace = some [.ofUser "owner" .admin,
        .ofUser "manager" .manager, .ofUser "guest" .viewer] ∧
      Along (fun past x => editsOwnerAt plain calls 7 past x = false)
        c.trace) (by decide)
  have facts := observed
  refine ⟨c, reach, facts.1, ?_⟩
  refine (owner_row_kept_iff adapter _ (seeds_seed _ _) plain (fun _ => true)
    calls c reach 7 (by decide)).mpr ?_ c.trace reach.grows List.suffix_rfl
  intro x past moment _
  exact facts.2.at moment

end MarimoHub.Guarantees
