import MarimoHub.Source.ProjectService

/-!
# Changing a project's roster

`addMemberWithMutation`, `updateMemberRoleWithMutation`, `removeMemberWithMutation` and
`claimPendingInvites` of
`services/content/ProjectService.ts`, with the selectors of `identityMatch.ts`. Every change
starts from the roster in which pending invites have been folded into the rows of the users
the identity provider knows.
-/

namespace MarimoHub.Source

open ObjectStore

/-- A user id or an email, or a group. -/
inductive MemberSelector where
  | ref (text : String)
  | group (name : String)
deriving DecidableEq

inductive NewMember where
  | user (id : UserId) (email : Option String)
  | email (email : String)
  | group (name : String)
deriving DecidableEq

def describeMemberSelector : MemberSelector → String
  | .ref text => text
  | .group name => name

section Roster

variable (engine : Engine)

/-- Group selectors cannot address individual members, even when their names coincide. -/
def memberRefMatchesSelector (member : ProjectMember) : MemberSelector → Bool
  | .group name => member.userId.isNone && member.email.isNone && member.group == some name
  | .ref text =>
    match member.group, member.userId, member.email with
    | some _, _, _ => false
    | none, some id, _ => id == text
    | none, none, some email => emailsEqual engine email text
    | none, none, none => false

/-- Which row the selected one has become. -/
def selectorAfterClaims (member : ProjectMember) (claimed : ClaimedInviteRows) : MemberSelector :=
  match member.group, member.userId, member.email with
  | some name, _, _ => .group name
  | none, some id, _ => .ref id
  | none, none, some email =>
    .ref ((claimed.userIdsByEmail.lookup (engine.foldCase email)).getD email)
  -- no row of the schema is empty
  | none, none, none => .ref ""

/-! ## New rosters -/

def alreadyMember (who : String) (id : ProjectId) : HubError :=
  .conflict s!"{who} is already a member of project {id}"

variable (id : ProjectId) (selector : MemberSelector)

def notMember (id : ProjectId) : HubError :=
  .notFound s!"{describeMemberSelector selector} is not a member of project {id}"

/-- `isAuthGroupId` has accepted the group before. -/
def addGroup (name : String) (role : AssignableRole) : DeriveMembers :=
  fun _ claimed =>
    if claimed.members.any fun m => m.group == some name then
      .error (.conflict s!"group {name} is already a member of project {id}")
    else .ok (claimed.members ++ [⟨none, none, some name, role.toRole⟩])

/-- A row of the user, or else an invite. -/
def newRow (userId : Option UserId) (email : Option String) (role : AssignableRole) :
    ProjectMember :=
  match userId with
  | some user => .ofUser user role.toRole
  | none => ⟨none, email, none, role.toRole⟩

def addPerson (userId : Option UserId) (email : Option String)
    (role : AssignableRole) : DeriveMembers :=
  fun _ claimed =>
    let claimedUserId := userId <|> email.bind fun e => claimed.userIdsByEmail.lookup e
    let duplicate := claimed.members.any fun m =>
      (claimedUserId.isSome && m.userId == claimedUserId) || (email.isSome && m.email == email)
    if duplicate then .error (alreadyMember ((userId <|> email).getD "") id)
    else .ok (claimed.members ++ [newRow userId email role])

/-- The row the selector names; the owner's cannot be named. -/
def selectedRow (refused : String) (current : Project) : Except HubError ProjectMember :=
  if selector = .ref current.owner then .error (.conflict refused)
  else
    match current.members.find? fun m => memberRefMatchesSelector engine m selector with
    | none => .error (notMember selector id)
    | some row => .ok row

def changeRole (role : AssignableRole) : DeriveMembers :=
  fun current claimed => do
    let previousMember ← selectedRow engine id selector
      "Cannot change the role of the project owner" current
    let claimedSelector := selectorAfterClaims engine previousMember claimed
    pure (claimed.members.map fun m =>
      if memberRefMatchesSelector engine m claimedSelector then { m with role := role.toRole }
      else m)

def dropMember : DeriveMembers :=
  fun current claimed => do
    let previousMember ← selectedRow engine id selector "Cannot remove the project owner" current
    let claimedSelector := selectorAfterClaims engine previousMember claimed
    pure (claimed.members.filter fun m => !memberRefMatchesSelector engine m claimedSelector)

/-! ## The calls -/

def addMemberWithMutation (isAuthGroupId : String → Bool) (id : ProjectId) (member : NewMember)
    (role : AssignableRole) (actor : UserId) : Hub Content (Project × SnapshotId) :=
  match member with
  | .group name =>
    if isAuthGroupId name then writeMembers engine id (addGroup id name role) actor
    else .raise (.validation "Invalid group member")
  | .user user email =>
    writeMembers engine id (addPerson id (some user) (email.map engine.foldCase) role) actor
  | .email email =>
    writeMembers engine id (addPerson id none (some (engine.foldCase email)) role) actor

def updateMemberRoleWithMutation (role : AssignableRole)
    (actor : UserId) : Hub Content (Project × SnapshotId) :=
  writeMembers engine id (changeRole engine id selector role) actor

def removeMemberWithMutation (actor : UserId) : Hub Content (Project × SnapshotId) :=
  writeMembers engine id (dropMember engine id selector) actor

def claimAll (resolved : List (String × UserId)) : List SnapshotProjectEntry → Hub Content Nat
  | [] => pure 0
  | candidate :: rest => do
    let count ← claimProjectInvites engine candidate resolved
    let others ← claimAll resolved rest
    pure (count + others)

def claimPendingInvites : Hub Content Nat := do
  let snapshot ← getCurrentSnapshot
  let candidates := snapshot.projects.filter fun project =>
    project.status ≠ .deleted ∧ (project.memberEmails.getD []) ≠ []
  if candidates = [] then pure 0
  else do
    let emails := (candidates.flatMap fun project =>
      (project.memberEmails.getD []).map engine.foldCase).dedup
    let resolved ← InviteResolver.provider.ask emails
    claimAll engine resolved candidates

end Roster

end MarimoHub.Source
