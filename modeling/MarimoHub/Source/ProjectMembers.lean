import MarimoHub.Source.Authz

/-!
# Project rosters

The roster functions of `services/content/ProjectService.ts`: rows invited by email
become rows of the user once the identity provider knows the email. The maps of the
source are association lists whose newest entry for a key counts.
-/

namespace MarimoHub.Source

open ObjectStore

/-- `withMemberIdentityRules`: exactly one identity, and no group that holds admin. -/
def withMemberIdentityRules (member : ProjectMember) : Bool :=
  [member.userId.isSome, member.email.isSome, member.group.isSome].count true == 1 &&
    (member.group.isNone || member.role != .admin)

structure ClaimedInviteRows where
  members : List ProjectMember
  claimedRows : Nat
  userIdsByEmail : List (String × UserId)
deriving DecidableEq

def hasInviteRows (members : List ProjectMember) : Bool :=
  members.any fun member => member.email.isSome

def noInviteClaims (members : List ProjectMember) : ClaimedInviteRows := ⟨members, 0, []⟩

def higherRole (a b : Role) : Role := if roleAtLeast (some a) b then a else b

/-- The row of a known user. -/
def ProjectMember.ofUser (id : UserId) (role : Role) : ProjectMember := ⟨some id, none, none, role⟩

/-- The loop state of `resolveInviteRows`. -/
structure InviteScan where
  output : List ProjectMember
  outputIndexByUserId : List (UserId × Nat)
  pendingRoles : List (UserId × Role)
  claimedRows : Nat

section Invites

variable (engine : Engine)

/-- The emails invited, each once, in the order they first occur. -/
def invitedEmails (members : List ProjectMember) : List String :=
  (members.filterMap fun member => member.email.map engine.foldCase).reverse.dedup.reverse

/-- A row of a user, raised to a role invited for them before. -/
def scanUser (scan : InviteScan) (id : UserId) (role : Role) : InviteScan :=
  { scan with
    output := scan.output ++ [.ofUser id (match scan.pendingRoles.lookup id with
      | some pending => higherRole role pending
      | none => role)]
    outputIndexByUserId :=
      if (scan.outputIndexByUserId.lookup id).isSome then scan.outputIndexByUserId
      else (id, scan.output.length) :: scan.outputIndexByUserId
    pendingRoles := scan.pendingRoles.filter fun entry => entry.1 ≠ id }

/-- An invited row whose user is known. -/
def scanClaimed (directUserIds : List UserId) (scan : InviteScan) (id : UserId) (role : Role) :
    InviteScan :=
  let scan := { scan with claimedRows := scan.claimedRows + 1 }
  match scan.outputIndexByUserId.lookup id with
  | some index =>
    { scan with
      output := scan.output.modify index fun existing =>
        .ofUser id (higherRole existing.role role) }
  | none =>
    if id ∈ directUserIds then
      let raised := match scan.pendingRoles.lookup id with
        | some pending => higherRole pending role
        | none => role
      { scan with pendingRoles := (id, raised) :: scan.pendingRoles }
    else
      { scan with
        outputIndexByUserId := (id, scan.output.length) :: scan.outputIndexByUserId
        output := scan.output ++ [.ofUser id role] }

/-- One turn of the loop. -/
def scanMember (directUserIds : List UserId) (userIdsByEmail : List (String × UserId))
    (scan : InviteScan) (member : ProjectMember) : InviteScan :=
  let kept := { scan with output := scan.output ++ [member] }
  match member.group, member.userId, member.email with
  | some _, _, _ => kept
  | none, some id, _ => scanUser scan id member.role
  | none, none, some email =>
    match userIdsByEmail.lookup (engine.foldCase email) with
    | none => kept
    | some id => scanClaimed directUserIds scan id member.role
  -- no row of the schema is empty
  | none, none, none => kept

/-- `resolveInviteRows`, with what the identity provider answered. -/
def resolveInviteRows (members : List ProjectMember) (resolved : List (String × UserId)) :
    ClaimedInviteRows :=
  let userIdsByEmail := (invitedEmails engine members).filterMap fun email =>
    (resolved.lookup email).map fun id => (email, id)
  let directUserIds := members.filterMap ProjectMember.userId
  let scan := members.foldl (scanMember engine directUserIds userIdsByEmail) ⟨[], [], [], 0⟩
  ⟨scan.output, scan.claimedRows, userIdsByEmail⟩

/-- Who knows the users behind invited emails: the identity provider, or what a sweep
has already been told. -/
inductive InviteResolver where
  | provider
  | swept (resolved : List (String × UserId))

def InviteResolver.ask (resolver : InviteResolver) (emails : List String) :
    Hub Content (List (String × UserId)) :=
  match resolver with
  | .swept resolved => pure resolved
  | .provider => do
    match ← Prog.perform (B := Content) (.ask (ContentQuery.resolveIdentitiesByEmail emails)) with
    | some resolved => pure resolved
    | none => .raise .storage

def claimInviteRows (members : List ProjectMember) (resolver : InviteResolver) :
    Hub Content ClaimedInviteRows :=
  if hasInviteRows members then do
    let resolved ← resolver.ask (invitedEmails engine members)
    pure (resolveInviteRows engine members resolved)
  else pure (noInviteClaims members)

end Invites

end MarimoHub.Source
