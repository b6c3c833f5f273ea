import MarimoHub.Source.ProjectService

/-!
# The index of a snapshot

`services/catalog/snapshotCache.ts`: the projects of a snapshot listed under the user ids, folded
emails and groups of their rosters. A missing key of a map reads as the empty list, so the maps are
functions. The caching of the index itself is left out.
-/

namespace MarimoHub.Source

/-- An entry with its `owner`, which the index alone reads. -/
structure OwnedProjectEntry extends SnapshotProjectEntry where
  owner : UserId

abbrev ProjectListing : Type := String → List ProjectId

def ProjectListing.add (map : ProjectListing) (key : String) (id : ProjectId) : ProjectListing :=
  Function.update map key (map key ++ [id])

structure ProjectInvolvement where
  userIds : ProjectListing
  emails : ProjectListing
  groups : ProjectListing
  legacy : List ProjectId
  defaultAccess : List ProjectId

namespace SnapshotCacheEntry

def addAll (map : ProjectListing) (keys : List String) (id : ProjectId) : ProjectListing :=
  keys.foldl (fun map key => map.add key id) map

/-- One turn of the loop of `buildInvolvement`. -/
def involve (engine : Engine) (index : ProjectInvolvement) (project : OwnedProjectEntry) :
    ProjectInvolvement where
  userIds := addAll (index.userIds.add project.owner project.id) (project.memberIds.getD [])
    project.id
  emails := addAll index.emails ((project.memberEmails.getD []).map engine.foldCase) project.id
  groups := addAll index.groups (project.memberGroups.getD []) project.id
  legacy :=
    if project.memberIds = none ∨ project.memberEmails = none ∨ project.memberGroups = none then
      index.legacy ++ [project.id]
    else index.legacy
  defaultAccess :=
    if project.defaultRole ≠ some .inherit ∧ project.defaultRole ≠ some .none then
      index.defaultAccess ++ [project.id]
    else index.defaultAccess

def buildInvolvement (engine : Engine) (projects : List OwnedProjectEntry) : ProjectInvolvement :=
  projects.foldl (involve engine) ⟨fun _ => [], fun _ => [], fun _ => [], [], []⟩

def candidatesFor (engine : Engine) (projects : List OwnedProjectEntry) (subject : IdentitySubject)
    (includeDefaultAccess : Bool) : List ProjectId :=
  let index := buildInvolvement engine projects
  index.legacy ++ (if includeDefaultAccess then index.defaultAccess else []) ++
    index.userIds subject.id ++ index.emails (engine.foldCase subject.email) ++
    subject.groups.flatMap index.groups

end SnapshotCacheEntry

end MarimoHub.Source
