import MarimoHub.Source.Cas

/-!
# Listings and batch deletes

`services/catalog/storage.ts` and `bucket.delete(keys)`, over any schema. A paginated
listing is one `list` request for each page; where the pages are cut is part of the
call. `bucket.delete(keys)` removes the keys one after another; when some removal fails
the others may still have happened, and the call fails.
-/

namespace MarimoHub.Source

open ObjectStore

variable {B : Schema} {pages : List (B.Key → Bool)} {keys : List B.Key} {es : Log B}

/-- The pages a listing of the keys under `p` is cut into. -/
structure Pages (B : Schema) (p : B.Key → Bool) where
  pages : List (B.Key → Bool)
  inside : ∀ page ∈ pages, ∀ k, page k = true → p k = true
  covers : ∀ k, p k = true → ∃ page ∈ pages, page k = true

/-- Everything fits on one page. -/
def Pages.single (p : B.Key → Bool) : Pages B p where
  pages := [p]
  inside := by simp
  covers := by simp

/-- Pages that share no key. -/
structure DistinctPages (B : Schema) (p : B.Key → Bool) extends Pages B p where
  disjoint : pages.Pairwise fun page other => ∀ k, page k = true → other k = false

def DistinctPages.single (p : B.Key → Bool) : DistinctPages B p where
  toPages := .single p
  disjoint := List.pairwise_singleton _ _

def listPages : List (B.Key → Bool) → Hub B (List B.Key)
  | [] => pure []
  | page :: rest => do
    let here ← bucketList page
    let others ← listPages rest
    pure ((here.map Listed.key).filter page ++ others)

def listAllKeys {p : B.Key → Bool} (paging : Pages B p) : Hub B (List B.Key) :=
  listPages paging.pages

/-- `bucket.delete(keys)`. -/
def bucketDeleteAll : List B.Key → Hub B Unit
  | [] => pure ()
  | key :: rest => do
    match ← Prog.perform (.delete key) with
    | .ok => bucketDeleteAll rest
    | .fail => do
      bucketDeleteAll rest
      .raise .storage

/-! ## What they do, alone -/

section Rules

/-- One page was listed among `es`, and `keys` has what it showed. -/
def PageListed (page : B.Key → Bool) (keys : List B.Key) (es : Log B) : Prop :=
  ∃ entries, ⟨.list page, .entries entries⟩ ∈ es ∧
    ∀ entry ∈ entries, page entry.key = true → entry.key ∈ keys

/-- A listing that succeeded listed every page and has only keys of the pages. -/
structure AllListed (pages : List (B.Key → Bool)) (keys : List B.Key) (es : Log B) : Prop where
  every : ∀ page ∈ pages, PageListed page keys es
  only : ∀ k ∈ keys, ∃ page ∈ pages, page k = true

theorem emits_listPages (pages : List (B.Key → Bool)) (past : Log B)
    (lists : ∀ page ∈ pages, ∀ es, past <:+ es → G es (.list page)) :
    Prog.Emits G (fun out es => ∃ new, es = new ++ past ∧
      ∀ keys, out = .ok keys → AllListed pages keys new) (listPages pages) past := by
  induction pages generalizing past with
  | nil =>
    refine ⟨[], rfl, ?_⟩
    rintro keys ⟨⟩
    exact ⟨by simp, by simp⟩
  | cons page rest ih =>
    rw [listPages, Prog.emits_bind, emits_bucketList]
    refine ⟨lists page (.head _) past List.suffix_rfl, ?_, ⟨[_], rfl, by rintro _ ⟨⟩⟩⟩
    intro entries
    rw [Prog.andThen_ok, Prog.emits_bind]
    have later := ih (⟨.list page, .entries entries⟩ :: past) fun p member es grown =>
      lists p (.tail _ member) es grown.past
    refine later.mono ?_
    rintro out es ⟨new, rfl, listed⟩
    cases out with
    | error err =>
      exact ⟨new ++ [⟨.list page, .entries entries⟩], by simp, by rintro _ ⟨⟩⟩
    | ok others =>
      refine ⟨new ++ [⟨.list page, .entries entries⟩], by simp, ?_⟩
      rintro keys ⟨⟩
      obtain ⟨every, only⟩ := listed others rfl
      constructor
      · intro p member
        rcases List.mem_cons.mp member with rfl | inside
        · refine ⟨entries, by simp, ?_⟩
          intro entry here shown
          refine List.mem_append_left _ (List.mem_filter.mpr ⟨?_, shown⟩)
          exact List.mem_map_of_mem here
        · obtain ⟨shown, event, has⟩ := every p inside
          exact ⟨shown, List.mem_append_left _ event, fun entry here under =>
            List.mem_append_right _ (has entry here under)⟩
      · intro k member
        rcases List.mem_append.mp member with here | there
        · exact ⟨page, .head _, (List.mem_filter.mp here).2⟩
        · obtain ⟨p, inside, shown⟩ := only k there
          exact ⟨p, .tail _ inside, shown⟩

/-- The keys of a listing: page by page, what each page showed. -/
def PagesShown : List (B.Key → Bool) → List B.Key → Log B → Prop
  | [], keys, _ => keys = []
  | page :: rest, keys, es => ∃ entries others, ⟨.list page, .entries entries⟩ ∈ es ∧
      keys = (entries.map Listed.key).filter page ++ others ∧ PagesShown rest others es

section

variable (shown : PagesShown pages keys es)
include shown

theorem PagesShown.grow
    (inside : es ⊆ later) : PagesShown pages keys later := by
  induction pages generalizing keys with
  | nil => exact shown
  | cons page rest ih =>
    obtain ⟨entries, others, listed, split, below⟩ := shown
    exact ⟨entries, others, inside listed, split, ih below⟩

theorem PagesShown.mem (member : k ∈ keys) :
    ∃ page ∈ pages, page k = true := by
  induction pages generalizing keys with
  | nil =>
    rw [show keys = [] from shown] at member
    cases member
  | cons page rest ih =>
    obtain ⟨entries, others, _, rfl, below⟩ := shown
    rcases List.mem_append.mp member with here | there
    · exact ⟨page, .head _, (List.mem_filter.mp here).2⟩
    · obtain ⟨other, inside, listed⟩ := ih below there
      exact ⟨other, .tail _ inside, listed⟩

/-- Pages that share no key and show each key once show each key once. -/
theorem PagesShown.nodup
    (disjoint : pages.Pairwise fun page other => ∀ k, page k = true → other k = false)
    (once : ∀ page entries, ⟨.list page, .entries entries⟩ ∈ es → (entries.map Listed.key).Nodup) :
    keys.Nodup := by
  induction pages generalizing keys with
  | nil =>
    rw [show keys = [] from shown]
    exact List.nodup_nil
  | cons page rest ih =>
    obtain ⟨entries, others, listed, rfl, below⟩ := shown
    obtain ⟨apart, disjoint⟩ := List.pairwise_cons.mp disjoint
    refine List.nodup_append.mpr ⟨(once page entries listed).filter _, ih below disjoint, ?_⟩
    rintro k here k' there rfl
    obtain ⟨other, inside, also⟩ := below.mem there
    rw [apart other inside k (List.mem_filter.mp here).2] at also
    cases also

/-- A stored key is on its page. -/
theorem PagesShown.page {page : B.Key → Bool}
    (member : page ∈ pages) : PageListed page keys es := by
  induction pages generalizing keys with
  | nil => cases member
  | cons first rest ih =>
    obtain ⟨entries, others, listed, rfl, below⟩ := shown
    rcases List.mem_cons.mp member with rfl | inside
    · refine ⟨entries, listed, fun entry here under => List.mem_append_left _ ?_⟩
      exact List.mem_filter.mpr ⟨List.mem_map_of_mem here, under⟩
    · obtain ⟨shown, event, has⟩ := ih below inside
      exact ⟨shown, event, fun entry here under => List.mem_append_right _ (has entry here under)⟩

end

theorem emits_shownPages (pages : List (B.Key → Bool)) (past : Log B)
    (lists : ∀ page es, G es (.list page)) :
    Prog.Emits G (fun out es => ∃ new, es = new ++ past ∧ match out with
      | .ok keys => PagesShown pages keys new
      | .error err => err = .storage) (listPages pages) past := by
  induction pages generalizing past with
  | nil => exact ⟨[], rfl, rfl⟩
  | cons page rest ih =>
    rw [listPages, Prog.emits_bind, emits_bucketList]
    refine ⟨lists page past, fun entries => ?_, ⟨[_], rfl, rfl⟩⟩
    rw [Prog.andThen_ok, Prog.emits_bind]
    refine (ih _).mono ?_
    rintro out es ⟨new, rfl, shown⟩
    refine (?_ : Prog.andThen G _ _ out _)
    cases out with
    | error err => exact ⟨new ++ [⟨.list page, .entries entries⟩], by simp, shown⟩
    | ok others =>
      refine ⟨new ++ [⟨.list page, .entries entries⟩], by simp, entries, others, by simp, rfl, ?_⟩
      exact shown.grow (List.subset_append_left _ _)

/-- A listing has only the keys asked for. -/
theorem emits_listAllKeys {paging : Pages B p} (lists : ∀ page es, G es (.list page)) :
    Prog.Emits G (Prog.yields fun keys _ => ∀ k ∈ keys, p k = true) (listAllKeys paging) past := by
  refine (emits_listPages paging.pages past fun page _ es _ => lists page es).mono ?_
  rintro out es ⟨new, rfl, listed⟩
  cases out with
  | error err => trivial
  | ok keys =>
    intro k member
    obtain ⟨page, inside, shown⟩ := (listed keys rfl).only k member
    exact paging.inside page inside k shown

theorem keeps_bucketDeleteAll (removes : ∀ key ∈ keys, ∀ es, G es (.delete key)) :
    Prog.Keeps G (bucketDeleteAll keys) := by
  induction keys with
  | nil => exact Prog.keeps_ret
  | cons key rest ih =>
    have others := ih fun k member => removes k (.tail _ member)
    refine fun past => ⟨removes key (.head _) past, fun r => ?_⟩
    cases r with
    | ok => exact others _
    | fail => exact others.bind (fun _ => Prog.keeps_raise) _

theorem emits_bucketDeleteAll (keys : List B.Key) (past : Log B)
    (deletes : ∀ key ∈ keys, ∀ es, past <:+ es → G es (.delete key)) :
    Prog.Emits G (fun _ _ => True) (bucketDeleteAll keys) past := by
  induction keys generalizing past with
  | nil => trivial
  | cons key rest ih =>
    have others (r : DeleteRes) := ih (⟨.delete key, r⟩ :: past) fun k member es grown =>
      deletes k (.tail _ member) es grown.past
    refine ⟨deletes key (.head _) past List.suffix_rfl, ?_⟩
    intro r
    cases r with
    | ok => exact others .ok
    | fail =>
      show Prog.Emits G _ (bucketDeleteAll rest >>= fun _ => (.raise .storage : Hub B Unit)) _
      rw [Prog.emits_bind]
      refine (others .fail).mono ?_
      intro out es _
      cases out <;> trivial

end Rules

end MarimoHub.Source
