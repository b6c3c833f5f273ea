import MarimoHub.ObjectStore.Bucket

/-!
# Client programs

A call of a service is a tree of operations: it returns a value, raises an
error, or performs one operation and continues with its response. Everything
between two operations is local, so the operations are exactly the points at
which other clients may act. Loops are recursions over a bound fixed before they
start.

A program's own events, newest first, determine where it stands (`Runs`).
`Emits G Q p past` is the rule for reasoning about one client alone: after the
own events `past`, every operation `p` performs satisfies `G` with the own events
before it, and every result satisfies `Q`. Responses are arbitrary here; what
they tell about the store is a property of the whole trace.
-/

namespace MarimoHub.ObjectStore

inductive Prog (B : Schema) (ε α : Type) : Type where
  | ret (value : α)
  | raise (error : ε)
  | op (o : Op B) (k : Res o → Prog B ε α)

namespace Prog

variable {B : Schema} {ε α β : Type} {p q p' : Prog B ε α} {es past : Log B} {a : α}
  {f : α → Prog B ε β} {P : α → Log B → Prop} {h : ε → Prog B ε α}
  {G : Rule B} {Q R : Post B ε α} {e : ε} {o : Op B} {k : Res o → Prog B ε α}

protected def bind : Prog B ε α → (α → Prog B ε β) → Prog B ε β
  | .ret a, f => f a
  | .raise e, _ => .raise e
  | .op o k, f => .op o fun r => (k r).bind f

/-- `try p catch h`: the handler sees every error of `p` and nothing else. -/
protected def tryCatch : Prog B ε α → (ε → Prog B ε α) → Prog B ε α
  | .ret a, _ => .ret a
  | .raise e, h => h e
  | .op o k, h => .op o fun r => (k r).tryCatch h

/-- One operation, returning its response. -/
def perform (o : Op B) : Prog B ε (Res o) := .op o .ret

instance : Monad (Prog B ε) where
  pure := .ret
  bind := Prog.bind

@[simp] theorem pure_eq_ret : (pure a : Prog B ε α) = .ret a := rfl

@[simp] theorem ret_bind : (Prog.ret a >>= f) = f a := rfl

@[simp] theorem raise_bind : ((Prog.raise e : Prog B ε α) >>= f) = .raise e := rfl

@[simp] theorem op_bind : (Prog.op o k >>= f) = .op o fun r => k r >>= f := rfl

/-! ## Where a program stands -/

/-- `Runs p es p'`: having performed the events `es`, `p` continues as `p'`. -/
inductive Runs (p : Prog B ε α) : Log B → Prog B ε α → Prop where
  | start : Runs p [] p
  | op (es : Log B) (o : Op B) (k : Res o → Prog B ε α) (r : Res o) :
      Runs p es (.op o k) → Runs p (⟨o, r⟩ :: es) (k r)

/-- The events determine the position. -/
theorem Runs.unique (left : Runs p es q) (right : Runs p es r) : q = r := by
  induction left generalizing r with
  | start =>
    cases right
    rfl
  | op es o k res _ ih =>
    cases right with
    | op _ _ k' _ earlier => cases ih earlier; rfl

/-- What a program can return, over all responses. -/
def Returns (p : Prog B ε α) (a : α) : Prop := ∃ es, Runs p es (.ret a)

theorem Runs.cons_inv (rest : Runs (k r) es q) : Runs (.op o k) (es ++ [⟨o, r⟩]) q := by
  induction rest with
  | start => exact .op [] o k r .start
  | op es o' k' r' _ ih => exact .op _ _ _ _ ih

/-- A run that has ended does not go on. -/
theorem Runs.ended (first : Runs p es (.ret a))
    (second : Runs p later (.ret a')) (inside : es <:+ later) : es = later := by
  have stops {new : Log B} {q : Prog B ε α} (going : Runs p (new ++ es) q) : new = [] := by
    induction new generalizing q with
    | nil => rfl
    | cons ev rest ih =>
      cases going with
      | op _ o k r earlier =>
        cases ih earlier
        cases earlier.unique first
  obtain ⟨new, rfl⟩ := inside
  rw [stops second, List.nil_append]

/-- The result of a program that has returned. -/
def value? : Prog B ε α → Option α
  | .ret a => some a
  | _ => none

theorem value?_eq_some : p.value? = some a ↔ p = .ret a := by
  cases p <;> simp [value?]

/-- Every operation the program can perform satisfies `p`. -/
def OpsAll (p : Op B → Prop) : Prog B ε α → Prop
  | .ret _ => True
  | .raise _ => True
  | .op o k => p o ∧ ∀ r, (k r).OpsAll p

theorem OpsAll.bind (first : p.OpsAll good) (rest : ∀ a, (f a).OpsAll good) :
    (p >>= f).OpsAll good := by
  induction p with
  | ret a => exact rest a
  | raise e => trivial
  | op o k ih => exact ⟨first.1, fun r => ih r (first.2 r)⟩

/-! ## One client alone -/

/-- Every operation performed satisfies `G` and every result satisfies `Q`. -/
def Emits (G : Rule B) (Q : Post B ε α) : Prog B ε α → Log B → Prop
  | .ret a, past => Q (.ok a) past
  | .raise e, past => Q (.error e) past
  | .op o k, past => G past o ∧ ∀ r, Emits G Q (k r) (⟨o, r⟩ :: past)

@[simp] theorem emits_ret : Emits G Q (.ret a) past ↔ Q (.ok a) past := Iff.rfl

@[simp] theorem emits_pure : Emits G Q (pure a) past ↔ Q (.ok a) past := Iff.rfl

@[simp] theorem emits_raise : Emits G Q (.raise e) past ↔ Q (.error e) past := Iff.rfl

@[simp] theorem emits_op :
    Emits G Q (.op o k) past ↔ G past o ∧ ∀ r, Emits G Q (k r) (⟨o, r⟩ :: past) := Iff.rfl

/-- What the rest of a program has to establish after a result. -/
def andThen (G : Rule B) (f : α → Prog B ε β)
    (Q : Post B ε β) : Post B ε α
  | .ok a, past => Emits G Q (f a) past
  | .error e, past => Q (.error e) past

/-- What a handler has to establish after a result. -/
def orElse (G : Rule B) (h : ε → Prog B ε α)
    (Q : Post B ε α) : Post B ε α
  | .ok a, past => Q (.ok a) past
  | .error e, past => Emits G Q (h e) past

@[simp] theorem andThen_ok {P : Post B ε β} :
    andThen G f P (.ok a) past ↔ Emits G P (f a) past := Iff.rfl

@[simp] theorem andThen_error (f : α → Prog B ε β) (P : Post B ε β) (e : ε)
    (past : Log B) : andThen G f P (.error e) past ↔ P (.error e) past := Iff.rfl

@[simp] theorem orElse_ok : orElse G h Q (.ok a) past ↔ Q (.ok a) past := Iff.rfl

@[simp] theorem orElse_error : orElse G h Q (.error e) past ↔ Emits G Q (h e) past := Iff.rfl

@[simp] theorem emits_bind (p : Prog B ε α) (f : α → Prog B ε β)
    (P : Post B ε β) (past : Log B) :
    Emits G P (p >>= f) past ↔ Emits G (andThen G f P) p past := by
  induction p generalizing past with
  | ret a => rfl
  | raise e => rfl
  | op o k ih => simp only [op_bind, emits_op, ih]

@[simp] theorem emits_tryCatch : Emits G Q (p.tryCatch h) past ↔ Emits G (orElse G h Q) p past := by
  induction p generalizing past with
  | ret a => rfl
  | raise e => rfl
  | op o k ih => simp only [Prog.tryCatch, emits_op, ih]

theorem emits_ite {q : Prop} [Decidable q] :
    Emits G Q (if q then p else p') past ↔ (q → Emits G Q p past) ∧ (¬ q → Emits G Q p' past) := by
  split <;> simp_all

theorem Emits.mono (emits : Emits G Q p past) (imp : ∀ out es, Q out es → R out es) :
    Emits G R p past := by
  induction p generalizing past with
  | ret a => exact imp _ _ emits
  | raise e => exact imp _ _ emits
  | op o k ih => exact ⟨emits.1, fun r => ih r (emits.2 r)⟩

/-- The program a result stands for. -/
def done : Except ε α → Prog B ε α
  | .ok a => .ret a
  | .error e => .raise e

/-- The events performed are those of a run to the result. -/
theorem Emits.traced (emits : Emits G Q p past) :
    Emits G (fun out es => Q out es ∧ ∃ new, es = new ++ past ∧ Runs p new (done out)) p past := by
  induction p generalizing past with
  | ret a => exact ⟨emits, [], rfl, .start⟩
  | raise e => exact ⟨emits, [], rfl, .start⟩
  | op o k ih =>
    refine ⟨emits.1, fun r => (ih r (emits.2 r)).mono ?_⟩
    rintro out es ⟨result, new, rfl, runs⟩
    exact ⟨result, new ++ [⟨o, r⟩], by simp, runs.cons_inv⟩

theorem Emits.grown (emits : Emits G Q p past) :
    Emits G (fun out es => Q out es ∧ past <:+ es) p past := by
  refine emits.traced.mono ?_
  rintro out es ⟨result, new, rfl, _⟩
  exact ⟨result, List.suffix_append new past⟩

/-- Going on after a step. Most postconditions say nothing about errors. -/
theorem emits_seq {S : Post B ε β} (first : Emits G Q p past)
    (next : ∀ a es, past <:+ es → Q (.ok a) es → Emits G S (f a) es)
    (failed : ∀ err es, past <:+ es → Q (.error err) es → S (.error err) es := by
      exact fun _ _ _ _ => trivial) :
    Emits G S (p >>= f) past := by
  rw [emits_bind]
  refine first.grown.mono ?_
  rintro out es ⟨result, grown⟩
  cases out with
  | ok a => exact next a es grown result
  | error err => exact failed err es grown result

theorem OpsAll.emits (all : p.OpsAll good) (fine : ∀ es o, good o → G es o) (past : Log B) :
    Emits G (fun _ _ => True) p past := by
  induction p generalizing past with
  | ret a => trivial
  | raise e => trivial
  | op o k ih => exact ⟨fine past o all.1, fun r => ih r (all.2 r) _⟩

theorem OpsAll.runs (all : p.OpsAll good) (run : Runs p es q) :
    q.OpsAll good ∧ ∀ e ∈ es, good e.op := by
  induction run with
  | start => exact ⟨all, by simp⟩
  | op es o k r _ ih =>
    refine ⟨ih.1.2 r, ?_⟩
    intro e member
    rcases List.mem_cons.mp member with rfl | inside
    · exact ih.1.1
    · exact ih.2 e inside

theorem Emits.weaken (emits : Emits G Q p past)
    (imp : ∀ es o, past <:+ es → G es o → H es o) : Emits H Q p past := by
  induction p generalizing past with
  | ret a => exact emits
  | raise e => exact emits
  | op o k ih =>
    refine ⟨imp _ _ List.suffix_rfl emits.1, fun r => ih r (emits.2 r) ?_⟩
    intro es o' grown
    exact imp es o' grown.past

/-- A client that only performs `good` operations adds only such events. -/
theorem Emits.adds (emits : Emits (fun _ => good) Q p past) : Emits (fun _ => good)
      (fun out es => Q out es ∧ ∃ new, es = new ++ past ∧ ∀ e ∈ new, good e.op) p past := by
  induction p generalizing past with
  | ret a => exact ⟨emits, [], rfl, by simp⟩
  | raise e => exact ⟨emits, [], rfl, by simp⟩
  | op o k ih =>
    refine ⟨emits.1, fun r => (ih r (emits.2 r)).mono ?_⟩
    rintro out es ⟨result, new, rfl, fine⟩
    refine ⟨result, new ++ [⟨o, r⟩], by simp, ?_⟩
    intro e member
    rcases List.mem_append.mp member with inside | last
    · exact fine e inside
    · rw [List.mem_singleton.mp last]
      exact emits.1

/-- A condition on what is returned; errors are free. -/
def yields (P : α → Log B → Prop) : Post B ε α
  | .ok a, es => P a es
  | .error _, _ => True

theorem emits_then (first : Emits G (yields P) p past)
    (next : ∀ a es, past <:+ es → P a es → Emits G (yields S) (f a) es) :
    Emits G (yields S) (p >>= f) past :=
  emits_seq first next

theorem emits_caught (first : Emits G (yields P) p past)
    (handled : ∀ err es, past <:+ es → Emits G (yields P) (h err) es) :
    Emits G (yields P) (p.tryCatch h) past := by
  rw [emits_tryCatch]
  refine first.grown.mono ?_
  rintro out es ⟨result, grown⟩
  cases out with
  | ok a => exact result
  | error err => exact handled err es grown

theorem Emits.forget (emits : Emits G Q p past) : Emits G (fun _ _ => True) p past :=
  emits.mono fun _ _ _ => trivial

theorem Emits.returns {S : α → Log B → Prop} (emits : Emits G (yields P) p past)
    (imp : ∀ a es, past <:+ es → P a es → S a es) : Emits G (yields S) p past := by
  refine emits.grown.mono ?_
  rintro out es ⟨result, grown⟩
  cases out with
  | ok a => exact imp a es grown result
  | error err => trivial

/-- Whatever the client did before, every operation it performs satisfies `G`. -/
def Keeps (G : Rule B) (p : Prog B ε α) : Prop :=
  ∀ past, Emits G (fun _ _ => True) p past

theorem keeps_ret : Keeps G (.ret a : Prog B ε α) := fun _ => trivial

theorem keeps_raise : Keeps G (.raise e : Prog B ε α) := fun _ => trivial

theorem Keeps.bind (first : Keeps G p) (rest : ∀ a, Keeps G (f a)) :
    Keeps G (p >>= f) := fun past =>
  emits_seq (first past) (fun a es _ _ => rest a es)

theorem Keeps.map {f : α → β} (keeps : Keeps G p) : Keeps G (p >>= fun a => .ret (f a)) :=
  keeps.bind fun _ => keeps_ret

theorem Keeps.seq (first : Keeps G p) (next : ∀ a es, past <:+ es → Emits G (yields S) (f a) es) :
    Emits G (yields S) (p >>= f) past :=
  emits_seq (first past) (fun a es grown _ => next a es grown)

theorem Keeps.yields (keeps : Keeps G p) : Emits G (Prog.yields fun _ _ => True) p past := by
  refine (keeps past).mono ?_
  rintro (_ | _) _ _ <;> trivial

theorem keeps_of_emits {R : Log B → Post B ε α}
    (emits : ∀ past, Emits G (R past) p past) : Keeps G p := fun past =>
  (emits past).forget

theorem Keeps.tryCatch (first : Keeps G p) (handled : ∀ err, Keeps G (h err)) :
    Keeps G (p.tryCatch h) := by
  intro past
  rw [emits_tryCatch]
  refine (first past).mono ?_
  intro out es _
  cases out with
  | ok a => trivial
  | error err => exact handled err es

theorem Keeps.ite {q : Prop} [Decidable q] (yes : Keeps G p) (no : Keeps G p') :
    Keeps G (if q then p else p') := by
  split
  · exact yes
  · exact no

/-! ## Two activities of one client -/

/-- The second activity runs beside the operation `o` and what follows it (`after`): before
every operation, `turn` tells which of the two goes on. -/
def weave (turn : Op B) (left : Res turn → Bool) (o : Op B) (k : Res o → Prog B ε Unit)
    (after : Res o → Prog B ε Unit → Prog B ε Unit) : Prog B ε Unit → Prog B ε Unit
  | .ret _ => .op o k
  | .raise _ => .op o k
  | .op o' k' => .op turn fun choice =>
    if left choice then .op o fun r => after r (.op o' k')
    else .op o' fun r => weave turn left o k after (k' r)

/-- Two activities, interleaved at their operations. An error ends only its own activity. -/
def interleave (turn : Op B) (left : Res turn → Bool) :
    Prog B ε Unit → Prog B ε Unit → Prog B ε Unit
  | .ret _ => id
  | .raise _ => id
  | .op o k => weave turn left o k fun r => interleave turn left (k r)

/-- What two activities do alone they do side by side, where what an activity may do does not
depend on the other's events. -/
theorem emits_interleave {p q : Prog B ε Unit}
    (robust : ∀ es es' o, es.Sublist es' → G es o → G es' o)
    (asks : ∀ es, G es turn) (first : Emits G (fun _ _ => True) p es)
    (second : Emits G (fun _ _ => True) q es') (here : es.Sublist past) (there : es'.Sublist past) :
    Emits G (fun _ _ => True) (interleave turn left p q) past := by
  have quiet {p : Prog B ε Unit} {es past : Log B} (alone : Emits G (fun _ _ => True) p es)
      (inside : es.Sublist past) : Emits G (fun _ _ => True) p past := by
    induction p generalizing es past with
    | ret a => trivial
    | raise e => trivial
    | op o k ih =>
      exact ⟨robust _ _ _ inside alone.1, fun r => ih r (alone.2 r) (inside.cons_cons _)⟩
  induction p generalizing q es es' past with
  | ret a => exact quiet second there
  | raise e => exact quiet second there
  | op o k ih =>
    -- the inner induction follows the second activity while the first one waits
    induction q generalizing es' past with
    | ret a => exact quiet first here
    | raise e => exact quiet first here
    | op o' k' ih' =>
      refine ⟨asks past, ?_⟩
      intro choice
      have kept : es.Sublist (⟨turn, choice⟩ :: past) := here.cons _
      have kept' : es'.Sublist (⟨turn, choice⟩ :: past) := there.cons _
      dsimp only
      split
      · exact ⟨robust _ _ _ kept first.1, fun r =>
          ih r (first.2 r) second (kept.cons_cons _) (kept'.cons _)⟩
      · exact ⟨robust _ _ _ kept' second.1, fun r =>
          ih' r (second.2 r) (kept.cons _) (kept'.cons_cons _)⟩

/-- The rule holds at every position a run passes through. -/
theorem Emits.runs (emits : Emits G Q p []) (run : Runs p es q) :
    Emits G Q q es ∧ ∀ e past, e :: past <:+ es → G past e.op := by
  induction run with
  | start => exact ⟨emits, by simp⟩
  | op es o k r _ ih =>
    refine ⟨ih.1.2 r, ?_⟩
    intro e past earlier
    rcases List.suffix_cons_iff.mp earlier with same | inside
    · cases same
      exact ih.1.1
    · exact ih.2 e past inside

end Prog

end MarimoHub.ObjectStore
