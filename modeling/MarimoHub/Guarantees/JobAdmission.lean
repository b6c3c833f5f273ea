import MarimoHub.Source.JobScheduler

/-!
# Admission under the caps

The scheduler walks over the queued runs in order and counts what it admits on top of what is
active. `admit_step` says what one run adds to the runs admitted ahead of it; the caps are an
invariant of the same walk.
-/

namespace MarimoHub.Guarantees

open Source

variable {config : JobSchedulerConfig} {running ordered : List JobRun} {run : JobRun}

/-- How many of the runs belong to the project. -/
def runsOf (project : ProjectId) (runs : List JobRun) : Nat :=
  runs.countP fun other => other.ref.project = project

/-- The global cap or the cap of the run's project is used up. -/
def UsedUp (config : JobSchedulerConfig) (runs : List JobRun) (run : JobRun) : Prop :=
  config.maxConcurrentRuns ≤ runs.length ∨
    config.maxConcurrentRunsPerProject ≤ runsOf run.ref.project runs

theorem admitOrdered_sublist : (admitOrdered config ordered running).Sublist ordered := by
  induction ordered generalizing running with
  | nil => simp [admitOrdered]
  | cons first rest ih =>
    unfold admitOrdered
    split
    · exact List.nil_sublist _
    · split
      · exact ih.cons _
      · exact ih.cons_cons _

theorem usedUp_shift :
    UsedUp config (first :: running ++ taken) run ↔ UsedUp config
      (running ++ first :: taken) run := by
  simp only [UsedUp, runsOf, List.length_cons, List.length_append,
    List.countP_cons, List.countP_append]
  omega

theorem admit_step (ahead later : List JobRun) :
    ∃ taken rest, taken.Sublist ahead ∧ rest.Sublist later ∧
      (admitOrdered config (ahead ++ run :: later) running = taken ++ rest ∧
          UsedUp config (running ++ taken) run ∨
        admitOrdered config (ahead ++ run :: later) running = taken ++ run :: rest ∧
          ¬ UsedUp config (running ++ taken) run) := by
  induction ahead generalizing running with
  | nil =>
    simp only [List.nil_append, admitOrdered]
    split
    · next full => exact ⟨[], [], .slnil, List.nil_sublist _, .inl ⟨rfl, by simp [UsedUp, full]⟩⟩
    · split
      · next full =>
        exact ⟨[], _, .slnil, admitOrdered_sublist, .inl ⟨rfl, by simp [UsedUp, runsOf, full]⟩⟩
      · next room free =>
        exact ⟨[], _, .slnil, admitOrdered_sublist,
          .inr ⟨rfl, by simp [UsedUp, runsOf, room, free]⟩⟩
  | cons first rest ih =>
    simp only [List.cons_append, admitOrdered]
    split
    · next full =>
      exact ⟨[], [], List.nil_sublist _, List.nil_sublist _, .inl ⟨rfl, by simp [UsedUp, full]⟩⟩
    · split
      · obtain ⟨taken, more, inside, listed, decided⟩ := ih
        exact ⟨taken, more, inside.cons _, listed, decided⟩
      · obtain ⟨taken, more, inside, listed, decided⟩ := ih
        refine ⟨first :: taken, more, inside.cons_cons _, listed, ?_⟩
        rw [← usedUp_shift]
        exact decided.imp (.imp_left (congrArg (first :: ·))) (.imp_left (congrArg (first :: ·)))

theorem admit_within (project : ProjectId) :
    (running ++ admitOrdered config ordered running).length ≤
        max config.maxConcurrentRuns running.length ∧
      runsOf project (running ++ admitOrdered config ordered running) ≤
        max config.maxConcurrentRunsPerProject (runsOf project running) := by
  induction ordered generalizing running with
  | nil => simp [admitOrdered]
  | cons first rest ih =>
    unfold admitOrdered
    split
    · simp
    · split
      · exact ih
      · next room free =>
        have more := @ih (first :: running)
        simp only [runsOf, List.countP_cons, List.countP_append] at more room free ⊢
        split at more <;> grind

instance : IsTrans JobRun startsBefore := ⟨fun a b c => by unfold startsBefore; grind⟩

instance : Std.Total startsBefore := ⟨fun a b => by unfold startsBefore; grind⟩

/-- The admission of a tick keeps both caps, considers the queued runs oldest first and refuses a
run only for a cap that the active runs and the runs admitted ahead of it use up. -/
theorem admission_work_conserving (config : JobSchedulerConfig) (queued running : List JobRun) :
    let ordered := queued.insertionSort startsBefore
    let admitted := admitRuns config queued running
    ordered.Perm queued ∧ ordered.Pairwise startsBefore ∧
    (running ++ admitted).length ≤ max config.maxConcurrentRuns running.length ∧
    (∀ project, runsOf project (running ++ admitted) ≤
      max config.maxConcurrentRunsPerProject (runsOf project running)) ∧
    ∀ ahead run later, ordered = ahead ++ run :: later →
      ∃ taken rest, taken.Sublist ahead ∧ rest.Sublist later ∧
        (admitted = taken ++ rest ∧ UsedUp config (running ++ taken) run ∨
          admitted = taken ++ run :: rest ∧ ¬ UsedUp config (running ++ taken) run) := by
  refine ⟨List.perm_insertionSort _ _, List.pairwise_insertionSort _ _, (admit_within 0).1,
    fun project => (admit_within project).2, ?_⟩
  intro ahead run later split
  rw [admitRuns, split]
  exact admit_step ahead later

end MarimoHub.Guarantees
