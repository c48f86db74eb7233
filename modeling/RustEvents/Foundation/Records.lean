/- module: RustEvents/Foundation/Records
   layer: library
   digest: What an observer writes down of a run: invariants that speak of the recorded past, and forward simulation by the record. -/

import RustEvents.Foundation.LabelledRuns

set_option autoImplicit false
set_option relaxedAutoImplicit false

namespace RustEvents.Foundation.LabelledRuns.Machine

variable {σ α ν : Type*} (M : Machine σ α)

/-- The notes of an observer who sees every step of a run, oldest first. -/
def record (note : σ → α → σ → List ν) : σ → List α → List ν
  | _, [] => []
  | s, a :: as =>
      match M.step s a with
      | none => []
      | some t => note s a t ++ record note t as

variable {M} {note : σ → α → σ → List ν}

theorem record_cons {s t : σ} {a : α} {as : List α} (step : M.step s a = some t) :
    M.record note s (a :: as) = note s a t ++ M.record note t as := by
  change (match M.step s a with
    | none => []
    | some t => note s a t ++ M.record note t as) = _
  rw [step]

theorem record_append {s t : σ} {as bs : List α} (front : M.run s as = some t) :
    M.record note s (as ++ bs) = M.record note s as ++ M.record note t bs := by
  induction as generalizing s with
  | nil =>
    have ended : s = t := Option.some.inj front
    rw [ended]
    rfl
  | cons a as ih =>
    obtain ⟨u, step, rest⟩ := run_cons.mp front
    rw [List.cons_append, record_cons step, record_cons step, ih rest, List.append_assoc]

theorem map_record {μ : Type*} (f : ν → μ) (s : σ) (as : List α) :
    (M.record note s as).map f = M.record (fun s a t => (note s a t).map f) s as := by
  induction as generalizing s with
  | nil => rfl
  | cons a as ih =>
    cases step : M.step s a with
    | none => simp only [record, step, List.map_nil]
    | some t => rw [record_cons step, record_cons step, List.map_append, ih]

theorem record_labels {note : α → List ν} {s t : σ} {as : List α} (run : M.run s as = some t) :
    M.record (fun _ a _ => note a) s as = as.flatMap note := by
  induction as generalizing s with
  | nil => rfl
  | cons a as ih =>
    obtain ⟨u, step, rest⟩ := run_cons.mp run
    rw [record_cons step, ih rest, List.flatMap_cons]

theorem mem_record {s : σ} {as : List α} {n : ν} (mem : n ∈ M.record note s as) :
    ∃ front a back u v, as = front ++ a :: back ∧ M.run s front = some u ∧
      M.step u a = some v ∧ n ∈ note u a v := by
  induction as generalizing s with
  | nil => cases mem
  | cons a as ih =>
    cases step : M.step s a with
    | none =>
      unfold record at mem
      rw [step] at mem
      cases mem
    | some t =>
      rw [record_cons step] at mem
      rcases List.mem_append.mp mem with here | later
      · exact ⟨[], a, as, s, t, rfl, rfl, step, here⟩
      · obtain ⟨front, b, back, u, v, split, reached, taken, noted⟩ := ih later
        refine ⟨a :: front, b, back, u, v, ?_, ?_, taken, noted⟩
        · rw [split, List.cons_append]
        · exact run_cons.mpr ⟨t, step, reached⟩

/-- What every step under an admitted label keeps, once its notes are added to the past, holds
of the whole record of a run under such labels. -/
theorem record_invariant_all {I : List ν → σ → Prop} (admitted : α → Bool)
    (keeps : ∀ past s a t, I past s → admitted a = true → M.step s a = some t →
      I (past ++ note s a t) t)
    {s t : σ} {as : List α} (start : I [] s) (all : as.all admitted = true)
    (run : M.run s as = some t) : I (M.record note s as) t := by
  have onward : ∀ (as : List α) (past : List ν) (s : σ), I past s → as.all admitted = true →
      M.run s as = some t → I (past ++ M.record note s as) t := by
    intro as
    induction as with
    | nil =>
      intro past s here _ run
      have ended : s = t := Option.some.inj run
      subst ended
      have unchanged : past ++ M.record note s [] = past := List.append_nil past
      rw [unchanged]
      exact here
    | cons a as ih =>
      intro past s here all run
      rw [List.all_cons, Bool.and_eq_true] at all
      obtain ⟨u, step, rest⟩ := run_cons.mp run
      have later := ih (past ++ note s a u) u (keeps past s a u here all.1 step) all.2 rest
      rw [record_cons step, ← List.append_assoc]
      exact later
  have whole := onward as [] s start all run
  rwa [List.nil_append] at whole

theorem record_invariant {I : List ν → σ → Prop}
    (keeps : ∀ past s a t, I past s → M.step s a = some t → I (past ++ note s a t) t)
    {s t : σ} {as : List α} (start : I [] s) (run : M.run s as = some t) :
    I (M.record note s as) t :=
  record_invariant_all (fun _ => true) (fun past s a t here _ step => keeps past s a t here step)
    start (List.all_eq_true.mpr fun _ _ => rfl) run

/-- The rule for invariants that speak of the whole run so far. -/
theorem run_history {I : List α → σ → Prop} {s₀ : σ} (start : I [] s₀)
    (keeps : ∀ past s a t, M.run s₀ past = some s → I past s → M.step s a = some t →
      I (past ++ [a]) t)
    {s : σ} {as : List α} (run : M.run s₀ as = some s) : I as s := by
  have tracked : M.run s₀ (M.record (fun _ a _ => [a]) s₀ as) = some s ∧
      I (M.record (fun _ a _ => [a]) s₀ as) s := by
    refine record_invariant (I := fun past s => M.run s₀ past = some s ∧ I past s) ?_ ⟨rfl, start⟩
      run
    rintro past s a t ⟨reached, here⟩ step
    refine ⟨?_, keeps past s a t reached here step⟩
    rw [run_append, reached]
    exact run_cons.mpr ⟨t, step, rfl⟩
  rw [record_labels run, List.flatMap_singleton'] at tracked
  exact tracked.2

/-- Forward simulation: if the notes of every step are a run of another machine that keeps
the two related, then the record of a run is a run of that machine. -/
theorem record_simulates {τ : Type*} {N : Machine τ ν} {R : σ → τ → Prop}
    (follows : ∀ s a t x, R s x → M.step s a = some t →
      ∃ y, N.run x (note s a t) = some y ∧ R t y)
    {s t : σ} {x : τ} {as : List α} (start : R s x) (run : M.run s as = some t) :
    ∃ y, N.run x (M.record note s as) = some y ∧ R t y := by
  refine record_invariant (I := fun past s => ∃ y, N.run x past = some y ∧ R s y) ?_
    ⟨x, rfl, start⟩ run
  rintro past s a t ⟨y, reached, related⟩ step
  obtain ⟨z, onward, related'⟩ := follows s a t y related step
  refine ⟨z, ?_, related'⟩
  rw [run_append, reached]
  exact onward

end RustEvents.Foundation.LabelledRuns.Machine
