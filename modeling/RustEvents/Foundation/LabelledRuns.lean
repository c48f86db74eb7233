/- module: RustEvents/Foundation/LabelledRuns
   layer: library
   digest: Partial labelled machines, their runs, guarded invariants and step counts. -/

import Mathlib.Data.List.Basic
import Mathlib.Data.Option.Basic

set_option autoImplicit false
set_option relaxedAutoImplicit false

namespace RustEvents.Foundation.LabelledRuns

/-- A machine refuses a label (`none`) in the states where it is not enabled. -/
structure Machine (σ α : Type*) where
  step : σ → α → Option σ

namespace Machine

variable {σ α : Type*} (M : Machine σ α)

/-- The state after a whole run, `none` as soon as one label is refused. -/
def run : σ → List α → Option σ
  | s, [] => some s
  | s, a :: as => (M.step s a).bind fun t => run t as

/-- Every step that a run takes, up to its first refused label, satisfies `P`. -/
def Along (P : σ → α → σ → Prop) : σ → List α → Prop
  | _, [] => True
  | s, a :: as => ∀ t, M.step s a = some t → P s a t ∧ Along P t as

/-- The same machine under an assumption on its surroundings: the labels that
the assumption rules out are refused. -/
def restrict (allowed : σ → α → Bool) : Machine σ α where
  step s a := if allowed s a then M.step s a else none

/-- How many steps of a run are of the counted kind. -/
def tally (counted : σ → σ → Bool) : σ → List α → ℕ
  | _, [] => 0
  | s, a :: as =>
      match M.step s a with
      | none => 0
      | some t => (if counted s t then 1 else 0) + tally counted t as

/-- An executable form of `Along` for conditions on the state before the step. -/
def check (allowed : σ → α → Bool) : σ → List α → Bool
  | _, [] => true
  | s, a :: as =>
      match M.step s a with
      | none => true
      | some t => allowed s a && check allowed t as

variable {M}

theorem along_of_check {allowed : σ → α → Bool} {s : σ} {as : List α}
    (checked : M.check allowed s as = true) : M.Along (fun s a _ => allowed s a = true) s as := by
  induction as generalizing s with
  | nil => trivial
  | cons a as ih =>
    intro t step
    simp only [check, step, Bool.and_eq_true] at checked
    exact ⟨checked.1, ih checked.2⟩

theorem run_cons {s u : σ} {a : α} {as : List α} :
    M.run s (a :: as) = some u ↔ ∃ t, M.step s a = some t ∧ M.run t as = some u := by
  simp only [run, Option.bind_eq_some_iff]

theorem run_append (s : σ) (as bs : List α) :
    M.run s (as ++ bs) = (M.run s as).bind fun t => M.run t bs := by
  induction as generalizing s with
  | nil => rfl
  | cons a as ih =>
    simp only [List.cons_append, run, Option.bind_assoc]
    congr 1
    funext t
    exact ih t

theorem restrict_step {allowed : σ → α → Bool} {s t : σ} {a : α} :
    (M.restrict allowed).step s a = some t ↔ allowed s a = true ∧ M.step s a = some t := by
  simp only [restrict]
  split <;> simp_all

theorem along_last {P : σ → α → σ → Prop} {s t u : σ} {as : List α} {a : α}
    (all : M.Along P s (as ++ [a])) (front : M.run s as = some t) (last : M.step t a = some u) :
    P t a u := by
  induction as generalizing s with
  | nil =>
    cases Option.some.inj front
    exact (all u last).1
  | cons b as ih =>
    obtain ⟨v, step, rest⟩ := run_cons.mp front
    exact ih (all v step).2 rest

/-- What every step preserves holds at the end of every run. -/
theorem run_invariant {I : σ → Prop} (keeps : ∀ s a t, I s → M.step s a = some t → I t)
    {s t : σ} {as : List α} (start : I s) (run : M.run s as = some t) : I t := by
  induction as generalizing s with
  | nil => exact Option.some.inj run ▸ start
  | cons a as ih =>
    obtain ⟨v, step, rest⟩ := run_cons.mp run
    exact ih (keeps s a v start step) rest

/-- The same rule for the runs all of whose steps meet a condition. -/
theorem run_invariant_along {I : σ → Prop} {G : σ → α → σ → Prop}
    (keeps : ∀ s a t, I s → G s a t → M.step s a = some t → I t)
    {s t : σ} {as : List α} (start : I s) (meets : M.Along G s as)
    (run : M.run s as = some t) : I t := by
  induction as generalizing s with
  | nil => exact Option.some.inj run ▸ start
  | cons a as ih =>
    obtain ⟨v, step, rest⟩ := run_cons.mp run
    obtain ⟨met, later⟩ := meets v step
    exact ih (keeps s a v start met step) later rest

theorem along_of_invariant {I : σ → Prop} {P : σ → α → σ → Prop}
    (keeps : ∀ s a t, I s → M.step s a = some t → I t ∧ P s a t)
    {s : σ} (start : I s) (as : List α) : M.Along P s as := by
  induction as generalizing s with
  | nil => trivial
  | cons a as ih =>
    intro t step
    obtain ⟨next, here⟩ := keeps s a t start step
    exact ⟨here, ih next⟩

theorem along_of_invariant_along {I : σ → Prop} {G P : σ → α → σ → Prop}
    (keeps : ∀ s a t, I s → G s a t → M.step s a = some t → I t ∧ P s a t)
    {s : σ} (start : I s) {as : List α} (meets : M.Along G s as) : M.Along P s as := by
  induction as generalizing s with
  | nil => trivial
  | cons a as ih =>
    intro t step
    obtain ⟨met, later⟩ := meets t step
    obtain ⟨next, here⟩ := keeps s a t start met step
    exact ⟨here, ih next later⟩

theorem tally_eq_zero {counted : σ → σ → Bool} {Q : σ → Prop}
    (stable : ∀ s a t, Q s → M.step s a = some t → Q t)
    (before : ∀ s t, counted s t = true → ¬ Q s)
    {s : σ} (settled : Q s) (as : List α) : M.tally counted s as = 0 := by
  induction as generalizing s with
  | nil => rfl
  | cons a as ih =>
    cases step : M.step s a with
    | none => simp [tally, step]
    | some t =>
      have quiet : counted s t ≠ true := fun hit => before s t hit settled
      simp [tally, step, quiet, ih (stable s a t settled step)]

/-- Steps that lead from outside a stable predicate into it are taken at most once. -/
theorem tally_le_one {counted : σ → σ → Bool} {Q : σ → Prop}
    (stable : ∀ s a t, Q s → M.step s a = some t → Q t)
    (before : ∀ s t, counted s t = true → ¬ Q s)
    (after : ∀ s t, counted s t = true → Q t)
    (s : σ) (as : List α) : M.tally counted s as ≤ 1 := by
  induction as generalizing s with
  | nil => exact Nat.zero_le 1
  | cons a as ih =>
    cases step : M.step s a with
    | none => simp [tally, step]
    | some t =>
      by_cases hit : counted s t = true
      · simp [tally, step, hit, tally_eq_zero stable before (after s t hit) as]
      · simpa [tally, step, hit] using ih t

end Machine

end RustEvents.Foundation.LabelledRuns
