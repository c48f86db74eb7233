/- module: RustEvents/Foundation/Projections
   layer: library
   digest: Runs under a change of labels, and positions in a list of which a part is kept. -/

import RustEvents.Foundation.LabelledRuns

set_option autoImplicit false
set_option relaxedAutoImplicit false

namespace RustEvents.Foundation.Projections

open RustEvents.Foundation.LabelledRuns

section Relabel

variable {σ τ α β γ : Type*} (next : γ → α → γ) (image : γ → α → Option β)

/-- The labels that have an image, where the image may depend on the labels before. -/
def relabel : γ → List α → List β
  | _, [] => []
  | g, a :: as => (image g a).toList ++ relabel (next g a) as

variable {next image} {M : Machine σ α} {N : Machine τ β} {R : γ → σ → τ → Prop}

/-- A relation that every step and its image keep relates whole runs and their images. -/
theorem run_relabel
    (keeps : ∀ g s u a t, R g s u → M.step s a = some t →
      ∃ v, N.run u (image g a).toList = some v ∧ R (next g a) t v)
    {g : γ} {s t : σ} {u : τ} {as : List α} (start : R g s u) (run : M.run s as = some t) :
    ∃ v, N.run u (relabel next image g as) = some v ∧ R (as.foldl next g) t v := by
  induction as generalizing g s u with
  | nil =>
    cases Option.some.inj run
    exact ⟨u, rfl, start⟩
  | cons a as ih =>
    obtain ⟨s', step, rest⟩ := Machine.run_cons.mp run
    obtain ⟨u', first, related⟩ := keeps g s u a s' start step
    obtain ⟨v, later, done⟩ := ih related rest
    refine ⟨v, ?_, done⟩
    rw [relabel, Machine.run_append, first]
    exact later

end Relabel

section Kept

variable {α : Type*} {keep : α → Bool}

/-- The position that index `i` has among the kept elements. -/
def rank (keep : α → Bool) (l : List α) (i : ℕ) : ℕ := (l.take i).countP keep

theorem filter_rank {l : List α} {i : ℕ} {a : α} (found : l[i]? = some a) (kept : keep a = true) :
    (l.filter keep)[rank keep l i]? = some a := by
  induction l generalizing i with
  | nil => cases found
  | cons b l ih =>
    cases i with
    | zero =>
      cases Option.some.inj found
      simp [rank, kept]
    | succ i =>
      have later := ih (i := i) found
      cases first : keep b <;> simpa [rank, first] using later

theorem filter_set_kept {l : List α} {i : ℕ} {a b : α} (found : l[i]? = some a)
    (kept : keep a = true) (still : keep b = true) :
    (l.set i b).filter keep = (l.filter keep).set (rank keep l i) b := by
  induction l generalizing i with
  | nil => cases found
  | cons c l ih =>
    cases i with
    | zero =>
      cases Option.some.inj found
      simp [rank, kept, still]
    | succ i =>
      have later := ih (i := i) found
      cases first : keep c <;> simpa [rank, first] using later

theorem filter_set_dropped {l : List α} {i : ℕ} {a b : α} (found : l[i]? = some a)
    (dropped : keep a = false) (still : keep b = false) :
    (l.set i b).filter keep = l.filter keep := by
  induction l generalizing i with
  | nil => cases found
  | cons c l ih =>
    cases i with
    | zero =>
      cases Option.some.inj found
      simp [dropped, still]
    | succ i =>
      have later := ih (i := i) found
      cases first : keep c <;> simp [first, later]

theorem map_set_same {β : Type*} {f : α → β} {l : List α} {i : ℕ} {a b : α}
    (found : l[i]? = some a) (same : f b = f a) : (l.set i b).map f = l.map f := by
  apply List.ext_getElem?
  intro j
  have low := (List.getElem?_eq_some_iff.mp found).1
  simp only [List.getElem?_map, List.getElem?_set, low, if_true]
  split
  · next here => rw [← here, found, Option.map_some, Option.map_some, same]
  · rfl

theorem rank_map {β : Type*} (f : β → α) (l : List β) (i : ℕ) :
    rank keep (l.map f) i = rank (keep ∘ f) l i := by
  simp only [rank, ← List.map_take, List.countP_map]

end Kept

end RustEvents.Foundation.Projections
