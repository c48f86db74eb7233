/- module: RustEvents/Foundation/ChunkedSweeps
   layer: library
   digest: Removing eligible items chunk by chunk until a short chunk amounts to removing them all at once. -/

import RustEvents.Foundation.LabelledRuns
import Mathlib.Data.Finset.Card
import Mathlib.Data.List.Sort

set_option autoImplicit false
set_option relaxedAutoImplicit false

namespace RustEvents.Foundation.ChunkedSweeps

open RustEvents.Foundation.LabelledRuns

/-- States with items that may be removed. Removing some of them does not change whether the
others are eligible. -/
structure Sweep (σ κ : Type*) [DecidableEq κ] where
  eligible : σ → Finset κ
  remove : σ → Finset κ → σ
  remove_empty : ∀ s, remove s ∅ = s
  remove_remove : ∀ s a b, remove (remove s a) b = remove s (a ∪ b)
  eligible_remove : ∀ s a, a ⊆ eligible s → eligible (remove s a) = eligible s \ a

/-- Where a chunked removal stands. -/
structure Stage (σ : Type*) where
  current : σ
  total : ℕ
  finished : Bool

namespace Sweep

variable {σ κ : Type*} [DecidableEq κ] (S : Sweep σ κ)

def start (s : σ) : Stage σ := ⟨s, 0, false⟩

/-- Each step removes as many eligible items as the limit allows, any of them; a chunk below
the limit is the last one. -/
def machine (limit : ℕ) : Machine (Stage σ) (Finset κ) where
  step p chunk :=
    if p.finished = false ∧ chunk ⊆ S.eligible p.current ∧
        chunk.card = min limit (S.eligible p.current).card then
      some ⟨S.remove p.current chunk, p.total + chunk.card, decide (chunk.card < limit)⟩
    else none

/-- All eligible items removed at once. -/
def sweep (s : σ) : σ := S.remove s (S.eligible s)

/-- After `n` chunks: the items taken so far, all of them once the loop has finished. -/
structure Taken (limit : ℕ) (s : σ) (n : ℕ) (taken : Finset κ) (p : Stage σ) : Prop where
  within : taken ⊆ S.eligible s
  current : p.current = S.remove s taken
  total : p.total = taken.card
  unfinished : p.finished = false → taken.card = n * limit
  all : p.finished = true → taken = S.eligible s
  full : (n - 1) * limit ≤ taken.card

variable {S} {limit : ℕ}

private theorem taken_start (s : σ) : S.Taken limit s 0 ∅ (start s) where
  within := Finset.empty_subset _
  current := (S.remove_empty s).symm
  total := rfl
  unfinished _ := by simp
  all finished := by cases finished
  full := by simp

private theorem taken_step {s : σ} {n : ℕ} {taken chunk : Finset κ} {p q : Stage σ}
    (inv : S.Taken limit s n taken p) (step : (S.machine limit).step p chunk = some q) :
    S.Taken limit s (n + 1) (taken ∪ chunk) q := by
  simp only [machine] at step
  split at step
  case isFalse => cases step
  next guard =>
  obtain ⟨running, inside, size⟩ := guard
  cases Option.some.inj step
  rw [inv.current, S.eligible_remove s taken inv.within] at inside size
  have apart : Disjoint taken chunk := Finset.disjoint_of_subset_right inside Finset.disjoint_sdiff
  have count : (taken ∪ chunk).card = taken.card + chunk.card :=
    Finset.card_union_of_disjoint apart
  have before := inv.unfinished running
  have product : (n + 1) * limit = n * limit + limit := Nat.succ_mul n limit
  refine ⟨?_, ?_, ?_, ?_, ?_, ?_⟩
  · exact Finset.union_subset inv.within (inside.trans Finset.sdiff_subset)
  · rw [inv.current, S.remove_remove]
  · rw [inv.total, count]
  · intro unfinished
    have long : ¬ chunk.card < limit := of_decide_eq_false unfinished
    omega
  · intro finished
    have short : chunk.card < limit := of_decide_eq_true finished
    have rest : chunk = S.eligible s \ taken := by
      refine Finset.eq_of_subset_of_card_le inside ?_
      omega
    rw [rest, Finset.union_sdiff_of_subset inv.within]
  · rw [Nat.add_sub_cancel, count]
    omega

private theorem taken_run {s : σ} {n : ℕ} {taken : Finset κ} {p q : Stage σ}
    {chunks : List (Finset κ)}
    (inv : S.Taken limit s n taken p) (run : (S.machine limit).run p chunks = some q) :
    ∃ taken', S.Taken limit s (n + chunks.length) taken' q := by
  induction chunks generalizing n taken p with
  | nil =>
    cases Option.some.inj run
    exact ⟨taken, inv⟩
  | cons chunk chunks ih =>
    obtain ⟨r, step, rest⟩ := Machine.run_cons.mp run
    obtain ⟨taken', later⟩ := ih (taken_step inv step) rest
    refine ⟨taken', ?_⟩
    rwa [List.length_cons, Nat.add_comm chunks.length, ← Nat.add_assoc]

/-- A finished loop has removed exactly the eligible items and counted each of them once. -/
theorem finished_run {s : σ} {q : Stage σ} {chunks : List (Finset κ)}
    (run : (S.machine limit).run (start s) chunks = some q) (finished : q.finished = true) :
    q.current = S.sweep s ∧ q.total = (S.eligible s).card := by
  obtain ⟨taken, inv⟩ := taken_run (taken_start s) run
  have all := inv.all finished
  exact ⟨by rw [inv.current, all, sweep], by rw [inv.total, all]⟩

/-- The loop ends: one chunk per full limit and a last short one. -/
theorem run_bounded {s : σ} {q : Stage σ} {chunks : List (Finset κ)} (positive : 0 < limit)
    (run : (S.machine limit).run (start s) chunks = some q) :
    chunks.length ≤ (S.eligible s).card / limit + 1 := by
  obtain ⟨taken, inv⟩ := taken_run (taken_start s) run
  have within := Finset.card_le_card inv.within
  have full := inv.full
  have chunksFull : chunks.length - 1 ≤ (S.eligible s).card / limit := by
    rw [Nat.le_div_iff_mul_le positive]
    rw [Nat.zero_add] at full
    exact full.trans within
  omega

theorem eligible_sweep (s : σ) : S.eligible (S.sweep s) = ∅ := by
  rw [sweep, S.eligible_remove s _ (Finset.Subset.refl _), Finset.sdiff_self]

end Sweep

private theorem exists_sorted {α β : Type*} [LinearOrder β] (key : α → β) (l : List α) :
    ∃ sorted : List α, sorted.Perm l ∧ sorted.Pairwise fun a b => key a ≤ key b := by
  refine ⟨l.mergeSort fun a b => decide (key a ≤ key b), List.mergeSort_perm l _, ?_⟩
  have sorted : (l.mergeSort fun a b => decide (key a ≤ key b)).Pairwise
      fun a b => decide (key a ≤ key b) = true := by
    apply List.pairwise_mergeSort
    · intro a b c ab bc
      rw [decide_eq_true_eq] at ab bc ⊢
      exact ab.trans bc
    · intro a b
      rw [Bool.or_eq_true, decide_eq_true_eq, decide_eq_true_eq]
      exact le_total (key a) (key b)
  simpa only [decide_eq_true_eq] using sorted

theorem exists_lowest {α β : Type*} [LinearOrder β] (key : α → β) (limit : ℕ) (l : List α) :
    ∃ low rest : List α, (low ++ rest).Perm l ∧ low.length = min limit l.length ∧
      ∀ a ∈ low, ∀ b ∈ rest, key a ≤ key b := by
  obtain ⟨sorted, perm, order⟩ := exists_sorted key l
  rw [← List.take_append_drop limit sorted] at perm order
  refine ⟨sorted.take limit, sorted.drop limit, perm, ?_, (List.pairwise_append.mp order).2.2⟩
  rw [List.length_take, ← perm.length_eq, List.take_append_drop]

end RustEvents.Foundation.ChunkedSweeps
