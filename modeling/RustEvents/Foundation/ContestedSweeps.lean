/- module: RustEvents/Foundation/ContestedSweeps
   layer: library
   digest: Chunked removal whose choice and removal are two steps, with others at work in between. -/

import Mathlib.Data.Finset.Card
import Mathlib.Logic.Relation

set_option autoImplicit false
set_option relaxedAutoImplicit false

namespace RustEvents.Foundation.ContestedSweeps

/-- The items that a removal is after: `aged` are those it may ever take, `due` those of
them that it may take now. -/
structure Pool (κ : Type*) where
  aged : Finset κ
  due : Finset κ
  within : due ⊆ aged

/-- Where the loop stands; it has ended with a short chunk or with a lost answer. -/
inductive Turn (κ : Type*) where
  | selecting
  | removing (chunk : Finset κ)
  | ended (complete : Bool)

/-- A chunked removal beside the pool, with the number of steps it has taken itself. -/
structure Removal (κ : Type*) where
  pool : Pool κ
  total : ℕ
  steps : ℕ
  turn : Turn κ

variable {κ : Type*} [DecidableEq κ]

/-- What the others may do to the pool: no item grows old, and what is due stays due as long
as it is there. -/
structure Drifts (p q : Pool κ) : Prop where
  shrinks : q.aged ⊆ p.aged
  still : p.due ∩ q.aged ⊆ q.due

theorem Drifts.refl (p : Pool κ) : Drifts p p :=
  ⟨Finset.Subset.refl _, Finset.inter_subset_left⟩

theorem Drifts.trans {p q r : Pool κ} (first : Drifts p q) (second : Drifts q r) :
    Drifts p r := by
  refine ⟨second.shrinks.trans first.shrinks, ?_⟩
  intro k mem
  obtain ⟨due, aged⟩ := Finset.mem_inter.mp mem
  have there : k ∈ q.due := first.still (Finset.mem_inter.mpr ⟨due, second.shrinks aged⟩)
  exact second.still (Finset.mem_inter.mpr ⟨there, aged⟩)

/-- A step of the loop or of the others. A removal that is `alone` shares its items with nobody. -/
inductive Moves (limit : ℕ) (alone : Prop) (h : Removal κ) : Removal κ → Prop where
  | drift (next : Pool κ) (drifts : Drifts h.pool next)
      (spared : alone → h.pool.aged ⊆ next.aged) : Moves limit alone h { h with pool := next }
  | choose (chunk : Finset κ) (turn : h.turn = .selecting) (inside : chunk ⊆ h.pool.due)
      (size : chunk.card = min limit h.pool.due.card) :
      Moves limit alone h { h with steps := h.steps + 1, turn := .removing chunk }
  | take (chunk : Finset κ) (next : Pool κ) (turn : h.turn = .removing chunk)
      (drifts : Drifts h.pool next) (taken : next.aged = h.pool.aged \ chunk) :
      Moves limit alone h
        { pool := next
          total := h.total + (h.pool.aged ∩ chunk).card
          steps := h.steps + 1
          turn := if (h.pool.aged ∩ chunk).card < limit then .ended true else .selecting }
  | lose (chunk : Finset κ) (next : Pool κ) (turn : h.turn = .removing chunk)
      (drifts : Drifts h.pool next) :
      Moves limit alone h
        { h with pool := next, steps := h.steps + 1, turn := .ended false }

/-- How far into a chunk the loop is. -/
def Turn.offset : Turn κ → ℕ
  | .selecting => 0
  | .removing _ => 1
  | .ended _ => 2

def Removal.start (p : Pool κ) : Removal κ := ⟨p, 0, 0, .selecting⟩

/-- What has become of the pool that the removal began with. -/
structure Advanced (limit : ℕ) (alone : Prop) (p : Pool κ) (h : Removal κ) : Prop where
  drifts : Drifts p h.pool
  counted : h.total + h.pool.aged.card ≤ p.aged.card
  full : ∃ chunks, chunks * limit ≤ h.total ∧ h.steps = 2 * chunks + h.turn.offset
  exact : alone → h.turn ≠ .ended false → h.total + h.pool.aged.card = p.aged.card
  aimed : ∀ chunk, h.turn = .removing chunk → alone →
    chunk ⊆ h.pool.aged ∧ (chunk.card < limit → p.due ∩ h.pool.aged ⊆ chunk)
  cleared : alone → h.turn = .ended true → p.due ∩ h.pool.aged = ∅

variable {limit : ℕ} {alone : Prop} {p : Pool κ} {h h' : Removal κ}

private theorem advanced_start (limit : ℕ) (alone : Prop) (p : Pool κ) :
    Advanced limit alone p (.start p) where
  drifts := .refl p
  counted := Nat.le_of_eq (Nat.zero_add _)
  full := ⟨0, by simp [Removal.start], rfl⟩
  exact _ _ := Nat.zero_add _
  aimed chunk turn := by cases turn
  cleared _ turn := by cases turn

omit [DecidableEq κ] in
private theorem offset_not_ended {turn : Turn κ} (running : turn = .selecting ∨
    ∃ chunk, turn = .removing chunk) : turn ≠ .ended false := by
  intro ended
  rcases running with here | ⟨chunk, here⟩ <;> cases here.symm.trans ended

private theorem advanced_drift {next : Pool κ} (inv : Advanced limit alone p h)
    (drifts : Drifts h.pool next) (spared : alone → h.pool.aged ⊆ next.aged) :
    Advanced limit alone p { h with pool := next } := by
  have fewer := Finset.card_le_card drifts.shrinks
  refine ⟨inv.drifts.trans drifts, ?_, inv.full, ?_, ?_, ?_⟩
  · exact (Nat.add_le_add_left fewer _).trans inv.counted
  · intro lone turn
    have same : next.aged = h.pool.aged := drifts.shrinks.antisymm (spared lone)
    change h.total + next.aged.card = _
    rw [same]
    exact inv.exact lone turn
  · intro chunk turn lone
    obtain ⟨inside, last⟩ := inv.aimed chunk turn lone
    refine ⟨inside.trans (spared lone), ?_⟩
    intro short
    exact (Finset.inter_subset_inter_left drifts.shrinks).trans (last short)
  · intro lone turn
    have before := inv.cleared lone turn
    exact Finset.subset_empty.mp
      ((Finset.inter_subset_inter_left drifts.shrinks).trans (Finset.subset_of_eq before))

private theorem advanced_choose {chunk : Finset κ} (inv : Advanced limit alone p h)
    (turn : h.turn = .selecting) (inside : chunk ⊆ h.pool.due)
    (size : chunk.card = min limit h.pool.due.card) :
    Advanced limit alone p { h with steps := h.steps + 1, turn := .removing chunk } := by
  refine ⟨inv.drifts, inv.counted, ?_, ?_, ?_, ?_⟩
  · obtain ⟨chunks, full, steps⟩ := inv.full
    refine ⟨chunks, full, ?_⟩
    rw [turn] at steps
    change h.steps + 1 = 2 * chunks + 1
    rw [steps]
    rfl
  · intro lone _
    exact inv.exact lone (offset_not_ended (.inl turn))
  · intro chunk' same lone
    cases same
    refine ⟨inside.trans h.pool.within, ?_⟩
    intro short
    -- a short chunk took everything that was due
    have all : chunk = h.pool.due := by
      refine Finset.eq_of_subset_of_card_le inside ?_
      omega
    rw [all]
    exact inv.drifts.still
  · intro _ ended
    cases ended

private theorem advanced_take {chunk : Finset κ} {next : Pool κ} (inv : Advanced limit alone p h)
    (turn : h.turn = .removing chunk) (drifts : Drifts h.pool next)
    (taken : next.aged = h.pool.aged \ chunk) :
    Advanced limit alone p
      { pool := next
        total := h.total + (h.pool.aged ∩ chunk).card
        steps := h.steps + 1
        turn := if (h.pool.aged ∩ chunk).card < limit then .ended true else .selecting } := by
  have parts : (h.pool.aged ∩ chunk).card + next.aged.card = h.pool.aged.card := by
    rw [taken]
    exact Finset.card_inter_add_card_sdiff h.pool.aged chunk
  have before := inv.counted
  refine ⟨inv.drifts.trans drifts, ?_, ?_, ?_, ?_, ?_⟩
  · change h.total + (h.pool.aged ∩ chunk).card + next.aged.card ≤ _
    omega
  · obtain ⟨chunks, full, steps⟩ := inv.full
    rw [turn] at steps
    change h.steps = 2 * chunks + 1 at steps
    by_cases short : (h.pool.aged ∩ chunk).card < limit
    · refine ⟨chunks, full.trans (Nat.le_add_right _ _), ?_⟩
      simp only [if_pos short]
      change h.steps + 1 = 2 * chunks + 2
      omega
    · refine ⟨chunks + 1, ?_, ?_⟩
      · rw [Nat.succ_mul]
        exact Nat.add_le_add full (Nat.not_lt.mp short)
      · simp only [if_neg short]
        change h.steps + 1 = 2 * (chunks + 1) + 0
        omega
  · intro lone _
    have equal := inv.exact lone (offset_not_ended (.inr ⟨chunk, turn⟩))
    change h.total + (h.pool.aged ∩ chunk).card + next.aged.card = _
    omega
  · intro chunk' removing
    change (if (h.pool.aged ∩ chunk).card < limit then Turn.ended true else Turn.selecting) = _
      at removing
    split at removing <;> cases removing
  · intro lone ended
    obtain ⟨inside, last⟩ := inv.aimed chunk turn lone
    have short : (h.pool.aged ∩ chunk).card < limit := by
      by_contra long
      change (if (h.pool.aged ∩ chunk).card < limit then Turn.ended true else Turn.selecting) = _
        at ended
      rw [if_neg long] at ended
      cases ended
    rw [Finset.inter_eq_right.mpr inside] at short
    change p.due ∩ next.aged = ∅
    rw [taken, ← Finset.inter_sdiff_assoc, Finset.sdiff_eq_empty_iff_subset]
    exact last short

private theorem advanced_lose {chunk : Finset κ} {next : Pool κ} (inv : Advanced limit alone p h)
    (turn : h.turn = .removing chunk) (drifts : Drifts h.pool next) :
    Advanced limit alone p { h with pool := next, steps := h.steps + 1, turn := .ended false } := by
  have fewer := Finset.card_le_card drifts.shrinks
  refine ⟨inv.drifts.trans drifts, (Nat.add_le_add_left fewer _).trans inv.counted, ?_, ?_, ?_, ?_⟩
  · obtain ⟨chunks, full, steps⟩ := inv.full
    refine ⟨chunks, full, ?_⟩
    rw [turn] at steps
    change h.steps + 1 = 2 * chunks + 2
    rw [steps]
    rfl
  · intro _ running
    exact absurd rfl running
  · intro chunk' removing
    cases removing
  · intro _ ended
    cases ended

private theorem advanced_moves (inv : Advanced limit alone p h) (moves : Moves limit alone h h') :
    Advanced limit alone p h' := by
  cases moves with
  | drift next drifts spared => exact advanced_drift inv drifts spared
  | choose chunk turn inside size => exact advanced_choose inv turn inside size
  | take chunk next turn drifts taken => exact advanced_take inv turn drifts taken
  | lose chunk next turn drifts => exact advanced_lose inv turn drifts

theorem advanced_run (runs : Relation.ReflTransGen (Moves limit alone) (.start p) h) :
    Advanced limit alone p h := by
  induction runs with
  | refl => exact advanced_start limit alone p
  | tail _ move ih => exact advanced_moves ih move

/-- The loop ends under any load: the items that are old when it begins pay for its steps. -/
theorem Advanced.bounded (inv : Advanced limit alone p h) (positive : 0 < limit) :
    h.steps ≤ 2 * (p.aged.card / limit + 1) := by
  obtain ⟨chunks, full, steps⟩ := inv.full
  have paid : chunks ≤ p.aged.card / limit := by
    rw [Nat.le_div_iff_mul_le positive]
    exact full.trans ((Nat.le_add_right _ _).trans inv.counted)
  have offset : h.turn.offset ≤ 2 := by
    cases h.turn <;> simp [Turn.offset]
  omega

end RustEvents.Foundation.ContestedSweeps
