/- module: RustEvents/Foundation/LockOrder
   layer: library
   digest: Agents that hold resources and ask for one more: where all ask in one order of the resources, nobody waits in a circle. -/

import Mathlib.Order.Hom.Basic
import Mathlib.Order.WellFounded
import Mathlib.Data.Fintype.EquivFin

set_option autoImplicit false
set_option relaxedAutoImplicit false

namespace RustEvents.Foundation.LockOrder

open Relation (TransGen ReflTransGen)

/-- Who holds which resources, and who asks for which. -/
structure Holding (ι κ : Type*) where
  holds : ι → κ → Prop
  asks : ι → κ → Prop

namespace Holding

variable {ι κ α : Type*} (H : Holding ι κ)

/-- `i` asks for what another agent `j` holds. -/
def Waits (i j : ι) : Prop := i ≠ j ∧ ∃ k, H.asks i k ∧ H.holds j k

/-- `i` waits for `j`, directly or through others. -/
def Behind (j i : ι) : Prop := TransGen H.Waits i j

/-- A resource has one holder, and nobody asks for a resource that comes before one it holds. -/
structure Ordered [PartialOrder α] (pos : κ ↪ α) : Prop where
  exclusive : ∀ i j k, H.holds i k → H.holds j k → i = j
  ascending : ∀ i k l, H.asks i k → H.holds i l → pos l ≤ pos k

variable {H} [PartialOrder α] {pos : κ ↪ α}

/-- Along the waiting agents the resources only rise: the last one holds nothing less than what
the first one asks for. -/
theorem Ordered.rises (ordered : H.Ordered pos) {i j : ι} (waits : TransGen H.Waits i j) :
    ∃ u k l, i ≠ u ∧ H.asks i k ∧ H.holds u k ∧ H.holds j l ∧ pos k ≤ pos l := by
  induction waits with
  | single first =>
    obtain ⟨other, k, asks, holds⟩ := first
    exact ⟨_, k, k, other, asks, holds, holds, le_rfl⟩
  | tail _ last ih =>
    obtain ⟨u, k, l, other, asks, holds, top, below⟩ := ih
    obtain ⟨-, m, asks', holds'⟩ := last
    exact ⟨u, k, m, other, asks, holds, holds',
      below.trans (ordered.ascending _ m l asks' top)⟩

theorem Ordered.acyclic (ordered : H.Ordered pos) (i : ι) : ¬ TransGen H.Waits i i := by
  intro waits
  obtain ⟨u, k, l, other, asks, holds, top, below⟩ := ordered.rises waits
  have same : l = k := pos.injective (le_antisymm (ordered.ascending i k l asks top) below)
  rw [same] at top
  exact other (ordered.exclusive i u k top holds)

/-- Among finitely many agents, whoever waits waits in the end for an agent that does not. -/
theorem Ordered.reaches_free [Finite ι] (ordered : H.Ordered pos) (i : ι) :
    ∃ j, ReflTransGen H.Waits i j ∧ ∀ u, ¬ H.Waits j u := by
  have transitive : IsTrans ι H.Behind := ⟨fun _ _ _ first second => second.trans first⟩
  have irreflexive : Std.Irrefl H.Behind := ⟨ordered.acyclic⟩
  have founded : WellFounded H.Behind := Finite.wellFounded_of_trans_of_irrefl H.Behind
  induction i using founded.induction with
  | _ i ih =>
    by_cases free : ∀ u, ¬ H.Waits i u
    · exact ⟨i, .refl, free⟩
    · obtain ⟨u, waits⟩ := not_forall_not.mp free
      obtain ⟨j, chain, last⟩ := ih u (.single waits)
      exact ⟨j, .head waits chain, last⟩

end Holding

end RustEvents.Foundation.LockOrder
