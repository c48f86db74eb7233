/- module: RustEvents/Worker/Timeouts
   layer: model facts
   source: src/runtime.rs (effective_timeout, our_timeout), src/builder.rs, src/outbox.rs (Outbox::start)
   digest: When the internal timer of handle_envelope expires before the queue cancels the call. -/

import RustEvents.Model.Runtime

set_option autoImplicit false
set_option relaxedAutoImplicit false

namespace RustEvents.Worker.Timeouts

open RustEvents.Model.Errors
open RustEvents.Model.Builder
open RustEvents.Model.Runtime

/-- The queue's timer starts with the call, the internal one `claim` later, after step ②. -/
def InnerTimerFirst (config : OutboxConfig) (registered : RegisteredHandler) (claim : Duration) :
    Prop :=
  claim + ourTimeout (effectiveTimeout config registered) < config.handlerTimeout

/-- A configuration that `OutboxConfigBuilder::build` accepted, or the default. -/
def Accepted (b : OutboxBuilder) : Prop :=
  b.config = none ∨ ∃ cfg config : OutboxConfig, cfg.build = .ok config ∧ b.config = some config

/-- A budget above the floor that both checks use. -/
def overFloor (d : Duration) : Prop := handlerCleanupBudget * 2 < d

/-- An override that tightens the global budget or matches it. -/
def Tightens (config : OutboxConfig) (override : Option Duration) : Prop :=
  ∀ d, override = some d → overFloor d ∧ d ≤ config.handlerTimeout

private theorem floorCheck_ok {d : Duration} {label : String}
    (passed : handlerTimeoutFloorCheck d label = .ok ()) : overFloor d := by
  simp only [handlerTimeoutFloorCheck] at passed
  split at passed
  · cases passed
  · next high => exact Nat.lt_of_not_le high

private theorem build_overFloor {cfg config : OutboxConfig} (built : cfg.build = .ok config) :
    overFloor config.handlerTimeout := by
  simp only [OutboxConfig.build] at built
  split at built
  · cases built
  split at built
  · cases built
  split at built
  · cases built
  split at built
  · cases built
  · next passed =>
    cases built
    exact floorCheck_ok passed

private theorem accepted_overFloor {b : OutboxBuilder} (accepted : Accepted b) :
    overFloor (b.config.getD OutboxConfig.default).handlerTimeout := by
  rcases accepted with none | ⟨cfg, config, built, given⟩
  · rw [none]
    exact build_overFloor default_build
  · rw [given]
    exact build_overFloor built

theorem checkTimeout_tightens {config : OutboxConfig} {entry : PendingHandler}
    (passed : checkTimeout config entry = .ok ()) : Tightens config entry.handlerTimeout := by
  intro d given
  simp only [checkTimeout, given] at passed
  split at passed
  · cases passed
  · next floor =>
    split at passed
    · cases passed
    · next low => exact ⟨floorCheck_ok floor, Nat.le_of_not_lt low⟩

/-- Every handler of a registry has an override that passed. -/
def Tightened (config : OutboxConfig) (reg : Registry) : Prop :=
  ∀ id registered, reg.lookup id = some registered → Tightens config registered.handlerTimeout

private theorem tightened_add {config : OutboxConfig} {reg next : Registry} {entry : PendingHandler}
    (tightened : Tightened config reg) (accepted : registerEntry config reg entry = .ok next) :
    Tightened config next := by
  obtain ⟨-, -, timeout, -, rfl⟩ := registerEntry_ok accepted
  intro id registered found
  rw [lookup_add] at found
  split at found
  · cases Option.some.inj found
    exact checkTimeout_tightens timeout
  · exact tightened id registered found

theorem built_budgets {b : OutboxBuilder} {o : Outbox} (accepted : Accepted b)
    (built : b.build = .ok o) {id : String} {registered : RegisteredHandler}
    (found : o.registry.lookup id = some registered) :
    overFloor (effectiveTimeout o.config registered) ∧
      effectiveTimeout o.config registered ≤ o.config.handlerTimeout := by
  have floor := accepted_overFloor accepted
  simp only [OutboxBuilder.build] at built
  split at built
  · cases built
  next registry passed =>
  cases Except.ok.inj built
  have none : Tightened (b.config.getD OutboxConfig.default) Registry.new := by
    intro id registered found
    cases found
  have tightened : Tightened (b.config.getD OutboxConfig.default) registry :=
    registerAll_invariant (I := fun reg _ => Tightened _ reg) tightened_add none passed
  simp only [effectiveTimeout]
  cases override : registered.handlerTimeout with
  | none => exact ⟨floor, Nat.le_refl _⟩
  | some d => exact tightened id registered found d override

private theorem saturated {d budget least : ℕ} (above : budget * 2 < d) (small : least ≤ budget) :
    max (d - budget) least + budget = d := by
  omega

theorem ourTimeout_eq {d : Duration} (floor : overFloor d) :
    ourTimeout d + handlerCleanupBudget = d :=
  saturated floor (by decide)

private theorem timers_cross {claim ours budget global cleanup : ℕ}
    (inner : ours + cleanup = budget)
    (ceiling : budget ≤ global) : claim + ours < global ↔ claim < global - budget + cleanup := by
  omega

/-- The internal timer wins exactly when the claim takes less than the cleanup budget plus
what the override leaves of the global budget. -/
theorem inner_timer_first_iff {b : OutboxBuilder} {o : Outbox} (accepted : Accepted b)
    (built : b.build = .ok o) {id : String} {registered : RegisteredHandler}
    (found : o.registry.lookup id = some registered) (claim : Duration) :
    InnerTimerFirst o.config registered claim ↔
      claim < o.config.handlerTimeout - effectiveTimeout o.config registered +
        handlerCleanupBudget := by
  obtain ⟨floor, within⟩ := built_budgets accepted built found
  exact timers_cross (ourTimeout_eq floor) within

/-- One handler without an override under the default configuration. -/
def plainBuilder : OutboxBuilder where
  config := none
  pending := [⟨"order.created", "mailer", ⟨fun _ _ _ => .returned .ok⟩, none, none⟩]
  allowNoHandlers := false

private theorem plainBuilder_builds : ∃ o registered, plainBuilder.build = .ok o ∧
    o.registry.lookup "mailer" = some registered ∧
    o.config = OutboxConfig.default ∧ registered.handlerTimeout = none :=
  ⟨_, _, rfl, rfl, rfl, rfl⟩

theorem inner_timer_first_iff_fast : ∃ o registered, plainBuilder.build = .ok o ∧
    o.registry.lookup "mailer" = some registered ∧
    InnerTimerFirst o.config registered (millis 199) := by
  obtain ⟨o, registered, built, found, config, override⟩ := plainBuilder_builds
  refine ⟨o, registered, built, found, (inner_timer_first_iff (.inl rfl) built found _).mpr ?_⟩
  simp only [effectiveTimeout, override, Option.getD_none, Nat.sub_self]
  decide

/-- A claim of 200 ms lets both timers expire together. -/
theorem slow_claim_loses_timer : ∃ o registered, plainBuilder.build = .ok o ∧
    o.registry.lookup "mailer" = some registered ∧
    millis 200 < o.config.handlerTimeout ∧ ¬ InnerTimerFirst o.config registered (millis 200) := by
  obtain ⟨o, registered, built, found, config, override⟩ := plainBuilder_builds
  refine ⟨o, registered, built, found, ?_, ?_⟩
  · rw [config]
    decide
  · simp only [InnerTimerFirst, effectiveTimeout, override, Option.getD_none, config]
    decide

end RustEvents.Worker.Timeouts
