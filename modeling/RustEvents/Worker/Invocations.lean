/- module: RustEvents/Worker/Invocations
   layer: system
   source: src/runtime.rs (handle_envelope steps 2 to 4)
   digest: When a claim starts the user handler, and which dispatch key the handler is given. -/

import RustEvents.Worker.Steps

set_option autoImplicit false
set_option relaxedAutoImplicit false

namespace RustEvents.Worker.Invocations

open RustEvents.Foundation.IndexedTable (Table)
open RustEvents.Model.Schema
open RustEvents.Model.Builder
open RustEvents.Model.Runtime
open RustEvents.Worker.Statements
open RustEvents.Worker.Steps

/-- The context of the user handler, while it runs. -/
def handlerContext? (inv : Invocation) : Option HandlerContext :=
  match inv.phase with
  | .claimed (.invoking _ _ hctx) => some hctx
  | _ => none

theorem claim_returns {s : WorkerState} {inv : Invocation} (i : ℕ) (now : Timestamp)
    (reply : Reply) (closed : (s.db.delivery? inv.env).all (·.status.isTerminal) = true) :
    ∃ verdict, afterClaim inv.runtime inv.env inv.ctx
      (reply.answer s.db (claimStatement inv.env inv.ctx now)) = .returned verdict := by
  cases claimed_effect s i inv now reply with
  | quiet e none failed => exact ⟨_, by rw [failed]; rfl⟩
  | stamped r done found live =>
    rw [found, Option.all_some, live] at closed
    cases closed
  | refused done _ heard =>
    rcases heard with heard | ⟨e, heard⟩
    · rw [heard]
      cases event : s.db.event? inv.env.eventId with
      | none => exact ⟨_, by rw [claimSelect, event]; rfl⟩
      | some e =>
        cases found : s.db.delivery? inv.env with
        | none => exact ⟨_, by rw [claimSelect, event]; rfl⟩
        | some r =>
          rw [found, Option.all_some] at closed
          exact ⟨none, by rw [claimSelect, event]; simp [afterClaim, closed]⟩
    · exact ⟨_, by rw [heard]; rfl⟩

/-- A claim that starts the handler met a non-terminal row, and hands over the key that the
LEFT JOIN read in the same statement. -/
theorem claim_invokes {s : WorkerState} {inv : Invocation} (i : ℕ) {now : Timestamp}
    {reply : Reply} {handler : ErasedHandler} {payload : Bytes} {hctx : HandlerContext}
    (starts : afterClaim inv.runtime inv.env inv.ctx
      (reply.answer s.db (claimStatement inv.env inv.ctx now)) = .invoking handler payload hctx) :
    ∃ r, s.db.delivery? inv.env = some r ∧ r.status.isTerminal = false ∧
      hctx.dispatchIdempotencyKey = s.db.keyOf inv.env.eventId := by
  by_cases closed : (s.db.delivery? inv.env).all (·.status.isTerminal) = true
  · obtain ⟨verdict, returns⟩ := claim_returns i now reply closed
    rw [returns] at starts
    cases starts
  cases claimed_effect s i inv now reply with
  | quiet e none failed =>
    rw [failed] at starts
    cases starts
  | refused done closed' => exact absurd closed' closed
  | stamped r done found live heard =>
    refine ⟨r, found, live, ?_⟩
    rcases heard with heard | ⟨e, heard⟩
    · obtain ⟨e, event?⟩ := event?_of_delivery found
      rw [heard, claimSelect, event?] at starts
      simp only [Option.map_some, afterClaim] at starts
      split at starts
      · cases starts
      · cases starts
        exact congrArg s.db.keyOf (Table.find_mem event?).2
    · rw [heard] at starts
      cases starts

theorem running_origin {s t : WorkerState} {a : WorkerLabel} (step : Step s a t) {j : ℕ}
    {inv : Invocation} {hctx : HandlerContext} (found : t.invocations[j]? = some inv)
    (runs : handlerContext? inv = some hctx) :
    (∃ before, s.invocations[j]? = some before ∧ before.env = inv.env ∧
      before.phase = inv.phase) ∨
    ∃ r, s.db.delivery? inv.env = some r ∧ r.status.isTerminal = false ∧
      hctx.dispatchIdempotencyKey = s.db.keyOf inv.env.eventId := by
  -- An invocation whose phase the step sets to anything but its handler is not running.
  have moved : ∀ {i : ℕ} {inv' : Invocation} {progress : Progress},
      s.invocations[i]? = some inv' → (s.setPhase i inv' progress)[j]? = some inv →
      handlerContext? { inv' with phase := .claimed progress } = none →
      ∃ before, s.invocations[j]? = some before ∧ before.env = inv.env ∧
        before.phase = inv.phase := by
    intro i inv' progress found' eqn quiet
    rw [setPhase_get found'] at eqn
    split at eqn
    · cases Option.some.inj eqn
      rw [quiet] at runs
      cases runs
    · exact ⟨inv, eqn, rfl, rfl⟩
  cases step with
  | handOut rt env ctx =>
    rcases handOut_get found with kept | ⟨-, rfl⟩
    · exact .inl ⟨inv, kept, rfl, rfl⟩
    · cases runs
  | claim i inv' now reply found' alive phase =>
    cases progress : afterClaim inv'.runtime inv'.env inv'.ctx
      (reply.answer s.db (claimStatement inv'.env inv'.ctx now)) with
    | returned verdict => exact .inl (moved found' found (by rw [progress]; rfl))
    | marking mark verdict => exact .inl (moved found' found (by rw [progress]; rfl))
    | invoking handler payload hctx' =>
      change (s.setPhase i inv' _)[j]? = some inv at found
      rw [setPhase_get found', progress] at found
      split at found
      · cases Option.some.inj found
        cases Option.some.inj runs
        exact .inr (claim_invokes i progress)
      · exact .inl ⟨inv, found, rfl, rfl⟩
  | handler i inv' world handler payload hctx' found' => exact .inl (moved found' found rfl)
  | mark i inv' now reply mark verdict found' => exact .inl (moved found' found rfl)
  | crash i inv' found' =>
    rw [crashed_get found'] at found
    split at found
    · next same =>
      cases Option.some.inj found
      exact .inl ⟨inv', same ▸ found', rfl, rfl⟩
    · exact .inl ⟨inv, found, rfl, rfl⟩

end RustEvents.Worker.Invocations
