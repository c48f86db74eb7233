/- module: RustEvents/Queue/Jobs
   layer: system
   source: src/runtime.rs (handle_envelope's verdicts), README.md (Known limitations 4 and 6)
   digest: One pg_work_queue job beside its delivery row: hand-out, settlement by verdict, reaping. -/

import RustEvents.Worker.Superseded

set_option autoImplicit false
set_option relaxedAutoImplicit false

namespace RustEvents.Queue.Jobs

open RustEvents.Foundation.LabelledRuns
open RustEvents.Model.Errors
open RustEvents.Model.Schema
open RustEvents.Model.Builder
open RustEvents.Model.Runtime
open RustEvents.Worker.Statements
open RustEvents.Worker.Steps
open RustEvents.Worker.Superseded

/-- A job in the queue; `running i` while invocation `i` holds its lease. -/
inductive JobStatus where
  | pending
  | running (i : ℕ)
  | done
  | dead
  deriving DecidableEq

def JobStatus.isTerminal : JobStatus → Bool
  | .done | .dead => true
  | .pending | .running _ => false

/-- `pg_work_queue` on the verdict of `handle_envelope`: done on `Ok`, dead on an abort,
dead on a retry of the last attempt. -/
def settled (ctx : JobContext) : Verdict → JobStatus
  | none => .done
  | some (.abort _) => .dead
  | some (.retry _ _) => if ctx.attempt ≥ ctx.maxAttempts then .dead else .pending

/-- One job, whose payload is `env`, and the worker processes. -/
structure QueueState where
  env : HandlerEnvelope
  job : JobStatus
  processes : WorkerState

inductive QueueLabel where
  | deliver (rt : OutboxRuntime) (ctx : JobContext)
  | work (a : WorkerLabel)
  | settle
  | reap

/-- Before the first claim of a pushed job. -/
def QueueState.start (db : Database) (env : HandlerEnvelope) : QueueState :=
  ⟨env, .pending, .start db⟩

def handsOut (env : HandlerEnvelope) : WorkerLabel → Bool
  | .handOut _ handed _ => handed = env
  | _ => false

/-- The job is handed out by `deliver` alone; `work` covers everything else that
worker processes do, the deliveries of other jobs included. -/
def QueueState.step (q : QueueState) : QueueLabel → Option QueueState
  | .deliver rt ctx =>
    match q.job with
    | .pending => (worker.step q.processes (.handOut rt q.env ctx)).map fun w =>
        { q with job := .running q.processes.invocations.length, processes := w }
    | _ => none
  | .work a =>
    if handsOut q.env a then none
    else (worker.step q.processes a).map fun w => { q with processes := w }
  | .settle =>
    match q.job with
    | .running i =>
      match q.processes.live? i with
      | some inv =>
        match inv.phase with
        | .claimed (.returned verdict) => some { q with job := settled inv.ctx verdict }
        | _ => none
      | none => none
    | _ => none
  | .reap =>
    match q.job with
    | .running _ => some { q with job := .pending }
    | _ => none

def queue : Machine QueueState QueueLabel := ⟨QueueState.step⟩

/-- Everything a queue step can do. -/
inductive QueueStep (q : QueueState) : QueueLabel → QueueState → Prop where
  | deliver (rt : OutboxRuntime) (ctx : JobContext) (pending : q.job = .pending)
      (w : WorkerState) (step : Step q.processes (.handOut rt q.env ctx) w) :
      QueueStep q (.deliver rt ctx)
        { q with job := .running q.processes.invocations.length, processes := w }
  | work (a : WorkerLabel) (other : handsOut q.env a = false) (w : WorkerState)
      (step : Step q.processes a w) : QueueStep q (.work a) { q with processes := w }
  | settle (i : ℕ) (inv : Invocation) (verdict : Verdict) (running : q.job = .running i)
      (found : q.processes.invocations[i]? = some inv) (alive : inv.alive = true)
      (phase : inv.phase = .claimed (.returned verdict)) :
      QueueStep q .settle { q with job := settled inv.ctx verdict }
  | reap (i : ℕ) (running : q.job = .running i) : QueueStep q .reap { q with job := .pending }

theorem queueStep_sound {q q' : QueueState} {a : QueueLabel} (taken : queue.step q a = some q') :
    QueueStep q a q' := by
  change q.step a = some q' at taken
  cases a with
  | deliver rt ctx =>
    simp only [QueueState.step] at taken
    split at taken
    · next pending =>
      obtain ⟨w, step, rfl⟩ := Option.map_eq_some_iff.mp taken
      exact .deliver rt ctx pending w (step_sound step)
    · cases taken
  | work a =>
    simp only [QueueState.step] at taken
    split at taken
    · cases taken
    · next other =>
      obtain ⟨w, step, rfl⟩ := Option.map_eq_some_iff.mp taken
      exact .work a (by simpa using other) w (step_sound step)
  | settle =>
    simp only [QueueState.step] at taken
    split at taken
    · next i running =>
      split at taken
      · next inv live =>
        split at taken
        · next verdict phase =>
          cases taken
          obtain ⟨found, alive⟩ := live?_some live
          exact .settle i inv verdict running found alive phase
        · cases taken
      · cases taken
    · cases taken
  | reap =>
    simp only [QueueState.step] at taken
    split at taken
    · next i running =>
      cases taken
      exact .reap i running
    · cases taken

/-- A mark and the verdict returned after it fit together: a job that ends leaves a
terminal row, and a dead job a row that was not sent. -/
structure Matched (ctx : JobContext) (mark : Mark) (verdict : Verdict) : Prop where
  terminal : (settled ctx verdict).isTerminal = true → mark.status.isTerminal = true
  dead : settled ctx verdict = .dead → mark.status = .dead ∨ mark.status = .skipped

private theorem matched_terminalTransition (ctx : JobContext) (e : Option HandlerError) :
    Matched ctx (terminalTransition ctx e).1 (terminalTransition ctx e).2 := by
  cases e with
  | none => exact ⟨fun _ => rfl, by simp [terminalTransition, settled]⟩
  | some err =>
    cases err with
    | retry reason retryIn =>
      simp only [terminalTransition]
      by_cases final : ctx.attempt ≥ ctx.maxAttempts
      · rw [if_pos final]
        exact ⟨fun _ => rfl, fun _ => .inl rfl⟩
      · rw [if_neg final]
        constructor <;> simp [settled, final, JobStatus.isTerminal]
    | skip reason => exact ⟨fun _ => rfl, fun _ => .inr rfl⟩
    | abort reason => exact ⟨fun _ => rfl, fun _ => .inl rfl⟩

theorem matched_afterHandler (rt : OutboxRuntime) (ctx : JobContext)
    (run : HandlerRun HandlerOutcome) :
    Matched ctx (afterHandler rt ctx run).1 (afterHandler rt ctx run).2 :=
  matched_terminalTransition ctx _

theorem matched_afterClaim {rt : OutboxRuntime} {env : HandlerEnvelope} {ctx : JobContext}
    {answer : Except SqlxError (Option ClaimRow)} {mark : Mark} {verdict : Verdict}
    (decided : afterClaim rt env ctx answer = .marking mark verdict) :
    Matched ctx mark verdict := by
  cases answer with
  | error e => cases decided
  | ok row =>
    cases row with
    | none => cases decided
    | some row =>
      simp only [afterClaim] at decided
      split at decided
      · cases decided
      · split at decided <;> cases decided
      · split at decided
        · cases decided
          exact ⟨fun _ => rfl, fun _ => .inl rfl⟩
        · cases decided

/-- An error of the database ends the job when it is deterministic or when it meets
the last attempt. -/
def endsJob (ctx : JobContext) (e : SqlxError) : Bool :=
  isSqlxDeterministic e || ctx.attempt ≥ ctx.maxAttempts

theorem settled_mapSql (ctx : JobContext) (e : SqlxError) (text : String) :
    settled ctx (some (mapSql e text)) = if endsJob ctx e then .dead else .pending := by
  by_cases fatal : isSqlxDeterministic e = true
  · simp [mapSql_of_deterministic fatal, settled, endsJob, fatal]
  · simp [mapSql_of_transient (by simpa using fatal), settled, endsJob, fatal]

/-- A call of `handle_envelope` that ends its job and leaves an open row behind. -/
def stranded (env : HandlerEnvelope) (ctx : JobContext) (result : Database × Verdict) : Bool :=
  (settled ctx result.2).isTerminal &&
    (result.1.delivery? env).any fun r => !r.status.isTerminal

private theorem open_after_claim {env : HandlerEnvelope} (ctx : JobContext) (now : Timestamp)
    (reply : Reply) {db : Database} {r : HandlerDelivery} (found : db.delivery? env = some r)
    (live : r.status.isTerminal = false) :
    ((reply.after db (claimStatement env ctx now)).delivery? env).any
      (fun r => !r.status.isTerminal) = true := by
  cases done : reply.effect db (claimStatement env ctx now) with
  | none =>
    rw [after_of_none done]
    simp [found, live]
  | some result =>
    obtain ⟨db', row⟩ := result
    rw [after_of_effect done, claim_delivery (effect_some done), if_pos rfl]
    simp only [found, Option.map_some, Option.any_some, claimRow, live, Bool.false_eq_true,
      if_false]
    rfl

/-- A failed claim strands its delivery unless the error is transient and an attempt is left. -/
theorem claim_failure_strands_iff {rt : OutboxRuntime} {env : HandlerEnvelope} {ctx : JobContext}
    {out : Surroundings} {db : Database} {r : HandlerDelivery} {e : SqlxError}
    (found : db.delivery? env = some r) (live : r.status.isTerminal = false)
    (failed : out.claimReply.answer db (claimStatement env ctx out.claimNow) = .error e) :
    stranded env ctx (handleEnvelope rt env ctx out db) = false ↔
      isSqlxDeterministic e = false ∧ ctx.attempt < ctx.maxAttempts := by
  have result : handleEnvelope rt env ctx out db =
      (out.claimReply.after db (claimStatement env ctx out.claimNow),
        some (mapSql e "fetch delivery")) := by
    simp only [handleEnvelope, failed, afterClaim]
  have remains := open_after_claim ctx out.claimNow out.claimReply found live
  have left : ctx.attempt < ctx.maxAttempts ↔ ¬ ctx.attempt ≥ ctx.maxAttempts :=
    UInt32.not_le.symm
  rw [result, left]
  simp only [stranded, settled_mapSql, remains, Bool.and_true]
  by_cases fatal : endsJob ctx e = true
  · have ends : ¬ (isSqlxDeterministic e = false ∧ ¬ ctx.attempt ≥ ctx.maxAttempts) := by
      rintro ⟨transient, earlier⟩
      simp [endsJob, transient, earlier] at fatal
    rw [fatal, if_pos rfl]
    exact ⟨fun eqn => Bool.noConfusion eqn, fun survives => absurd survives ends⟩
  · have survives : isSqlxDeterministic e = false ∧ ¬ ctx.attempt ≥ ctx.maxAttempts := by
      simpa [endsJob] using fatal
    rw [if_neg fatal]
    exact ⟨fun _ => survives, fun _ => rfl⟩

/-- A call whose claim statement never reaches Postgres. -/
def unreachable (e : SqlxError) : Surroundings where
  claimNow := 1
  claimReply := .failed e
  world := 0
  markNow := 2
  markReply := .answered

theorem claim_failure_first_attempt :
    stranded sampleEnv (sampleContext 1 101#128)
      (handleEnvelope sampleRuntime sampleEnv (sampleContext 1 101#128) (unreachable .poolTimedOut)
        sampleDatabase) = false :=
  (claim_failure_strands_iff (r := Database.queuedRow 0 1#128 0 "mailer") (e := .poolTimedOut)
    rfl rfl rfl).mpr ⟨rfl, by decide⟩

/-- On the last attempt the same error ends the job and leaves the row queued. -/
theorem claim_failure_last_attempt :
    stranded sampleEnv (sampleContext 5 101#128)
      (handleEnvelope sampleRuntime sampleEnv (sampleContext 5 101#128) (unreachable .poolTimedOut)
        sampleDatabase) = true := by
  decide

end RustEvents.Queue.Jobs
