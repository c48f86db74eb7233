/- module: RustEvents/Queue/Agreement
   layer: system
   source: src/runtime.rs (handle_envelope), docs/superpowers/specs/2026-05-13-rust-events-design.md (Crash recovery)
   digest: Without overlapping claims and SQL failures the queue's job and the delivery row never disagree. -/

import RustEvents.Queue.Jobs

set_option autoImplicit false
set_option relaxedAutoImplicit false

namespace RustEvents.Queue.Agreement

open RustEvents.Foundation.LabelledRuns
open RustEvents.Model.Errors
open RustEvents.Model.Schema
open RustEvents.Model.Builder
open RustEvents.Model.Runtime
open RustEvents.Worker.Statements
open RustEvents.Worker.Steps
open RustEvents.Worker.Superseded
open RustEvents.Queue.Jobs

/-- The statement of a label is executed and answered. -/
def answered (s : WorkerState) : WorkerLabel → Bool
  | .claim i now reply =>
    (s.invocations[i]?).all fun inv =>
      (reply.answer s.db (claimStatement inv.env inv.ctx now)).isOk
  | .mark i now reply =>
    (s.invocations[i]?).all fun inv =>
      match inv.phase with
      | .claimed (.marking mark _) =>
        (reply.answer s.db (mark.statement inv.env inv.ctx.leaseToken now)).isOk
      | _ => true
  | _ => true

/-- The reaper takes a job back only from a crashed worker, so that successive claims do
not overlap, and no statement fails. -/
def undisturbed (q : QueueState) : QueueLabel → Bool
  | .reap =>
    match q.job with
    | .running i => (q.processes.invocations[i]?).all fun inv => !inv.alive
    | _ => true
  | .work a => answered q.processes a
  | _ => true

def sequentialQueue : Machine QueueState QueueLabel := queue.restrict undisturbed

def failedRow (r : HandlerDelivery) : Bool := r.status = .dead || r.status = .skipped

/-- What holds between the row and the invocation that holds the job's lease. -/
def Standing (row : Option HandlerDelivery) (inv : Invocation) : Prop :=
  match inv.phase with
  | .claiming => True
  | .claimed (.invoking _ _ _) => row.any (holds inv.ctx.leaseToken) = true
  | .claimed (.marking mark verdict) =>
    row.any (holds inv.ctx.leaseToken) = true ∧ Matched inv.ctx mark verdict
  | .claimed (.returned verdict) =>
    ((settled inv.ctx verdict).isTerminal = true → row.any (·.status.isTerminal) = true) ∧
      (settled inv.ctx verdict = .dead → row.any failedRow = true)

/-- The invariant that ties the job, the row and the phase in flight together. -/
structure Agreed (q : QueueState) : Prop where
  present : (q.processes.db.delivery? q.env).isSome = true
  idle : ∀ k inv, q.processes.invocations[k]? = some inv → inv.env = q.env →
    q.job ≠ .running k → inv.alive = false ∨ ∃ verdict, inv.phase = .claimed (.returned verdict)
  current : ∀ i, q.job = .running i → ∃ inv, q.processes.invocations[i]? = some inv ∧
    inv.env = q.env ∧ Standing (q.processes.db.delivery? q.env) inv
  ended : q.job.isTerminal = true →
    (q.processes.db.delivery? q.env).any (·.status.isTerminal) = true
  dead : q.job = .dead → (q.processes.db.delivery? q.env).any failedRow = true

theorem agreed_start {db : Database} {env : HandlerEnvelope} {r : HandlerDelivery}
    (found : db.delivery? env = some r) : Agreed (.start db env) where
  present := by simp [QueueState.start, WorkerState.start, found]
  idle := by simp [QueueState.start, WorkerState.start]
  current := by simp [QueueState.start]
  ended := by simp [QueueState.start, JobStatus.isTerminal]
  dead := by simp [QueueState.start]

private theorem current_of_acting {q : QueueState} (agreed : Agreed q) {k : ℕ} {inv : Invocation}
    (found : q.processes.invocations[k]? = some inv) (own : inv.env = q.env)
    (alive : inv.alive = true) (acting : ∀ verdict, inv.phase ≠ .claimed (.returned verdict)) :
    q.job = .running k ∧ Standing (q.processes.db.delivery? q.env) inv := by
  have running : q.job = .running k := by
    by_contra other
    rcases agreed.idle k inv found own other with crashed | ⟨verdict, returned⟩
    · rw [alive] at crashed
      cases crashed
    · exact acting verdict returned
  obtain ⟨inv', found', -, standing⟩ := agreed.current k running
  rw [found] at found'
  cases Option.some.inj found'
  exact ⟨running, standing⟩

private theorem agreed_set {q : QueueState} (agreed : Agreed q) {w : WorkerState} {k : ℕ}
    {inv : Invocation} {progress : Progress} (found : q.processes.invocations[k]? = some inv)
    (invocations : w.invocations = q.processes.setPhase k inv progress)
    (own : inv.env = q.env → q.job = .running k ∧ (w.db.delivery? q.env).isSome = true ∧
      Standing (w.db.delivery? q.env) { inv with phase := .claimed progress })
    (other : inv.env ≠ q.env → w.db.delivery? q.env = q.processes.db.delivery? q.env) :
    Agreed { q with processes := w } := by
  have get : ∀ j, w.invocations[j]? = if k = j then some { inv with phase := .claimed progress }
      else q.processes.invocations[j]? := by
    intro j
    rw [invocations, setPhase_get found]
  by_cases mine : inv.env = q.env
  · obtain ⟨running, present, standing⟩ := own mine
    refine ⟨present, ?_, ?_, ?_, ?_⟩
    · intro j inv' found' env' notCurrent
      rw [get] at found'
      split at found'
      · next same => exact absurd (same ▸ running) notCurrent
      · exact agreed.idle j inv' found' env' notCurrent
    · intro i current
      have same : k = i := JobStatus.running.inj (running.symm.trans current)
      exact ⟨{ inv with phase := .claimed progress }, by rw [get, if_pos same], mine, standing⟩
    · intro terminal
      change q.job.isTerminal = true at terminal
      rw [running] at terminal
      cases terminal
    · intro dead
      change q.job = .dead at dead
      rw [running] at dead
      cases dead
  · have row := other mine
    refine ⟨?_, ?_, ?_, ?_, ?_⟩
    · change (w.db.delivery? q.env).isSome = true
      rw [row]
      exact agreed.present
    · intro j inv' found' env' notCurrent
      rw [get] at found'
      split at found'
      · cases Option.some.inj found'
        exact absurd env' mine
      · exact agreed.idle j inv' found' env' notCurrent
    · intro i current
      obtain ⟨inv', found', env', standing⟩ := agreed.current i current
      have differ : k ≠ i := by
        rintro rfl
        rw [found] at found'
        exact mine (Option.some.inj found' ▸ env')
      refine ⟨inv', by rw [get, if_neg differ]; exact found', env', ?_⟩
      change Standing (w.db.delivery? q.env) inv'
      rw [row]
      exact standing
    · intro terminal
      change (w.db.delivery? q.env).any _ = true
      rw [row]
      exact agreed.ended terminal
    · intro dead
      change (w.db.delivery? q.env).any _ = true
      rw [row]
      exact agreed.dead dead

theorem afterClaim_terminal {rt : OutboxRuntime} {env : HandlerEnvelope} {ctx : JobContext}
    {db : Database} {r : HandlerDelivery} (found : db.delivery? env = some r)
    (terminal : r.status.isTerminal = true) :
    afterClaim rt env ctx (.ok (claimSelect db env.eventId (some r.status) false)) =
      .returned none := by
  obtain ⟨row, selected, prev, did⟩ := claimSelect_some found (some r.status) false
  simp only [selected, afterClaim, prev, did, terminal, if_true]

private theorem standing_stamped {rt : OutboxRuntime} {env : HandlerEnvelope} {ctx : JobContext}
    {db : Database} {r : HandlerDelivery} {row : Option HandlerDelivery} {alive : Bool}
    (found : db.delivery? env = some r) (held : row.any (holds ctx.leaseToken) = true) :
    Standing row ⟨rt, env, ctx, .claimed (afterClaim rt env ctx
      (.ok (claimSelect db env.eventId (some r.status) true))), alive⟩ := by
  obtain ⟨claim, selected, prev, did⟩ := claimSelect_some found (some r.status) true
  simp only [selected, afterClaim, prev, did, Standing]
  cases lookup : rt.registry.lookup env.handlerId with
  | none => exact ⟨held, fun _ => rfl, fun _ => .inl rfl⟩
  | some registered => exact held

private theorem ok_of_isOk {β : Type} {answer : Except SqlxError β} {b : β}
    (ok : answer.isOk = true) (heard : Heard answer b) : answer = .ok b := by
  rcases heard with eqn | ⟨e, eqn⟩
  · exact eqn
  · rw [eqn] at ok
    cases ok

private theorem agreed_claim {q : QueueState} (agreed : Agreed q) {k : ℕ} {inv : Invocation}
    {now : Timestamp} {reply : Reply} (found : q.processes.invocations[k]? = some inv)
    (alive : inv.alive = true) (phase : inv.phase = .claiming)
    (ok : (reply.answer q.processes.db (claimStatement inv.env inv.ctx now)).isOk = true) :
    Agreed { q with processes := q.processes.claimed k inv now reply } := by
  have acting : inv.env = q.env → q.job = .running k := by
    intro own
    exact (current_of_acting agreed found own alive (by simp [phase])).1
  cases claimed_effect q.processes k inv now reply with
  | quiet e none failed =>
    rw [failed] at ok
    cases ok
  | refused done closed heard db =>
    refine agreed_set agreed found rfl ?_ (fun _ => by rw [db])
    intro own
    refine ⟨acting own, by rw [db]; exact agreed.present, ?_⟩
    obtain ⟨r, row⟩ := Option.isSome_iff_exists.mp agreed.present
    rw [← own] at row
    have terminal : r.status.isTerminal = true := by simpa [row] using closed
    rw [row] at heard
    rw [ok_of_isOk ok heard, Option.map_some, afterClaim_terminal row terminal, db, ← own, row]
    exact ⟨fun _ => terminal, by simp [settled]⟩
  | stamped r done row live heard rows =>
    refine agreed_set agreed found rfl ?_ ?_
    · intro own
      refine ⟨acting own, by rw [rows, if_pos own.symm]; rfl, ?_⟩
      rw [ok_of_isOk ok heard, rows, if_pos own.symm]
      exact standing_stamped row (by simp [holds, claimSet])
    · intro other
      rw [rows, if_neg (Ne.symm other)]

private theorem agreed_mark {q : QueueState} (agreed : Agreed q) {k : ℕ} {inv : Invocation}
    {now : Timestamp} {reply : Reply} {mark : Mark} {verdict : Verdict}
    (found : q.processes.invocations[k]? = some inv) (alive : inv.alive = true)
    (phase : inv.phase = .claimed (.marking mark verdict))
    (ok : (reply.answer q.processes.db
      (mark.statement inv.env inv.ctx.leaseToken now)).isOk = true) :
    Agreed { q with processes := q.processes.marked k inv mark verdict now reply } := by
  have acting : inv.env = q.env → q.job = .running k ∧
      (q.processes.db.delivery? q.env).any (holds inv.ctx.leaseToken) = true ∧
      Matched inv.ctx mark verdict := by
    intro own
    obtain ⟨running, standing⟩ := current_of_acting agreed found own alive (by simp [phase])
    simp only [Standing, phase] at standing
    exact ⟨running, standing⟩
  cases marked_effect q.processes k inv mark verdict now reply with
  | quiet e none failed =>
    rw [failed] at ok
    cases ok
  | fencedOut done free heard rows =>
    refine agreed_set agreed found rfl ?_ (fun _ => rows q.env)
    intro own
    rw [own, (acting own).2.1] at free
    cases free
  | effective r n done row held heard rows =>
    refine agreed_set agreed found rfl ?_ ?_
    · intro own
      obtain ⟨running, -, matched⟩ := acting own
      refine ⟨running, by rw [rows, if_pos own.symm]; rfl, ?_⟩
      rw [ok_of_isOk ok heard, rows, if_pos own.symm]
      simp only [Standing, afterMark, Option.any_some, failedRow, set_status, Bool.or_eq_true,
        decide_eq_true_eq]
      exact ⟨matched.terminal, matched.dead⟩
    · intro other
      rw [rows, if_neg (Ne.symm other)]

private theorem agreed_handler {q : QueueState} (agreed : Agreed q) {k : ℕ} {inv : Invocation}
    {handler : ErasedHandler} {payload : Bytes} {hctx : HandlerContext} (world : World)
    (found : q.processes.invocations[k]? = some inv) (alive : inv.alive = true)
    (phase : inv.phase = .claimed (.invoking handler payload hctx)) :
    Agreed ⟨q.env, q.job, q.processes.handled k inv
      (afterHandler inv.runtime inv.ctx (handler.handleErased world payload hctx))⟩ := by
  refine agreed_set agreed found rfl ?_ (fun _ => rfl)
  intro own
  obtain ⟨running, standing⟩ := current_of_acting agreed found own alive (by simp [phase])
  simp only [Standing, phase] at standing
  exact ⟨running, agreed.present, standing, matched_afterHandler _ _ _⟩

private theorem agreed_crash {q : QueueState} (agreed : Agreed q) {k : ℕ} {inv : Invocation}
    (found : q.processes.invocations[k]? = some inv) :
    Agreed { q with processes := q.processes.crashed k inv } := by
  refine ⟨agreed.present, ?_, ?_, agreed.ended, agreed.dead⟩
  · intro j inv' found' env' notCurrent
    rw [crashed_get found] at found'
    split at found'
    · cases Option.some.inj found'
      exact .inl rfl
    · exact agreed.idle j inv' found' env' notCurrent
  · intro i current
    obtain ⟨inv', found', env', standing⟩ := agreed.current i current
    by_cases same : k = i
    · subst same
      rw [found] at found'
      cases Option.some.inj found'
      exact ⟨{ inv with alive := false }, by rw [crashed_get found, if_pos rfl], env', standing⟩
    · exact ⟨inv', by rw [crashed_get found, if_neg same]; exact found', env', standing⟩

private theorem agreed_handOut {q : QueueState} (agreed : Agreed q) {rt : OutboxRuntime}
    {env : HandlerEnvelope} {ctx : JobContext} {job : JobStatus}
    (fits : job = q.job ∧ env ≠ q.env ∨
      q.job = .pending ∧ env = q.env ∧ job = .running q.processes.invocations.length) :
    Agreed ⟨q.env, job, { q.processes with
      invocations := q.processes.invocations ++ [⟨rt, env, ctx, .claiming, true⟩] }⟩ := by
  rcases fits with ⟨rfl, other⟩ | ⟨pending, rfl, rfl⟩
  · refine ⟨agreed.present, ?_, ?_, agreed.ended, agreed.dead⟩
    · intro j inv found env' notCurrent
      rcases handOut_get found with before | ⟨-, rfl⟩
      · exact agreed.idle j inv before env' notCurrent
      · exact absurd env' other
    · intro i current
      obtain ⟨inv, found, env', standing⟩ := agreed.current i current
      exact ⟨inv, handOut_keeps found, env', standing⟩
  · refine ⟨agreed.present, ?_, ?_, by simp [JobStatus.isTerminal], by simp⟩
    · intro j inv found env' notCurrent
      rcases handOut_get found with before | ⟨rfl, -⟩
      · exact agreed.idle j inv before env' (by rw [pending]; simp)
      · exact absurd rfl notCurrent
    · intro i current
      cases JobStatus.running.inj current
      exact ⟨⟨rt, q.env, ctx, .claiming, true⟩, by simp, rfl, trivial⟩

theorem settled_ne_running (ctx : JobContext) (verdict : Verdict) (i : ℕ) :
    settled ctx verdict ≠ .running i := by
  cases verdict with
  | none => simp [settled]
  | some err =>
    cases err with
    | retry reason retryIn =>
      simp only [settled]
      split <;> simp
    | abort reason => simp [settled]

theorem Agreed.step {q q' : QueueState} {a : QueueLabel} (agreed : Agreed q)
    (allowed : undisturbed q a = true) (step : QueueStep q a q') : Agreed q' := by
  cases step with
  | deliver rt ctx pending w step =>
    cases step
    exact agreed_handOut agreed (.inr ⟨pending, rfl, rfl⟩)
  | work a other w step =>
    cases step with
    | handOut rt env ctx =>
      exact agreed_handOut agreed (.inl ⟨rfl, by simpa [handsOut] using other⟩)
    | claim k inv now reply found alive phase =>
      exact agreed_claim agreed found alive phase
        (by simpa [undisturbed, answered, found] using allowed)
    | handler k inv world handler payload hctx found alive phase =>
      exact agreed_handler agreed world found alive phase
    | mark k inv now reply mark verdict found alive phase =>
      exact agreed_mark agreed found alive phase
        (by simpa [undisturbed, answered, found, phase] using allowed)
    | crash k inv found => exact agreed_crash agreed found
  | settle i inv verdict running found alive phase =>
    obtain ⟨inv', found', own, standing⟩ := agreed.current i running
    rw [found] at found'
    cases Option.some.inj found'
    simp only [Standing, phase] at standing
    refine ⟨agreed.present, ?_, ?_, standing.1, standing.2⟩
    · intro k other foundK env' _
      by_cases same : i = k
      · subst same
        rw [found] at foundK
        cases Option.some.inj foundK
        exact .inr ⟨verdict, phase⟩
      · exact agreed.idle k other foundK env' (by rw [running]; simpa using same)
    · intro k current
      exact absurd current (settled_ne_running _ _ _)
  | reap i running =>
    simp only [undisturbed, running] at allowed
    refine ⟨agreed.present, ?_, by simp, by simp [JobStatus.isTerminal], by simp⟩
    intro k inv found own _
    by_cases same : i = k
    · subst same
      exact .inl (by simpa [found] using allowed)
    · exact agreed.idle k inv found own (by rw [running]; simpa using same)

/-- What an operator may rely on when comparing the two tables. -/
structure InStep (q : QueueState) : Prop where
  terminal : q.job.isTerminal = true →
    ∃ r, q.processes.db.delivery? q.env = some r ∧ r.status.isTerminal = true
  dead : q.job = .dead → ∃ r, q.processes.db.delivery? q.env = some r ∧
    (r.status = .dead ∨ r.status = .skipped)
  live : ∀ r, q.processes.db.delivery? q.env = some r → r.status.isTerminal = false →
    q.job.isTerminal = false

theorem Agreed.inStep {q : QueueState} (agreed : Agreed q) : InStep q := by
  refine ⟨?_, ?_, ?_⟩
  · intro terminal
    exact (Option.any_eq_true _ _).mp (agreed.ended terminal)
  · intro dead
    obtain ⟨r, found, failed⟩ := (Option.any_eq_true _ _).mp (agreed.dead dead)
    exact ⟨r, found, by simpa [failedRow] using failed⟩
  · intro r found live
    by_contra ended
    have terminal := agreed.ended (by simpa using ended)
    rw [found, Option.any_some, live] at terminal
    cases terminal

/-- The job and its row agree in every state that a run without overlap and without SQL
failures reaches, whatever the handler does and wherever the process crashes. -/
theorem queue_agreement {db : Database} {env : HandlerEnvelope} {r : HandlerDelivery}
    (dispatched : db.delivery? env = some r) (as : List QueueLabel) (q : QueueState)
    (reached : sequentialQueue.run (.start db env) as = some q) : InStep q := by
  refine Agreed.inStep (Machine.run_invariant ?_ (agreed_start dispatched) reached)
  intro p a p' agreed taken
  obtain ⟨allowed, step⟩ := Machine.restrict_step.mp taken
  exact agreed.step allowed (queueStep_sound step)

/-- The first worker crashes inside its handler, the reaper hands the job to a second one,
which finishes it. -/
def recoveredRun : List QueueLabel :=
  [.deliver sampleRuntime (sampleContext 1 101#128), .work (.claim 0 1 .answered),
   .work (.crash 0), .reap,
   .deliver sampleRuntime (sampleContext 2 102#128), .work (.claim 1 2 .answered),
   .work (.handler 1 0), .work (.mark 1 3 .answered), .settle]

theorem queue_agreement_recovered :
    ∃ q, sequentialQueue.run (.start sampleDatabase sampleEnv) recoveredRun = some q ∧
      q.job = .done ∧ InStep q := by
  have seen : (sequentialQueue.run (.start sampleDatabase sampleEnv) recoveredRun).map
      QueueState.job = some .done := by
    decide
  obtain ⟨q, reached, done⟩ := Option.map_eq_some_iff.mp seen
  exact ⟨q, reached, done, queue_agreement (r := Database.queuedRow 0 1#128 0 "mailer") rfl
    recoveredRun q reached⟩

end RustEvents.Queue.Agreement
