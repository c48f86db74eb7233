/- module: RustEvents/Queue/Turns
   layer: refinement
   source: src/runtime.rs (handle_envelope), README.md (Known limitations 4 and 6)
   digest: If only crashed workers lose their leases, the attempts of a job take turns, and each of them is one atomic call. -/

import RustEvents.Queue.Jobs
import RustEvents.Worker.Atomicity

set_option autoImplicit false
set_option relaxedAutoImplicit false

namespace RustEvents.Queue.Turns

open RustEvents.Foundation.LabelledRuns
open RustEvents.Foundation.Projections
open RustEvents.Model.Errors
open RustEvents.Model.Schema
open RustEvents.Model.Builder
open RustEvents.Model.Runtime
open RustEvents.Worker.Steps
open RustEvents.Worker.Superseded
open RustEvents.Worker.Independence
open RustEvents.Worker.Atomicity
open RustEvents.Queue.Jobs

/-- The reaper takes a job back from a crashed worker only. Statements may fail and lose
their answers, and the attempts of other deliveries may overlap. -/
def patient (q : QueueState) : QueueLabel → Bool
  | .reap =>
    match q.job with
    | .running i => (q.processes.invocations[i]?).all fun inv => !inv.alive
    | _ => true
  | _ => true

def patientQueue : Machine QueueState QueueLabel := queue.restrict patient

/-- What a queue step is to the worker processes. -/
def workerLabel (env : HandlerEnvelope) : QueueLabel → Option WorkerLabel
  | .deliver rt ctx => some (.handOut rt env ctx)
  | .work a => some a
  | .settle => none
  | .reap => none

/-- The steps of the job's own attempts. -/
def attemptsOf (env : HandlerEnvelope) (as : List QueueLabel) : List WorkerLabel :=
  relabel (fun handed a => (workerLabel env a).elim handed (handedNext handed))
    (fun handed a => (workerLabel env a).bind (ownLabel env handed)) [] as

/-- An attempt that does not hold the lease takes no step any more. -/
def Exclusive (q : QueueState) : Prop :=
  ∀ (k : ℕ) (inv : Invocation), q.processes.invocations[k]? = some inv → inv.env = q.env →
    q.job ≠ .running k → Over inv

private theorem exclusive_start (db : Database) (env : HandlerEnvelope) :
    Exclusive (.start db env) := by
  intro k inv found
  simp [QueueState.start, WorkerState.start] at found

private theorem acting_open {s t : WorkerState} {a : WorkerLabel} (step : Step s a t) {i : ℕ}
    (own : actor a = some i) {inv : Invocation} (found : s.invocations[i]? = some inv) :
    ¬ Over inv := by
  have same : ∀ {inv' : Invocation}, s.invocations[i]? = some inv' → inv' = inv :=
    fun found' => Option.some.inj (found'.symm.trans found)
  cases step with
  | handOut => cases own
  | claim j inv' now reply found' alive phase =>
    cases own
    cases same found'
    exact not_over alive (by simp [phase])
  | handler j inv' world handler payload hctx found' alive phase =>
    cases own
    cases same found'
    exact not_over alive (by simp [phase])
  | mark j inv' now reply mark verdict found' alive phase =>
    cases own
    cases same found'
    exact not_over alive (by simp [phase])
  | crash => cases own

private theorem stays_over {s t : WorkerState} {a : WorkerLabel} (step : Step s a t) {k : ℕ}
    {inv inv' : Invocation} (before : s.invocations[k]? = some inv) (final : Over inv)
    (after : t.invocations[k]? = some inv') : Over inv' := by
  have idle : actor a ≠ some k := fun own => acting_open step own before final
  have bystands : ∀ {i : ℕ} {acting : Invocation} {progress : Progress},
      s.invocations[i]? = some acting → i ≠ k →
      (s.setPhase i acting progress)[k]? = some inv' → Over inv' := by
    intro i acting progress found other eqn
    rw [setPhase_get found, if_neg other, before] at eqn
    cases eqn
    exact final
  cases step with
  | handOut rt env ctx =>
    rw [handOut_keeps before] at after
    cases after
    exact final
  | claim i acting now reply found =>
    exact bystands found (fun same => idle (congrArg some same)) after
  | handler i acting world handler payload hctx found =>
    exact bystands found (fun same => idle (congrArg some same)) after
  | mark i acting now reply mark verdict found =>
    exact bystands found (fun same => idle (congrArg some same)) after
  | crash i acting found =>
    rw [crashed_get found] at after
    split at after
    · cases after
      exact .inl rfl
    · rw [before] at after
      cases after
      exact final

private theorem exclusive_step {q q' : QueueState} {a : QueueLabel} (exclusive : Exclusive q)
    (taken : patientQueue.step q a = some q') : Exclusive q' := by
  obtain ⟨waits, taken⟩ := Machine.restrict_step.mp taken
  have step := queueStep_sound taken
  intro k inv found own idle
  cases step with
  | deliver rt ctx pending w step =>
    cases step with
    | handOut =>
      rcases handOut_get found with old | ⟨rfl, -⟩
      · exact exclusive k inv old own (by rw [pending]; simp)
      · exact absurd rfl idle
  | work a other w step =>
    rcases origin step found with ⟨inv', before, same⟩ | ⟨rt, ctx, rfl⟩
    · exact stays_over step before (exclusive k inv' before (same.trans own) idle) found
    · simp [handsOut, own] at other
  | settle i settling verdict running present alive phase =>
    by_cases same : i = k
    · subst same
      cases Option.some.inj (present.symm.trans found)
      exact .inr ⟨verdict, phase⟩
    · refine exclusive k inv found own ?_
      rw [running]
      exact fun eqn => same (JobStatus.running.inj eqn)
  | reap i running =>
    by_cases same : i = k
    · subst same
      simp only [patient, running, show q.processes.invocations[i]? = some inv from found,
        Option.all_some, Bool.not_eq_true'] at waits
      exact .inl waits
    · refine exclusive k inv found own ?_
      rw [running]
      exact fun eqn => same (JobStatus.running.inj eqn)

private theorem claimer {s t : WorkerState} {i : ℕ} {now : Timestamp} {reply : Reply}
    (step : Step s (.claim i now reply) t) {inv : Invocation}
    (found : s.invocations[i]? = some inv) : inv.alive = true ∧ inv.phase = .claiming := by
  cases step with
  | claim _ acting _ _ present alive phase =>
    cases Option.some.inj (found.symm.trans present)
    exact ⟨alive, phase⟩

private theorem claims_alone {q : QueueState} (exclusive : Exclusive q) {i : ℕ} {inv : Invocation}
    (found : q.processes.invocations[i]? = some inv) (own : inv.env = q.env)
    (alive : inv.alive = true) (phase : inv.phase = .claiming) :
    occupied q.processes q.env = false := by
  by_contra taken
  obtain ⟨k, other, present, same, flying⟩ := occupied_iff.mp (by simpa using taken)
  have holder : ∀ {j : ℕ} {inv : Invocation}, q.processes.invocations[j]? = some inv →
      inv.env = q.env → ¬ Over inv → q.job = .running j := by
    intro j inv found own acting
    by_contra idle
    exact acting (exclusive j inv found own idle)
  have first := holder found own (not_over alive (by simp [phase]))
  have second := holder present same fun final => by
    rw [rests_of_over final] at flying
    cases flying
  have index : i = k := JobStatus.running.inj (first.symm.trans second)
  subst index
  cases Option.some.inj (found.symm.trans present)
  simp [inFlight, phase] at flying

private theorem processes_step {q q' : QueueState} {a : QueueLabel} (step : QueueStep q a q') :
    q'.env = q.env ∧
      ((∃ b, workerLabel q.env a = some b ∧ Step q.processes b q'.processes) ∨
        (workerLabel q.env a = none ∧ q'.processes = q.processes)) := by
  cases step with
  | deliver rt ctx pending w step => exact ⟨rfl, .inl ⟨_, rfl, step⟩⟩
  | work a other w step => exact ⟨rfl, .inl ⟨a, rfl, step⟩⟩
  | settle => exact ⟨rfl, .inr ⟨rfl, rfl⟩⟩
  | reap => exact ⟨rfl, .inr ⟨rfl, rfl⟩⟩

private theorem own_orderly {env : HandlerEnvelope} {handed : List HandlerEnvelope}
    {s u : WorkerState} {a b : WorkerLabel} (follows : Follows env handed s u)
    (label : ownLabel env handed a = some b)
    (free : ∀ (i : ℕ) (now : Timestamp) (reply : Reply) (inv : Invocation),
      a = .claim i now reply → s.invocations[i]? = some inv → inv.env = env →
      occupied s env = false) : oneAtATime u b = true := by
  have members : ∀ inv ∈ u.invocations, inv ∈ s.invocations ∧ inv.env = env := by
    intro inv mem
    rw [follows.invocations] at mem
    simpa using List.mem_filter.mp mem
  cases a with
  | handOut rt e ctx =>
    simp only [ownLabel] at label
    split at label <;> cases label
    rfl
  | handler i world =>
    obtain ⟨j, -, rfl⟩ := Option.map_eq_some_iff.mp label
    rfl
  | mark i now reply =>
    obtain ⟨j, -, rfl⟩ := Option.map_eq_some_iff.mp label
    rfl
  | crash i =>
    obtain ⟨j, -, rfl⟩ := Option.map_eq_some_iff.mp label
    rfl
  | claim i now reply =>
    obtain ⟨j, index, rfl⟩ := Option.map_eq_some_iff.mp label
    have handedOut : handed[i]? = some env := by
      by_contra other
      rw [ownIndex, if_neg other] at index
      cases index
    rw [← follows.handed, List.getElem?_map] at handedOut
    obtain ⟨inv, found, own⟩ := Option.map_eq_some_iff.mp handedOut
    have unoccupied := free i now reply inv rfl found own
    have rests : occupied u env = false := by
      by_contra taken
      obtain ⟨k, other, present, same, flying⟩ := occupied_iff.mp (by simpa using taken)
      obtain ⟨l, here⟩ := List.mem_iff_getElem?.mp (members other (List.mem_of_getElem? present)).1
      rw [not_occupied unoccupied here same] at flying
      cases flying
    simp only [oneAtATime]
    cases present : u.invocations[j]? with
    | none => rfl
    | some own' =>
      rw [Option.all_some, (members own' (List.mem_of_getElem? present)).2, rests]
      rfl

private theorem orderly_one {u v : WorkerState} {label : Option WorkerLabel}
    (run : worker.run u label.toList = some v)
    (orderly : ∀ b, label = some b → oneAtATime u b = true) :
    orderlyWorker.run u label.toList = some v := by
  cases label with
  | none => exact run
  | some b =>
    obtain ⟨w, step, rest⟩ := Machine.run_cons.mp run
    exact Machine.run_cons.mpr ⟨w, Machine.restrict_step.mpr ⟨orderly b rfl, step⟩, rest⟩

/-- The job's run beside the run of its own attempts. -/
structure Beside (env : HandlerEnvelope) (handed : List HandlerEnvelope) (q : QueueState)
    (u : WorkerState) : Prop where
  own : q.env = env
  exclusive : Exclusive q
  follows : Follows env handed q.processes u

private theorem beside_step {env : HandlerEnvelope} {handed : List HandlerEnvelope}
    {q q' : QueueState} {u : WorkerState} {a : QueueLabel} (beside : Beside env handed q u)
    (taken : patientQueue.step q a = some q') :
    ∃ v, orderlyWorker.run u ((workerLabel env a).bind (ownLabel env handed)).toList = some v ∧
      Beside env ((workerLabel env a).elim handed (handedNext handed)) q' v := by
  obtain ⟨rfl, exclusive, follows⟩ := beside
  have exclusive' := exclusive_step exclusive taken
  obtain ⟨same, work | ⟨quiet, kept⟩⟩ :=
    processes_step (queueStep_sound (Machine.restrict_step.mp taken).2)
  · obtain ⟨b, label, step⟩ := work
    obtain ⟨v, own, follows'⟩ := follows_step follows (step_complete step)
    refine ⟨v, ?_, same, exclusive', ?_⟩
    · rw [label]
      refine orderly_one own fun c own' => own_orderly follows own' ?_
      rintro i now reply inv rfl found mine
      obtain ⟨alive, phase⟩ := claimer step found
      exact claims_alone exclusive found mine alive phase
    · rw [label]
      exact follows'
  · rw [quiet]
    exact ⟨u, rfl, same, exclusive', by rw [kept]; exact follows⟩

/-- Whatever other deliveries do, a job that is taken back from crashed workers only is worked
off in atomic calls, one after another: its row and the verdicts of its attempts are theirs. -/
theorem attempts_are_atomic (db : Database) (env : HandlerEnvelope) (as : List QueueLabel)
    (q : QueueState) (run : patientQueue.run (.start db env) as = some q) :
    ∃ u, orderlyWorker.run (.start db) (attemptsOf env as) = some u ∧
      u.db.delivery? env = q.processes.db.delivery? env ∧
      (u.invocations = q.processes.invocations.filter fun inv => inv.env = env) ∧
      Atomic db (attemptsOf env as) u := by
  have start : Beside env [] (.start db env) (.start db) :=
    ⟨rfl, exclusive_start db env, rfl, ⟨rfl, rfl, rfl⟩, rfl⟩
  obtain ⟨u, own, beside⟩ := run_relabel (fun _ _ _ _ _ => beside_step) start run
  exact ⟨u, own, beside.follows.alike.row, beside.follows.invocations,
    atomic_of_serial own (serial_run (run_foretold own) own)⟩

/-- A crash in mid-attempt, the repetition, and a second delivery with overlapping attempts. -/
def crowdedRun : List QueueLabel :=
  [.deliver sampleRuntime (sampleContext 1 101#128),
   .work (.handOut sampleRuntime orphanEnv (sampleContext 1 102#128)),
   .work (.handOut sampleRuntime orphanEnv (sampleContext 2 103#128)),
   .work (.claim 0 1 .answered), .work (.claim 1 2 .answered), .work (.claim 2 3 .answered),
   .work (.crash 0), .reap, .deliver sampleRuntime (sampleContext 2 104#128),
   .work (.claim 3 4 .answered), .work (.mark 1 5 .answered), .work (.handler 3 0),
   .work (.mark 3 6 .answered), .settle]

theorem crowded_attempts_are_atomic :
    ∃ q, patientQueue.run (.start splitDatabase sampleEnv) crowdedRun = some q ∧
      q.job = .done ∧
      (finished splitDatabase (attemptsOf sampleEnv crowdedRun)).map Attempt.number = [0, 1] ∧
      ∃ u, orderlyWorker.run (.start splitDatabase) (attemptsOf sampleEnv crowdedRun) = some u ∧
        u.db.delivery? sampleEnv = q.processes.db.delivery? sampleEnv ∧
        (u.invocations = q.processes.invocations.filter fun inv => inv.env = sampleEnv) ∧
        Atomic splitDatabase (attemptsOf sampleEnv crowdedRun) u := by
  have ends : ((patientQueue.run (.start splitDatabase sampleEnv) crowdedRun).map fun q => q.job) =
      some .done := by decide
  obtain ⟨q, run, job⟩ := Option.map_eq_some_iff.mp ends
  exact ⟨q, run, job, by decide, attempts_are_atomic splitDatabase sampleEnv crowdedRun q run⟩

end RustEvents.Queue.Turns
