/- module: RustEvents/Queue/Budget
   layer: system
   source: src/runtime.rs (handle_envelope), src/builder.rs (OutboxConfig max_attempts)
   digest: How often a handler can be called for one delivery: max_attempts times, and once more for every lease that was reaped. -/

import RustEvents.Foundation.Records
import RustEvents.Queue.Jobs
import RustEvents.Worker.Invocations
import RustEvents.Worker.Origins

set_option autoImplicit false
set_option relaxedAutoImplicit false

namespace RustEvents.Queue.Budget

open RustEvents.Foundation.LabelledRuns
open RustEvents.Model.Errors
open RustEvents.Model.Schema
open RustEvents.Model.Builder
open RustEvents.Model.Runtime
open RustEvents.Worker.Steps
open RustEvents.Worker.Invocations
open RustEvents.Worker.Origins
open RustEvents.Worker.Superseded
open RustEvents.Queue.Jobs

/-- The hand-outs of a job in their order, by what the queue gave them. -/
def contexts (env : HandlerEnvelope) (s : WorkerState) : List JobContext :=
  (s.invocations.filter fun inv => inv.env = env).map Invocation.ctx

/-- The attempt number of the latest hand-out. -/
def lastAttempt (ctxs : List JobContext) : ℕ :=
  (ctxs.getLast?.map fun ctx => ctx.attempt.toNat).getD 0

/-- The queue numbers the hand-outs of a job upwards from 1, under one maximum. -/
def numbered (maxAttempts : UInt32) (q : QueueState) : QueueLabel → Bool
  | .deliver _ ctx =>
    ctx.maxAttempts = maxAttempts &&
      lastAttempt (contexts q.env q.processes) < ctx.attempt.toNat
  | _ => true

def numberedQueue (maxAttempts : UInt32) : Machine QueueState QueueLabel :=
  queue.restrict (numbered maxAttempts)

/-- What is counted: the calls of the job's handler, and the leases that were reaped. -/
inductive Counted where
  | call
  | reap
  deriving DecidableEq

/-- A call counts from the claim that starts it, so that one that a crash cuts short counts too. -/
def counted (q : QueueState) : QueueLabel → QueueState → List Counted
  | .work (.claim i _ _), q' =>
    ((q'.processes.invocations[i]?).filter fun inv =>
      inv.env = q.env && (handlerContext? inv).isSome).toList.map fun _ => .call
  | .reap, _ => [.reap]
  | _, _ => []

def pastClaim : Phase → Bool
  | .claiming => false
  | .claimed _ => true

/-- The invocations of the job whose claim has executed. -/
def claims (env : HandlerEnvelope) (s : WorkerState) : ℕ :=
  s.invocations.countP fun inv => inv.env = env && pastClaim inv.phase

/-- The budget that is spent so far, by the status of the job. -/
def allowance (maxAttempts : UInt32) (reaps : ℕ) (q : QueueState) : ℕ :=
  match q.job with
  | .pending => min (lastAttempt (contexts q.env q.processes)) (maxAttempts.toNat - 1) + reaps
  | .running _ => min (lastAttempt (contexts q.env q.processes)) maxAttempts.toNat + reaps
  | .done => maxAttempts.toNat + reaps
  | .dead => maxAttempts.toNat + reaps

structure Budgeted (maxAttempts : UInt32) (past : List Counted) (q : QueueState) : Prop where
  limit : ∀ ctx ∈ contexts q.env q.processes, ctx.maxAttempts = maxAttempts
  calls : past.count .call ≤ claims q.env q.processes
  hands : (contexts q.env q.processes).length ≤ allowance maxAttempts (past.count .reap) q
  current : ∀ i, q.job = .running i → ∃ inv, q.processes.invocations[i]? = some inv ∧
    (contexts q.env q.processes).getLast? = some inv.ctx

private theorem contexts_set {s : WorkerState} {i : ℕ} {inv inv' : Invocation} {db : Database}
    {history : List Executed} (found : s.invocations[i]? = some inv) (env : HandlerEnvelope)
    (sameEnv : inv'.env = inv.env) (sameCtx : inv'.ctx = inv.ctx) :
    contexts env ⟨db, s.invocations.set i inv', history⟩ = contexts env s := by
  unfold contexts
  change List.map _ (List.filter _ (s.invocations.set i inv')) = _
  generalize s.invocations = l at found
  induction l generalizing i with
  | nil => rfl
  | cons head l ih =>
    cases i with
    | zero =>
      cases Option.some.inj found
      rw [List.set_cons_zero]
      by_cases own : inv.env = env
      · rw [List.filter_cons_of_pos (by simpa [sameEnv] using own),
          List.filter_cons_of_pos (by simpa using own), List.map_cons, List.map_cons, sameCtx]
      · rw [List.filter_cons_of_neg (by simpa [sameEnv] using own),
          List.filter_cons_of_neg (by simpa using own)]
    | succ i =>
      have later := ih (i := i) found
      rw [List.set_cons_succ]
      by_cases own : head.env = env
      · rw [List.filter_cons_of_pos (by simpa using own),
          List.filter_cons_of_pos (by simpa using own), List.map_cons, List.map_cons, later]
      · rw [List.filter_cons_of_neg (by simpa using own),
          List.filter_cons_of_neg (by simpa using own), later]

private theorem contexts_append (env : HandlerEnvelope) (s : WorkerState) (inv : Invocation) :
    contexts env { s with invocations := s.invocations ++ [inv] } =
      contexts env s ++ if inv.env = env then [inv.ctx] else [] := by
  unfold contexts
  rw [List.filter_append, List.map_append]
  congr 1
  by_cases own : inv.env = env <;> simp [own]

private theorem contexts_work {s t : WorkerState} {a : WorkerLabel} {env : HandlerEnvelope}
    (step : Step s a t) (other : handsOut env a = false) : contexts env t = contexts env s := by
  cases step with
  | handOut rt env' ctx =>
    have apart : env' ≠ env := by simpa [handsOut] using other
    rw [contexts_append]
    simp [apart]
  | claim i inv now reply found => exact contexts_set found env rfl rfl
  | handler i inv world handler payload hctx found => exact contexts_set found env rfl rfl
  | mark i inv now reply mark verdict found => exact contexts_set found env rfl rfl
  | crash i inv found => exact contexts_set found env rfl rfl

private theorem claims_set {s : WorkerState} {i : ℕ} {inv : Invocation} (env : HandlerEnvelope)
    (inv' : Invocation) (db : Database) (history : List Executed)
    (found : s.invocations[i]? = some inv) :
    claims env ⟨db, s.invocations.set i inv', history⟩ +
        (if inv.env = env && pastClaim inv.phase then 1 else 0) =
      claims env s + if inv'.env = env && pastClaim inv'.phase then 1 else 0 := by
  obtain ⟨inside, here⟩ := List.getElem?_eq_some_iff.mp found
  unfold claims
  change List.countP _ (s.invocations.set i inv') + _ = _
  rw [List.countP_set inside, here]
  by_cases before : (decide (inv.env = env) && pastClaim inv.phase) = true
  · have positive : 0 < s.invocations.countP
        fun inv => decide (inv.env = env) && pastClaim inv.phase :=
      List.countP_pos_iff.mpr ⟨inv, List.mem_of_getElem? found, before⟩
    rw [if_pos before]
    omega
  · rw [if_neg before]
    omega

private theorem claims_kept {s : WorkerState} {i : ℕ} {inv inv' : Invocation}
    (env : HandlerEnvelope)
    {db : Database} {history : List Executed} (found : s.invocations[i]? = some inv)
    (sameEnv : inv'.env = inv.env) (samePast : pastClaim inv'.phase = pastClaim inv.phase) :
    claims env ⟨db, s.invocations.set i inv', history⟩ = claims env s := by
  have moved := claims_set env inv' db history found
  rw [sameEnv, samePast] at moved
  exact Nat.add_right_cancel moved

private theorem counted_claim {q q' : QueueState} {i : ℕ} {now : Timestamp} {reply : Reply}
    {inv : Invocation} (after : q'.processes.invocations[i]? = some inv) :
    (counted q (.work (.claim i now reply)) q').count .call ≤
      if inv.env = q.env then 1 else 0 := by
  change (((q'.processes.invocations[i]?).filter fun inv =>
    decide (inv.env = q.env) && (handlerContext? inv).isSome).toList.map fun _ =>
      Counted.call).count .call ≤ _
  rw [after]
  by_cases own : inv.env = q.env
  · rw [if_pos own]
    refine Nat.le_trans List.count_le_length ?_
    rw [List.length_map]
    exact Option.length_toList_le
  · rw [if_neg own]
    simp [Option.filter, own]

/-- Whatever the workers do, a claim that is over stays over, and a claim that starts the
handler is one more of them. -/
private theorem claims_work {q : QueueState} {t : WorkerState} {a : WorkerLabel}
    (step : Step q.processes a t) :
    claims q.env q.processes + (counted q (.work a) { q with processes := t }).count .call ≤
      claims q.env t := by
  cases step with
  | handOut rt env ctx =>
    unfold claims
    change List.countP _ _ + 0 ≤ List.countP _ (q.processes.invocations ++ [_])
    rw [List.countP_append]
    exact Nat.le_add_right _ _
  | claim i inv now reply found alive phase =>
    have moved := claims_set q.env { inv with phase := .claimed (afterClaim inv.runtime inv.env
      inv.ctx (reply.answer q.processes.db (claimStatement inv.env inv.ctx now))) }
      (q.processes.claimed i inv now reply).db (q.processes.claimed i inv now reply).history found
    have before : (decide (inv.env = q.env) && pastClaim inv.phase) = false := by
      rw [phase, Bool.and_eq_false_iff]
      exact .inr rfl
    rw [before] at moved
    change claims q.env (q.processes.claimed i inv now reply) + 0 =
      _ + (if decide (inv.env = q.env) && true then 1 else 0) at moved
    rw [Bool.and_true] at moved
    have after : (q.processes.claimed i inv now reply).invocations[i]? =
        some { inv with phase := .claimed (afterClaim inv.runtime inv.env inv.ctx
          (reply.answer q.processes.db (claimStatement inv.env inv.ctx now))) } :=
      List.getElem?_set_self (lt_of_found found)
    have called : (counted q (.work (.claim i now reply))
        { q with processes := q.processes.claimed i inv now reply }).count .call ≤
          if inv.env = q.env then 1 else 0 := by
      refine Nat.le_trans (counted_claim after) ?_
      exact Nat.le_refl _
    simp only [decide_eq_true_eq] at moved
    change _ + _ ≤ claims q.env (q.processes.claimed i inv now reply)
    omega
  | handler i inv world handler payload hctx found alive phase =>
    refine Nat.le_of_eq (Eq.symm ?_)
    exact claims_kept q.env found rfl (by rw [phase]; rfl)
  | mark i inv now reply mark verdict found alive phase =>
    refine Nat.le_of_eq (Eq.symm ?_)
    exact claims_kept q.env found rfl (by rw [phase]; rfl)
  | crash i inv found alive =>
    refine Nat.le_of_eq (Eq.symm ?_)
    exact claims_kept q.env found rfl rfl

private theorem budgeted_start {db : Database} (env : HandlerEnvelope) (maxAttempts : UInt32) :
    Budgeted maxAttempts [] (.start db env) := by
  refine ⟨?_, Nat.zero_le _, Nat.zero_le _, ?_⟩
  · intro ctx mem
    cases mem
  · intro i running
    cases running

private theorem lastAttempt_append (ctxs : List JobContext) (ctx : JobContext) :
    lastAttempt (ctxs ++ [ctx]) = ctx.attempt.toNat := by
  unfold lastAttempt
  rw [List.getLast?_append]
  rfl

variable {maxAttempts : UInt32} {past : List Counted} {q : QueueState}

private theorem budgeted_deliver {rt : OutboxRuntime} {ctx : JobContext} {w : WorkerState}
    (positive : 1 ≤ maxAttempts.toNat) (budgeted : Budgeted maxAttempts past q)
    (allowed : numbered maxAttempts q (.deliver rt ctx) = true) (pending : q.job = .pending)
    (step : Step q.processes (.handOut rt q.env ctx) w) :
    Budgeted maxAttempts past
      { q with job := .running q.processes.invocations.length, processes := w } := by
  have before : contexts q.env w = contexts q.env q.processes ++ [ctx] := by
    cases step
    rw [contexts_append, if_pos rfl]
  unfold numbered at allowed
  rw [Bool.and_eq_true, decide_eq_true_eq, decide_eq_true_eq] at allowed
  obtain ⟨limit, climbs⟩ := allowed
  refine ⟨?_, ?_, ?_, ?_⟩
  · intro ctx' mem
    change ctx' ∈ contexts q.env w at mem
    rw [before] at mem
    rcases List.mem_append.mp mem with old | new
    · exact budgeted.limit ctx' old
    · rw [List.mem_singleton.mp new]
      exact limit
  · exact Nat.le_trans budgeted.calls (Nat.le_trans (Nat.le_add_right _ _) (claims_work step))
  · have hands := budgeted.hands
    simp only [allowance, pending] at hands
    change (contexts q.env w).length ≤
      min (lastAttempt (contexts q.env w)) maxAttempts.toNat + past.count .reap
    rw [before, lastAttempt_append, List.length_append, List.length_singleton]
    omega
  · intro i running
    have last : q.processes.invocations.length = i := JobStatus.running.inj running
    cases step
    refine ⟨⟨rt, q.env, ctx, .claiming, true⟩, ?_, ?_⟩
    · change (q.processes.invocations ++ [_])[i]? = _
      rw [← last]
      simp
    · change (contexts q.env _).getLast? = some ctx
      rw [before, List.getLast?_append]
      rfl

private theorem budgeted_work {a : WorkerLabel} {w : WorkerState}
    (budgeted : Budgeted maxAttempts past q)
    (other : handsOut q.env a = false) (step : Step q.processes a w) :
    Budgeted maxAttempts (past ++ counted q (.work a) { q with processes := w })
      { q with processes := w } := by
  have same : contexts q.env w = contexts q.env q.processes := contexts_work step other
  have reaps : (counted q (.work a) { q with processes := w }).count .reap = 0 := by
    rw [List.count_eq_zero]
    unfold counted
    split
    · intro mem
      obtain ⟨inv, -, wrong⟩ := List.mem_map.mp mem
      cases wrong
    · next wrong => cases wrong
    · exact List.not_mem_nil
  refine ⟨?_, ?_, ?_, ?_⟩
  · intro ctx mem
    change ctx ∈ contexts q.env w at mem
    rw [same] at mem
    exact budgeted.limit ctx mem
  · rw [List.count_append]
    exact Nat.le_trans (Nat.add_le_add_right budgeted.calls _) (claims_work step)
  · rw [List.count_append, reaps, Nat.add_zero]
    have hands := budgeted.hands
    change (contexts q.env w).length ≤
      allowance maxAttempts (past.count .reap) { q with processes := w }
    unfold allowance at hands ⊢
    simp only [same]
    exact hands
  · intro i running
    obtain ⟨inv, found, last⟩ := budgeted.current i running
    obtain ⟨inv', found', -, ctx⟩ := identity_kept step found
    refine ⟨inv', found', ?_⟩
    change (contexts q.env w).getLast? = _
    rw [same, ctx]
    exact last

private theorem settled_not_running (ctx : JobContext) (verdict : Verdict) (j : ℕ) :
    settled ctx verdict ≠ .running j := by
  intro current
  cases verdict with
  | none => cases current
  | some err =>
    cases err with
    | abort reason => cases current
    | retry reason retryIn =>
      change (if ctx.attempt ≥ ctx.maxAttempts then JobStatus.dead else .pending) = .running j
        at current
      split at current <;> cases current

private theorem allowance_settle (verdict : Verdict) {reaps : ℕ} {ctx : JobContext}
    (limit : ctx.maxAttempts = maxAttempts)
    (attempt : lastAttempt (contexts q.env q.processes) = ctx.attempt.toNat) :
    min (lastAttempt (contexts q.env q.processes)) maxAttempts.toNat + reaps ≤
      allowance maxAttempts reaps { q with job := settled ctx verdict } := by
  -- An attempt that the queue settles was within the budget: only one below the maximum gives
  -- the job back.
  unfold allowance
  cases verdict with
  | none =>
    change _ ≤ maxAttempts.toNat + _
    omega
  | some err =>
    cases err with
    | abort reason =>
      change _ ≤ maxAttempts.toNat + _
      omega
    | retry reason retryIn =>
      by_cases final : ctx.attempt ≥ ctx.maxAttempts
      · have dead : settled ctx (some (.retry reason retryIn)) = .dead := if_pos final
        rw [dead]
        change _ ≤ maxAttempts.toNat + _
        omega
      · have again : settled ctx (some (.retry reason retryIn)) = .pending := if_neg final
        rw [again]
        change _ ≤ min (lastAttempt (contexts q.env q.processes)) (maxAttempts.toNat - 1) + _
        rw [limit] at final
        have below := UInt32.lt_iff_toNat_lt.mp (UInt32.not_le.mp final)
        omega

private theorem budgeted_settle {i : ℕ} {inv : Invocation} (verdict : Verdict)
    (budgeted : Budgeted maxAttempts past q) (running : q.job = .running i)
    (found : q.processes.invocations[i]? = some inv) :
    Budgeted maxAttempts past { q with job := settled inv.ctx verdict } := by
  obtain ⟨inv', found', last⟩ := budgeted.current i running
  rw [found] at found'
  cases Option.some.inj found'
  have attempt : lastAttempt (contexts q.env q.processes) = inv.ctx.attempt.toNat := by
    unfold lastAttempt
    rw [last]
    rfl
  have limit := budgeted.limit inv.ctx (List.mem_of_getLast? last)
  have hands := budgeted.hands
  simp only [allowance, running] at hands
  refine ⟨budgeted.limit, budgeted.calls, ?_, ?_⟩
  · exact Nat.le_trans hands (allowance_settle verdict limit attempt)
  · intro j current
    exact absurd current (settled_not_running inv.ctx verdict j)

private theorem budgeted_reap {i : ℕ} (positive : 1 ≤ maxAttempts.toNat)
    (budgeted : Budgeted maxAttempts past q) (running : q.job = .running i) :
    Budgeted maxAttempts (past ++ [.reap]) { q with job := .pending } := by
  -- A reaped lease pays for the hand-out that comes after it.
  have more : (past ++ [Counted.reap]).count .reap = past.count .reap + 1 := by
    rw [List.count_append]
    rfl
  have hands := budgeted.hands
  simp only [allowance, running] at hands
  refine ⟨budgeted.limit, ?_, ?_, ?_⟩
  · rw [List.count_append]
    exact budgeted.calls
  · rw [more]
    change (contexts q.env q.processes).length ≤
      min (lastAttempt (contexts q.env q.processes)) (maxAttempts.toNat - 1) +
        (past.count .reap + 1)
    omega
  · intro j current
    cases current

private theorem budgeted_step (positive : 1 ≤ maxAttempts.toNat) {q' : QueueState} {a : QueueLabel}
    (budgeted : Budgeted maxAttempts past q) (allowed : numbered maxAttempts q a = true)
    (step : QueueStep q a q') : Budgeted maxAttempts (past ++ counted q a q') q' := by
  cases step with
  | deliver rt ctx pending w step =>
    have nothing : counted q (.deliver rt ctx)
        { q with job := .running q.processes.invocations.length, processes := w } = [] := rfl
    rw [nothing, List.append_nil]
    exact budgeted_deliver positive budgeted allowed pending step
  | work a other w step => exact budgeted_work budgeted other step
  | settle i inv verdict running found alive phase =>
    have nothing : counted q .settle { q with job := settled inv.ctx verdict } = [] := rfl
    rw [nothing, List.append_nil]
    exact budgeted_settle verdict budgeted running found
  | reap i running => exact budgeted_reap positive budgeted running

/-- What has happened to a job so far, of the things that are counted. -/
def tallied (maxAttempts : UInt32) (db : Database) (env : HandlerEnvelope) (as : List QueueLabel) :
    List Counted :=
  (numberedQueue maxAttempts).record counted (.start db env) as

/-- The retry budget: in every run, with any interleaving of claims, crashes, reaps, lost
answers and SQL failures, the handler of a delivery is called at most `max_attempts` times,
and once more for every lease of the job that was reaped. A call that a crash cuts short is
one of them. -/
theorem handler_calls_bounded (positive : 1 ≤ maxAttempts.toNat) {db : Database}
    {env : HandlerEnvelope} {as : List QueueLabel}
    (reached : (numberedQueue maxAttempts).run (.start db env) as = some q) :
    (tallied maxAttempts db env as).count .call ≤
      maxAttempts.toNat + (tallied maxAttempts db env as).count .reap := by
  have budgeted : Budgeted maxAttempts (tallied maxAttempts db env as) q := by
    refine Machine.record_invariant (I := Budgeted maxAttempts) ?_ (budgeted_start env maxAttempts)
      reached
    intro past p a p' budgeted taken
    obtain ⟨allowed, inner⟩ := Machine.restrict_step.mp taken
    exact budgeted_step positive budgeted allowed (queueStep_sound inner)
  have calls := budgeted.calls
  have hands := budgeted.hands
  have within : claims q.env q.processes ≤ (contexts q.env q.processes).length := by
    unfold claims contexts
    rw [List.length_map, ← List.countP_eq_length_filter]
    apply List.countP_mono_left
    intro inv _ both
    exact (Bool.and_eq_true _ _ ▸ both).1
  have spent : allowance maxAttempts ((tallied maxAttempts db env as).count .reap) q ≤
      maxAttempts.toNat + (tallied maxAttempts db env as).count .reap := by
    unfold allowance
    split <;> omega
  omega

/-- The first call is cut short by a crash of its worker, the second one ends in success. -/
def calledTwice : List QueueLabel :=
  [.deliver sampleRuntime (sampleContext 1 101#128), .work (.claim 0 1 .answered),
    .work (.crash 0), .reap,
    .deliver sampleRuntime (sampleContext 2 102#128), .work (.claim 1 2 .answered),
    .work (.handler 1 0)]

theorem handler_calls_bounded_twice :
    ∃ q, (numberedQueue 5).run (.start sampleDatabase sampleEnv) calledTwice = some q ∧
      (tallied 5 sampleDatabase sampleEnv calledTwice).count .call ≤
        5 + (tallied 5 sampleDatabase sampleEnv calledTwice).count .reap := by
  have runs : ((numberedQueue 5).run (.start sampleDatabase sampleEnv) calledTwice).isSome = true := by
    decide
  obtain ⟨q, reached⟩ := Option.isSome_iff_exists.mp runs
  exact ⟨q, reached, handler_calls_bounded (by decide) reached⟩

end RustEvents.Queue.Budget
