/- module: RustEvents/Worker/Fencing
   layer: refinement
   source: src/runtime.rs, README.md (Fencing tokens)
   digest: The invocations of one delivery refine the fenced cell; what the lease token protects and what it does not. -/

import RustEvents.Foundation.FencedCell
import RustEvents.Foundation.Projections
import RustEvents.Worker.Steps

set_option autoImplicit false
set_option relaxedAutoImplicit false

namespace RustEvents.Worker.Fencing

open RustEvents.Foundation.LabelledRuns
open RustEvents.Foundation.FencedCell
open RustEvents.Foundation.Projections (map_set_same)
open RustEvents.Model.Errors
open RustEvents.Model.Schema
open RustEvents.Model.Runtime
open RustEvents.Worker.Statements
open RustEvents.Worker.Steps

/-- `pg_work_queue` gives every claim of a job a lease token of its own. -/
def freshToken (s : WorkerState) : WorkerLabel → Bool
  | .handOut _ env ctx =>
    s.invocations.all fun inv => !(inv.env = env && inv.ctx.leaseToken = ctx.leaseToken)
  | _ => true

def fencedWorker : Machine WorkerState WorkerLabel := worker.restrict freshToken

def stampedBy (env : HandlerEnvelope) : Executed → Option ℕ
  | .claim i claimed true => if claimed = env then some i else none
  | _ => none

def markedBy (env : HandlerEnvelope) : Executed → Option ℕ
  | .mark i marked => if marked = env then some i else none
  | _ => none

/-- The invocation whose claim stamped the row of `env` most recently. -/
def lastStamper (env : HandlerEnvelope) (s : WorkerState) : Option ℕ :=
  (s.history.filterMap (stampedBy env)).head?

/-- A token of the abstract fence names its delivery, so that tokens of different
deliveries never meet. -/
abbrev Token := HandlerEnvelope × Uuid

def cellOf (env : HandlerEnvelope) : Option HandlerDelivery → Cell Token
  | none => ⟨none, true⟩
  | some r =>
    ⟨if r.status = .running then r.leaseToken.map (env, ·) else none, r.status.isTerminal⟩

def tokensOf (invocations : List Invocation) : List Token :=
  invocations.map fun inv => (inv.env, inv.ctx.leaseToken)

/-- What the fence of one delivery sees of the worker state. -/
def view (env : HandlerEnvelope) (s : WorkerState) : State Token where
  tokens := tokensOf s.invocations
  cell := cellOf env (s.db.delivery? env)
  stamped := s.history.filterMap (stampedBy env)
  released := s.history.filterMap (markedBy env)

/-- Whether the statement of a label is executed on the row of `env`. -/
def executes (env : HandlerEnvelope) (s : WorkerState) : WorkerLabel → Bool
  | .claim i now reply =>
    (s.invocations[i]?).any fun inv => inv.env = env && inv.claimExecutes s.db now reply
  | .mark i now reply =>
    (s.invocations[i]?).any fun inv => inv.env = env &&
      match inv.phase with
      | .claimed (.marking mark _) => inv.markExecutes mark s.db now reply
      | _ => false
  | _ => false

/-- Whether the mark that invocation `i` has decided on is terminal. -/
def closes (s : WorkerState) (i : ℕ) : Bool :=
  (s.invocations[i]?).any fun inv =>
    match inv.phase with
    | .claimed (.marking mark _) => mark.status.isTerminal
    | _ => false

/-- The operation of the abstract fence that a worker step performs. -/
def operation (env : HandlerEnvelope) (s : WorkerState) (a : WorkerLabel) : Op Token :=
  match a with
  | .handOut _ handed ctx => .issue (handed, ctx.leaseToken)
  | .claim i _ _ => if executes env s a then .stamp i else .idle
  | .mark i _ _ => if executes env s a then .release i (closes s i) else .idle
  | .handler _ _ => .idle
  | .crash _ => .idle

/-- Between its claim and its return, an invocation may still execute a mark. -/
def Phase.pending : Phase → Bool
  | .claiming => false
  | .claimed (.returned _) => false
  | .claimed _ => true

def Phase.started : Phase → Bool
  | .claiming => false
  | .claimed _ => true

def Phase.ended : Phase → Bool
  | .claimed (.returned _) => true
  | _ => false

/-- The history agrees with the phases of the invocations. -/
structure Tracked (s : WorkerState) : Prop where
  claimers : ∀ i env did, Executed.claim i env did ∈ s.history →
    ∃ inv, s.invocations[i]? = some inv ∧ inv.env = env ∧ Phase.started inv.phase = true
  stampers : ∀ i inv, s.invocations[i]? = some inv → Phase.pending inv.phase = true →
    Executed.claim i inv.env true ∈ s.history
  refusals : ∀ i env, Executed.claim i env false ∈ s.history →
    (s.db.delivery? env).all (·.status.isTerminal) = true
  markers : ∀ i env, Executed.mark i env ∈ s.history →
    ∃ inv, s.invocations[i]? = some inv ∧ Phase.ended inv.phase = true

private theorem tracked_start (db : Database) : Tracked (.start db) := by
  refine ⟨?_, ?_, ?_, ?_⟩ <;> simp [WorkerState.start]

theorem mem_stamped {s : WorkerState} {env : HandlerEnvelope} {i : ℕ} :
    i ∈ (view env s).stamped ↔ Executed.claim i env true ∈ s.history := by
  simp only [view, List.mem_filterMap]
  constructor
  · rintro ⟨entry, mem, hit⟩
    cases entry with
    | claim j claimed did =>
      cases did with
      | false => simp [stampedBy] at hit
      | true =>
        simp only [stampedBy, Option.ite_none_right_eq_some] at hit
        obtain ⟨rfl, rfl⟩ : claimed = env ∧ j = i := ⟨hit.1, Option.some.inj hit.2⟩
        exact mem
    | mark j marked => simp [stampedBy] at hit
  · intro mem
    exact ⟨_, mem, by simp [stampedBy]⟩

theorem mem_released {s : WorkerState} {env : HandlerEnvelope} {i : ℕ} :
    i ∈ (view env s).released ↔ Executed.mark i env ∈ s.history := by
  simp only [view, List.mem_filterMap]
  constructor
  · rintro ⟨entry, mem, hit⟩
    cases entry with
    | claim j claimed did => simp [markedBy] at hit
    | mark j marked =>
      simp only [markedBy, Option.ite_none_right_eq_some] at hit
      obtain ⟨rfl, rfl⟩ : marked = env ∧ j = i := ⟨hit.1, Option.some.inj hit.2⟩
      exact mem
  · intro mem
    exact ⟨_, mem, by simp [markedBy]⟩

private theorem afterClaim_quiet (rt : OutboxRuntime) (env : HandlerEnvelope) (ctx : JobContext)
    (e : SqlxError) : Phase.pending (.claimed (afterClaim rt env ctx (.error e))) = false := rfl

private theorem afterClaim_refused (rt : OutboxRuntime) (env : HandlerEnvelope)
    (ctx : JobContext) (db : Database) (prev : Option DeliveryStatus) :
    Phase.pending (.claimed (afterClaim rt env ctx
      (.ok (claimSelect db env.eventId prev false)))) = false := by
  cases event : db.event? env.eventId with
  | none => simp [claimSelect, event, afterClaim, Phase.pending]
  | some e =>
    cases prev with
    | none => simp [claimSelect, event, afterClaim, Phase.pending]
    | some status =>
      simp only [claimSelect, event, Option.map_some, afterClaim]
      split <;> rfl

private theorem stamped_of_pending (s : WorkerState) (i : ℕ) (inv : Invocation) (now : Timestamp)
    (reply : Reply)
    (pending : Phase.pending (.claimed (afterClaim inv.runtime inv.env inv.ctx
      (reply.answer s.db (claimStatement inv.env inv.ctx now)))) = true) :
    (s.claimed i inv now reply).history = .claim i inv.env true :: s.history := by
  cases claimed_effect s i inv now reply with
  | quiet e none failed db history =>
    rw [failed, afterClaim_quiet] at pending
    cases pending
  | refused done closed heard db history =>
    rcases heard with ok | ⟨e, lost⟩
    · rw [ok, afterClaim_refused] at pending
      cases pending
    · rw [lost, afterClaim_quiet] at pending
      cases pending
  | stamped r done found live heard rows history => exact history

private theorem tracked_setPhase {s t : WorkerState} (tracked : Tracked s) {i : ℕ}
    {inv : Invocation} {progress : Progress} (found : s.invocations[i]? = some inv)
    (acting : Phase.ended inv.phase = false)
    (invocations : t.invocations = s.setPhase i inv progress)
    (older : ∀ entry ∈ s.history, entry ∈ t.history)
    (newer : ∀ j env did, Executed.claim j env did ∈ t.history →
      Executed.claim j env did ∈ s.history ∨ j = i ∧ env = inv.env)
    (backed : Phase.pending (.claimed progress) = true →
      Executed.claim i inv.env true ∈ t.history)
    (refusals : ∀ j env, Executed.claim j env false ∈ t.history →
      (t.db.delivery? env).all (·.status.isTerminal) = true)
    (marks : ∀ j env, Executed.mark j env ∈ t.history →
      Executed.mark j env ∈ s.history ∨ j = i ∧ Phase.ended (.claimed progress) = true) :
    Tracked t := by
  -- Replacing the phase of an invocation keeps the history in step with the phases, as long as
  -- a phase that may still mark is backed by a stamp.
  refine ⟨?_, ?_, refusals, ?_⟩
  · intro j env did mem
    rw [invocations, setPhase_get found]
    by_cases same : i = j
    · subst same
      rw [if_pos rfl]
      refine ⟨_, rfl, ?_, rfl⟩
      rcases newer i env did mem with old | ⟨-, own⟩
      · obtain ⟨inv', found', own, -⟩ := tracked.claimers i env did old
        rw [found] at found'
        exact Option.some.inj found' ▸ own
      · exact own.symm
    · rw [if_neg same]
      rcases newer j env did mem with old | ⟨eqn, -⟩
      · exact tracked.claimers j env did old
      · exact absurd eqn.symm same
  · intro j inv' found' pending
    rw [invocations, setPhase_get found] at found'
    by_cases same : i = j
    · subst same
      rw [if_pos rfl] at found'
      cases Option.some.inj found'
      exact backed pending
    · rw [if_neg same] at found'
      exact older _ (tracked.stampers j inv' found' pending)
  · intro j env mem
    rw [invocations, setPhase_get found]
    rcases marks j env mem with old | ⟨rfl, ended⟩
    · obtain ⟨inv', found', ended⟩ := tracked.markers j env old
      have differ : i ≠ j := by
        rintro rfl
        rw [found] at found'
        rw [← Option.some.inj found', acting] at ended
        cases ended
      exact ⟨inv', by rw [if_neg differ]; exact found', ended⟩
    · exact ⟨_, if_pos rfl, ended⟩

private theorem tracked_claimed {s t : WorkerState} (tracked : Tracked s) {i : ℕ}
    {inv : Invocation} {progress : Progress} {did : Bool} (found : s.invocations[i]? = some inv)
    (acting : Phase.ended inv.phase = false)
    (invocations : t.invocations = s.setPhase i inv progress)
    (history : t.history = .claim i inv.env did :: s.history)
    (backed : Phase.pending (.claimed progress) = true →
      t.history = .claim i inv.env true :: s.history)
    (closed : ∀ j env, Executed.claim j env false ∈ s.history →
      (t.db.delivery? env).all (·.status.isTerminal) = true)
    (shut : did = false → (t.db.delivery? inv.env).all (·.status.isTerminal) = true) :
    Tracked t := by
  refine tracked_setPhase tracked found acting invocations ?_ ?_ ?_ ?_ ?_
  · intro entry mem
    rw [history]
    exact List.mem_cons_of_mem _ mem
  · intro j env did' mem
    rw [history] at mem
    rcases List.mem_cons.mp mem with eqn | old
    · cases eqn
      exact .inr ⟨rfl, rfl⟩
    · exact .inl old
  · intro pending
    rw [backed pending]
    exact List.mem_cons_self
  · intro j env mem
    rw [history] at mem
    rcases List.mem_cons.mp mem with eqn | old
    · cases eqn
      exact shut rfl
    · exact closed j env old
  · intro j env mem
    rw [history] at mem
    exact .inl ((List.mem_cons.mp mem).resolve_left (by simp))

private theorem tracked_mark {s : WorkerState} (tracked : Tracked s) {i : ℕ} {inv : Invocation}
    {now : Timestamp} {reply : Reply} {mark : Mark} {verdict : Verdict}
    (found : s.invocations[i]? = some inv) (acting : Phase.ended inv.phase = false)
    (closed : ∀ j env, Executed.claim j env false ∈ s.history →
      ((s.marked i inv mark verdict now reply).db.delivery? env).all (·.status.isTerminal) = true) :
    Tracked (s.marked i inv mark verdict now reply) := by
  have history : (s.marked i inv mark verdict now reply).history = s.history ∨
      (s.marked i inv mark verdict now reply).history = .mark i inv.env :: s.history := by
    cases marked_effect s i inv mark verdict now reply with
    | quiet e none failed db history => exact .inl history
    | fencedOut done free heard rows history => exact .inl history
    | effective r n done stored held heard rows history => exact .inr history
  have claims : ∀ j env did, Executed.claim j env did ∈
      (s.marked i inv mark verdict now reply).history → Executed.claim j env did ∈ s.history := by
    intro j env did mem
    rcases history with same | longer
    · exact same ▸ mem
    · rw [longer] at mem
      exact (List.mem_cons.mp mem).resolve_left (by simp)
  refine tracked_setPhase tracked found acting rfl ?_
    (fun j env did mem => .inl (claims j env did mem)) ?_
    (fun j env mem => closed j env (claims j env false mem)) ?_
  · intro entry mem
    rcases history with same | longer
    · exact same ▸ mem
    · rw [longer]
      exact List.mem_cons_of_mem _ mem
  · intro pending
    cases pending
  · intro j env mem
    rcases history with same | longer
    · exact .inl (same ▸ mem)
    · rw [longer] at mem
      rcases List.mem_cons.mp mem with eqn | old
      · cases eqn
        exact .inr ⟨rfl, rfl⟩
      · exact .inl old

private theorem Tracked.step {s t : WorkerState} {a : WorkerLabel} (tracked : Tracked s)
    (step : Step s a t) : Tracked t := by
  have closed : ∀ j env, Executed.claim j env false ∈ s.history →
      (t.db.delivery? env).all (·.status.isTerminal) = true := by
    intro j env mem
    rw [closed_row step (tracked.refusals j env mem)]
    exact tracked.refusals j env mem
  cases step with
  | handOut rt env ctx =>
    refine ⟨?_, ?_, tracked.refusals, ?_⟩
    · intro j env' did mem
      obtain ⟨inv, found, own⟩ := tracked.claimers j env' did mem
      exact ⟨inv, handOut_keeps found, own⟩
    · intro j inv found pending
      rcases handOut_get found with old | ⟨-, rfl⟩
      · exact tracked.stampers j inv old pending
      · cases pending
    · intro j env' mem
      obtain ⟨inv, found, ended⟩ := tracked.markers j env' mem
      exact ⟨inv, handOut_keeps found, ended⟩
  | claim i inv now reply found alive phase =>
    have backed := stamped_of_pending s i inv now reply
    have acting : Phase.ended inv.phase = false := by rw [phase]; rfl
    cases claimed_effect s i inv now reply with
    | quiet e none failed db history =>
      refine tracked_setPhase tracked found acting rfl ?_ ?_ ?_ ?_ ?_
      · intro entry mem
        exact history ▸ mem
      · intro j env did mem
        exact .inl (history ▸ mem)
      · intro pending
        rw [backed pending]
        exact List.mem_cons_self
      · intro j env mem
        exact closed j env (history ▸ mem)
      · intro j env mem
        exact .inl (history ▸ mem)
    | refused done shut heard db history =>
      refine tracked_claimed tracked found acting rfl history backed closed ?_
      intro _
      rw [db]
      exact shut
    | stamped r done stored live heard rows history =>
      refine tracked_claimed tracked found acting rfl history backed closed ?_
      intro refused
      cases refused
  | handler i inv world handler payload hctx found alive phase =>
    refine tracked_setPhase tracked found (by rw [phase]; rfl) rfl (fun _ mem => mem)
      (fun _ _ _ mem => .inl mem) ?_ closed (fun _ _ mem => .inl mem)
    intro _
    exact tracked.stampers i inv found (by rw [phase]; rfl)
  | mark i inv now reply mark verdict found alive phase =>
    exact tracked_mark tracked found (by rw [phase]; rfl) closed
  | crash i inv found alive =>
    have kept : ∀ {j : ℕ} {inv' : Invocation}, s.invocations[j]? = some inv' →
        ∃ alive, (s.crashed i inv).invocations[j]? = some { inv' with alive := alive } :=
      fun found' => bystander (.crash i inv found alive) found' (by simp [actor])
    refine ⟨?_, ?_, tracked.refusals, ?_⟩
    · intro j env did mem
      obtain ⟨inv', found', facts⟩ := tracked.claimers j env did mem
      obtain ⟨alive', after⟩ := kept found'
      exact ⟨_, after, facts⟩
    · intro j inv' found' pending
      rw [crashed_get found] at found'
      split at found'
      · next same =>
        cases Option.some.inj found'
        exact tracked.stampers j inv (same ▸ found) pending
      · exact tracked.stampers j inv' found' pending
    · intro j env mem
      obtain ⟨inv', found', ended⟩ := tracked.markers j env mem
      obtain ⟨alive', after⟩ := kept found'
      exact ⟨_, after, ended⟩

private theorem tokens_set {l : List Invocation} {i : ℕ} {inv : Invocation} (inv' : Invocation)
    (found : l[i]? = some inv) (env : inv'.env = inv.env)
    (token : inv'.ctx.leaseToken = inv.ctx.leaseToken) :
    tokensOf (l.set i inv') = tokensOf l :=
  map_set_same found (by rw [env, token])

private theorem tokens_setPhase {s : WorkerState} {i : ℕ} {inv : Invocation}
    (found : s.invocations[i]? = some inv) (progress : Progress) :
    tokensOf (s.setPhase i inv progress) = tokensOf s.invocations :=
  tokens_set { inv with phase := .claimed progress } found rfl rfl

private theorem view_idle {s t : WorkerState} {env : HandlerEnvelope}
    (tokens : tokensOf t.invocations = tokensOf s.invocations)
    (row : t.db.delivery? env = s.db.delivery? env)
    (stamped : t.history.filterMap (stampedBy env) = s.history.filterMap (stampedBy env))
    (released : t.history.filterMap (markedBy env) = s.history.filterMap (markedBy env)) :
    view env t = view env s := by
  simp only [view, tokens, row, stamped, released]

private theorem view_token {s : WorkerState} {env : HandlerEnvelope} {i : ℕ} {inv : Invocation}
    (found : s.invocations[i]? = some inv) :
    (view env s).tokens[i]? = some (inv.env, inv.ctx.leaseToken) := by
  simp only [view, tokensOf, List.getElem?_map, found, Option.map_some]

theorem cell_holder {s : WorkerState} {env : HandlerEnvelope} {token : Uuid} :
    (view env s).cell.holder = some (env, token) ↔
      (s.db.delivery? env).any (holds token) = true := by
  cases found : s.db.delivery? env with
  | none => simp [view, cellOf, found]
  | some r => by_cases running : r.status = .running <;> simp [view, cellOf, found, holds, running]

private theorem view_claim {s : WorkerState} (tracked : Tracked s) (env : HandlerEnvelope) {i : ℕ}
    {inv : Invocation} (now : Timestamp) (reply : Reply) (found : s.invocations[i]? = some inv)
    (phase : inv.phase = .claiming) :
    (view env s).step (operation env s (.claim i now reply)) =
      some (view env (s.claimed i inv now reply)) := by
  have fresh : i ∉ (view env s).stamped := by
    intro mem
    obtain ⟨inv', found', -, started⟩ := tracked.claimers i env true (mem_stamped.mp mem)
    rw [found] at found'
    cases Option.some.inj found'
    rw [phase] at started
    cases started
  have token : (view env s).tokens[i]? = some (inv.env, inv.ctx.leaseToken) := view_token found
  have tokens : tokensOf (s.claimed i inv now reply).invocations = tokensOf s.invocations :=
    tokens_setPhase found _
  cases claimed_effect s i inv now reply with
  | quiet e none failed db history =>
    have idle : operation env s (.claim i now reply) = .idle := by
      simp [operation, executes, found, none]
    rw [idle]
    exact congrArg some (view_idle tokens (by rw [db]) (by rw [history])
      (by rw [history])).symm
  | refused done closed heard db history =>
    have unmoved : view env (s.claimed i inv now reply) = view env s :=
      view_idle tokens (by rw [db]) (by rw [history]; rfl) (by rw [history]; rfl)
    rw [unmoved]
    by_cases own : inv.env = env
    · subst own
      have shut : (view inv.env s).cell.closed = true := by
        cases row : s.db.delivery? inv.env with
        | none => simp [view, cellOf, row]
        | some r => simpa [view, cellOf, row] using closed
      simp [operation, executes, found, done, State.step, token, fresh, shut]
    · simp [operation, executes, found, own, State.step]
  | stamped r done stored live heard rows history =>
    by_cases own : inv.env = env
    · subst own
      have open_ : (view inv.env s).cell.closed = false := by
        simpa [view, cellOf, stored] using live
      have after : view inv.env (s.claimed i inv now reply) =
          { view inv.env s with
            cell := ⟨some (inv.env, inv.ctx.leaseToken), false⟩
            stamped := i :: (view inv.env s).stamped } := by
        simp only [view, tokens, history, rows, if_true, cellOf, claimSet]
        simp [stampedBy, markedBy, DeliveryStatus.isTerminal, List.filterMap_cons]
      rw [after]
      simp [operation, executes, found, done, State.step, token, fresh, open_]
    · have unmoved : view env (s.claimed i inv now reply) = view env s :=
        view_idle tokens (by rw [rows, if_neg (Ne.symm own)])
          (by rw [history]; simp [stampedBy, own]) (by rw [history]; rfl)
      rw [unmoved]
      simp [operation, executes, found, own, State.step]

private theorem view_mark {s : WorkerState} (tracked : Tracked s) (env : HandlerEnvelope) {i : ℕ}
    {inv : Invocation} {mark : Mark} {verdict : Verdict} (now : Timestamp) (reply : Reply)
    (found : s.invocations[i]? = some inv) (phase : inv.phase = .claimed (.marking mark verdict)) :
    (view env s).step (operation env s (.mark i now reply)) =
      some (view env (s.marked i inv mark verdict now reply)) := by
  have token : (view env s).tokens[i]? = some (inv.env, inv.ctx.leaseToken) := view_token found
  have tokens : tokensOf (s.marked i inv mark verdict now reply).invocations =
      tokensOf s.invocations := tokens_setPhase found _
  have mine : inv.env = env → i ∈ (view env s).stamped := by
    rintro rfl
    exact mem_stamped.mpr (tracked.stampers i inv found (by rw [phase]; rfl))
  cases marked_effect s i inv mark verdict now reply with
  | quiet e none failed db history =>
    have idle : operation env s (.mark i now reply) = .idle := by
      simp [operation, executes, found, phase, none]
    rw [idle]
    exact congrArg some (view_idle tokens (by rw [db]) (by rw [history]) (by rw [history])).symm
  | fencedOut done free heard rows history =>
    have unmoved : view env (s.marked i inv mark verdict now reply) = view env s :=
      view_idle tokens (rows env) (by rw [history]) (by rw [history])
    rw [unmoved]
    by_cases own : inv.env = env
    · subst own
      have other : (view inv.env s).cell.holder ≠ some (inv.env, inv.ctx.leaseToken) := by
        intro holder
        rw [cell_holder.mp holder] at free
        cases free
      simp [operation, executes, found, phase, done, State.step, token, mine rfl, other]
    · simp [operation, executes, found, own, State.step]
  | effective r n done stored held heard rows history =>
    by_cases own : inv.env = env
    · subst own
      have holder : (view inv.env s).cell.holder = some (inv.env, inv.ctx.leaseToken) :=
        cell_holder.mpr (by simp [stored, held])
      have after : view inv.env (s.marked i inv mark verdict now reply) =
          { view inv.env s with
            cell := ⟨none, mark.status.isTerminal⟩
            released := i :: (view inv.env s).released } := by
        have left : mark.status ≠ .running := by cases mark <;> simp [Mark.status]
        simp only [view, tokens, history, rows, if_true, cellOf, set_status]
        simp [stampedBy, markedBy, left, List.filterMap_cons]
      have shuts : closes s i = mark.status.isTerminal := by simp [closes, found, phase]
      rw [after]
      simp [operation, executes, found, phase, done, State.step, token, mine rfl, holder, shuts]
    · have unmoved : view env (s.marked i inv mark verdict now reply) = view env s :=
        view_idle tokens (by rw [rows, if_neg (Ne.symm own)]) (by rw [history]; rfl)
          (by rw [history]; simp [markedBy, own])
      rw [unmoved]
      simp [operation, executes, found, own, State.step]

/-- Every worker step is a step of the abstract fence. -/
theorem view_step {s t : WorkerState} {a : WorkerLabel} (tracked : Tracked s)
    (fresh : freshToken s a = true) (step : Step s a t) (env : HandlerEnvelope) :
    (view env s).step (operation env s a) = some (view env t) := by
  cases step with
  | handOut rt handed ctx =>
    have new : (handed, ctx.leaseToken) ∉ tokensOf s.invocations := by
      intro mem
      obtain ⟨inv, stored, eqn⟩ := List.mem_map.mp mem
      have apart := List.all_eq_true.mp fresh inv stored
      rw [Prod.mk.injEq] at eqn
      simp [eqn] at apart
    simp only [operation, State.step, view, new, if_false]
    simp [tokensOf]
  | claim i inv now reply found alive phase => exact view_claim tracked env now reply found phase
  | handler i inv world handler payload hctx found =>
    have same : view env (s.handled i inv
        (afterHandler inv.runtime inv.ctx (handler.handleErased world payload hctx))) = view env s :=
      view_idle (tokens_setPhase found _) rfl rfl rfl
    rw [same]
    rfl
  | mark i inv now reply mark verdict found alive phase =>
    exact view_mark tracked env now reply found phase
  | crash i inv found =>
    have same : view env (s.crashed i inv) = view env s :=
      view_idle (tokens_set { inv with alive := false } found rfl rfl) rfl rfl rfl
    rw [same]
    rfl

/-- The changes of status that a claim and a mark may make. -/
inductive Transition : WorkerLabel → DeliveryStatus → DeliveryStatus → Prop where
  | claim (i : ℕ) (now : Timestamp) (reply : Reply) {before : DeliveryStatus}
      (open_ : before ∈ [.queued, .awaitingRetry, .running]) :
      Transition (.claim i now reply) before .running
  | mark (i : ℕ) (now : Timestamp) (reply : Reply) {after : DeliveryStatus}
      (decided : after ∈ [.sent, .awaitingRetry, .dead, .skipped]) :
      Transition (.mark i now reply) .running after

/-- What a single step may do to the row of `env`, and who may do it. -/
structure FencedStep (env : HandlerEnvelope) (s : WorkerState) (a : WorkerLabel)
    (t : WorkerState) : Prop where
  change : t.db.delivery? env = s.db.delivery? env ∨
    ∃ r r', s.db.delivery? env = some r ∧ t.db.delivery? env = some r' ∧
      Transition a r.status r'.status
  owner : ∀ r r', s.db.delivery? env = some r → t.db.delivery? env = some r' →
    r.status = .running → r'.status ≠ .running →
    ∃ i now reply, a = .mark i now reply ∧ lastStamper env s = some i
  fencedOut : ∀ i now reply, a = .mark i now reply → lastStamper env s ≠ some i →
    t.db.delivery? env = s.db.delivery? env

/-- The step takes the row of `env` into a terminal status. -/
def finishes (env : HandlerEnvelope) (s t : WorkerState) : Bool :=
  !(s.db.delivery? env).any (·.status.isTerminal) && (t.db.delivery? env).any (·.status.isTerminal)

/-- The invariant of all runs: bookkeeping in order, and every fence intact. -/
structure Guarded (s : WorkerState) : Prop where
  tracked : Tracked s
  fenced : ∀ env, Fenced (view env s)

theorem guarded_start (db : Database) : Guarded (.start db) := by
  refine ⟨tracked_start db, ?_⟩
  intro env
  refine fenced_start ?_
  intro closed
  cases found : db.delivery? env with
  | none => simp [WorkerState.start, cellOf, found]
  | some r =>
    have terminal : r.status.isTerminal = true := by
      simpa [WorkerState.start, cellOf, found] using closed
    have stopped : r.status ≠ .running := by
      intro running
      rw [running] at terminal
      cases terminal
    simp [WorkerState.start, cellOf, found, stopped]

theorem Guarded.step {s t : WorkerState} {a : WorkerLabel} (guarded : Guarded s)
    (fresh : freshToken s a = true) (step : Step s a t) : Guarded t where
  tracked := guarded.tracked.step step
  fenced env := (guarded.fenced env).step (view_step guarded.tracked fresh step env)

theorem fencedWorker_step {s t : WorkerState} {a : WorkerLabel}
    (taken : fencedWorker.step s a = some t) : freshToken s a = true ∧ Step s a t := by
  obtain ⟨fresh, step⟩ := Machine.restrict_step.mp taken
  exact ⟨fresh, step_sound step⟩

theorem marker_is_last {s t : WorkerState} {i : ℕ} {inv : Invocation} {now : Timestamp}
    {reply : Reply} {mark : Mark} {r : HandlerDelivery} (guarded : Guarded s)
    (step : Step s (.mark i now reply) t)
    (stored : s.db.delivery? inv.env = some r) (held : holds inv.ctx.leaseToken r = true)
    (row : t.db.delivery? inv.env = some ((Mark.set now mark).apply r)) :
    lastStamper inv.env s = some i := by
  have taken := view_step guarded.tracked rfl step inv.env
  have before : (view inv.env s).cell.holder = some (inv.env, inv.ctx.leaseToken) :=
    cell_holder.mpr (by simp [stored, held])
  have after : (view inv.env t).cell.holder = none := by
    have left : mark.status ≠ .running := by cases mark <;> simp [Mark.status]
    simp [view, row, cellOf, set_status, left]
  have changed : (view inv.env t).cell ≠ (view inv.env s).cell := by
    intro same
    rw [same, before] at after
    cases after
  by_cases done : executes inv.env s (.mark i now reply) = true
  · rw [show operation inv.env s (.mark i now reply) = .release i (closes s i) by
      simp [operation, done]] at taken
    exact release_by_last (guarded.fenced inv.env) taken changed
  · rw [show operation inv.env s (.mark i now reply) = .idle by simp [operation, done]] at taken
    exact absurd (congrArg State.cell (Option.some.inj taken).symm) changed

private theorem fencedStep {s t : WorkerState} {a : WorkerLabel} (guarded : Guarded s)
    (step : Step s a t) (env : HandlerEnvelope) : FencedStep env s a t := by
  rcases row_cases step env with same |
    ⟨i, inv, now, reply, r, rfl, found, phase, rfl, -, stored, live, row⟩ |
    ⟨i, inv, now, reply, mark, verdict, r, rfl, found, phase, rfl, stored, held, row⟩
  · refine ⟨.inl same, ?_, fun _ _ _ _ _ => same⟩
    intro r r' before after running left
    rw [same, before] at after
    exact absurd (Option.some.inj after ▸ running) left
  · refine ⟨.inr ⟨r, _, stored, row, ?_⟩, ?_, ?_⟩
    · refine .claim i now reply ?_
      cases status : r.status <;> simp_all [DeliveryStatus.isTerminal]
    · intro r' r'' before after running left
      rw [row] at after
      cases Option.some.inj after
      exact absurd rfl left
    · intro j now' reply' eqn
      cases eqn
  · have last : lastStamper inv.env s = some i := marker_is_last guarded step stored held row
    refine ⟨.inr ⟨r, _, stored, row, ?_⟩, ?_, ?_⟩
    · rw [(holds_running held).1, set_status]
      refine .mark i now reply ?_
      cases mark <;> simp [Mark.status]
    · intro r' r'' before after running left
      exact ⟨i, now, reply, rfl, last⟩
    · intro j now' reply' eqn other
      cases eqn
      exact absurd last other

/-- Fencing, for any number of invocations of one delivery in any interleaving: only the
listed changes of status happen, only the last stamper leaves `running`, and the row
becomes terminal at most once. -/
theorem fenced_runs (db : Database) (env : HandlerEnvelope) (as : List WorkerLabel) :
    fencedWorker.Along (FencedStep env) (.start db) as ∧
      fencedWorker.tally (finishes env) (.start db) as ≤ 1 := by
  constructor
  · refine Machine.along_of_invariant ?_ (guarded_start db) as
    intro s a t guarded taken
    obtain ⟨fresh, step⟩ := fencedWorker_step taken
    exact ⟨guarded.step fresh step, fencedStep guarded step env⟩
  · refine Machine.tally_le_one (Q := fun s => (s.db.delivery? env).any (·.status.isTerminal) = true)
      ?_ ?_ ?_ _ as
    · intro s a t settled taken
      obtain ⟨r, found, terminal⟩ := (Option.any_eq_true _ _).mp settled
      rw [closed_row (fencedWorker_step taken).2 (by simp [found, terminal])]
      exact settled
    · intro s t hit settled
      simp [finishes, settled] at hit
    · intro s t hit
      exact (Bool.and_eq_true _ _ ▸ hit).2

end RustEvents.Worker.Fencing
