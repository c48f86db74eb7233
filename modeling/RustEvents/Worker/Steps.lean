/- module: RustEvents/Worker/Steps
   layer: system
   source: src/runtime.rs (handle_envelope)
   digest: Any number of interleaved handle_envelope invocations over one database, with crashes and lost answers. -/

import RustEvents.Foundation.LabelledRuns
import RustEvents.Worker.Statements

set_option autoImplicit false
set_option relaxedAutoImplicit false

namespace RustEvents.Worker.Steps

open RustEvents.Foundation.LabelledRuns (Machine)
open RustEvents.Foundation.IndexedTable (Table)
open RustEvents.Model.Errors
open RustEvents.Model.Schema
open RustEvents.Model.Builder
open RustEvents.Model.Runtime
open RustEvents.Worker.Statements

/-- One call of `handle_envelope`. The runtime is its own: a redeploy between two
claims may change the configuration and the registry. -/
structure Invocation where
  runtime : OutboxRuntime
  env : HandlerEnvelope
  ctx : JobContext
  phase : Phase
  alive : Bool

/-- What the history remembers of the statements that Postgres executed. -/
inductive Executed where
  | claim (i : ℕ) (env : HandlerEnvelope) (stamped : Bool)
  | mark (i : ℕ) (env : HandlerEnvelope)
  deriving DecidableEq

/-- The database, the invocations in the order in which they were handed out, and
the executed claims and effective marks, newest first. -/
structure WorkerState where
  db : Database
  invocations : List Invocation
  history : List Executed

/-- Before the first invocation. -/
def WorkerState.start (db : Database) : WorkerState := ⟨db, [], []⟩

inductive WorkerLabel where
  | handOut (rt : OutboxRuntime) (env : HandlerEnvelope) (ctx : JobContext)
  | claim (i : ℕ) (now : Timestamp) (reply : Reply)
  | handler (i : ℕ) (world : World)
  | mark (i : ℕ) (now : Timestamp) (reply : Reply)
  | crash (i : ℕ)

namespace WorkerState

variable (s : WorkerState)

/-- Invocation `i`, unless its process has crashed. -/
def live? (i : ℕ) : Option Invocation := (s.invocations[i]?).filter Invocation.alive

def setPhase (i : ℕ) (inv : Invocation) (progress : Progress) : List Invocation :=
  s.invocations.set i { inv with phase := .claimed progress }

/-- The claim statement of invocation `i` executes. -/
def claimed (i : ℕ) (inv : Invocation) (now : Timestamp) (reply : Reply) : WorkerState :=
  let statement := claimStatement inv.env inv.ctx now
  { db := reply.after s.db statement
    invocations := s.setPhase i inv
      (afterClaim inv.runtime inv.env inv.ctx (reply.answer s.db statement))
    history := match reply.effect s.db statement with
      | none => s.history
      | some done => .claim i inv.env (done.2.any ClaimRow.didUpdate) :: s.history }

/-- The mark statement of invocation `i` executes, and the call returns. -/
def marked (i : ℕ) (inv : Invocation) (mark : Mark) (verdict : Verdict) (now : Timestamp)
    (reply : Reply) : WorkerState :=
  let statement := mark.statement inv.env inv.ctx.leaseToken now
  { db := reply.after s.db statement
    invocations := s.setPhase i inv
      (.returned (afterMark mark verdict (reply.answer s.db statement)))
    history := match reply.effect s.db statement with
      | none => s.history
      | some done => if 0 < done.2 then .mark i inv.env :: s.history else s.history }

/-- The handler future of invocation `i` resolves. -/
def handled (i : ℕ) (inv : Invocation) (decided : Mark × Verdict) : WorkerState :=
  { s with invocations := s.setPhase i inv (.marking decided.1 decided.2) }

/-- The process that runs invocation `i` dies. -/
def crashed (i : ℕ) (inv : Invocation) : WorkerState :=
  { s with invocations := s.invocations.set i { inv with alive := false } }

def step : WorkerLabel → Option WorkerState
  | .handOut rt env ctx =>
    some { s with invocations := s.invocations ++ [⟨rt, env, ctx, .claiming, true⟩] }
  | .claim i now reply =>
    match s.live? i with
    | some inv =>
      match inv.phase with
      | .claiming => some (s.claimed i inv now reply)
      | .claimed _ => none
    | none => none
  | .handler i world =>
    match s.live? i with
    | some inv =>
      match inv.phase with
      | .claimed (.invoking handler payload hctx) =>
        some (s.handled i inv
          (afterHandler inv.runtime inv.ctx (handler.handleErased world payload hctx)))
      | _ => none
    | none => none
  | .mark i now reply =>
    match s.live? i with
    | some inv =>
      match inv.phase with
      | .claimed (.marking mark verdict) => some (s.marked i inv mark verdict now reply)
      | _ => none
    | none => none
  | .crash i =>
    match s.live? i with
    | some inv => some (s.crashed i inv)
    | none => none

end WorkerState

def worker : Machine WorkerState WorkerLabel := ⟨WorkerState.step⟩

/-- Everything a worker step can do. -/
inductive Step (s : WorkerState) : WorkerLabel → WorkerState → Prop where
  | handOut (rt : OutboxRuntime) (env : HandlerEnvelope) (ctx : JobContext) :
      Step s (.handOut rt env ctx)
        { s with invocations := s.invocations ++ [⟨rt, env, ctx, .claiming, true⟩] }
  | claim (i : ℕ) (inv : Invocation) (now : Timestamp) (reply : Reply)
      (found : s.invocations[i]? = some inv) (alive : inv.alive = true)
      (phase : inv.phase = .claiming) :
      Step s (.claim i now reply) (s.claimed i inv now reply)
  | handler (i : ℕ) (inv : Invocation) (world : World) (handler : ErasedHandler)
      (payload : Bytes) (hctx : HandlerContext)
      (found : s.invocations[i]? = some inv) (alive : inv.alive = true)
      (phase : inv.phase = .claimed (.invoking handler payload hctx)) :
      Step s (.handler i world)
        (s.handled i inv
          (afterHandler inv.runtime inv.ctx (handler.handleErased world payload hctx)))
  | mark (i : ℕ) (inv : Invocation) (now : Timestamp) (reply : Reply) (mark : Mark)
      (verdict : Verdict) (found : s.invocations[i]? = some inv) (alive : inv.alive = true)
      (phase : inv.phase = .claimed (.marking mark verdict)) :
      Step s (.mark i now reply) (s.marked i inv mark verdict now reply)
  | crash (i : ℕ) (inv : Invocation) (found : s.invocations[i]? = some inv)
      (alive : inv.alive = true) : Step s (.crash i) (s.crashed i inv)

theorem live?_some {s : WorkerState} {i : ℕ} {inv : Invocation} (live : s.live? i = some inv) :
    s.invocations[i]? = some inv ∧ inv.alive = true :=
  Option.filter_eq_some_iff.mp live

theorem step_sound {s t : WorkerState} {a : WorkerLabel} (taken : worker.step s a = some t) :
    Step s a t := by
  change s.step a = some t at taken
  cases a with
  | handOut rt env ctx =>
    cases taken
    exact .handOut rt env ctx
  | claim i now reply =>
    simp only [WorkerState.step] at taken
    split at taken
    · next inv live =>
      split at taken
      · next phase =>
        cases taken
        exact .claim i inv now reply (live?_some live).1 (live?_some live).2 phase
      · cases taken
    · cases taken
  | handler i world =>
    simp only [WorkerState.step] at taken
    split at taken
    · next inv live =>
      split at taken
      · next handler payload hctx phase =>
        cases taken
        exact .handler i inv world handler payload hctx (live?_some live).1 (live?_some live).2 phase
      · cases taken
    · cases taken
  | mark i now reply =>
    simp only [WorkerState.step] at taken
    split at taken
    · next inv live =>
      split at taken
      · next mark verdict phase =>
        cases taken
        exact .mark i inv now reply mark verdict (live?_some live).1 (live?_some live).2 phase
      · cases taken
    · cases taken
  | crash i =>
    simp only [WorkerState.step] at taken
    split at taken
    · next inv live =>
      cases taken
      exact .crash i inv (live?_some live).1 (live?_some live).2
    · cases taken

theorem lt_of_found {s : WorkerState} {i : ℕ} {inv : Invocation}
    (found : s.invocations[i]? = some inv) : i < s.invocations.length :=
  (List.getElem?_eq_some_iff.mp found).1

/-- What the caller hears of an executed statement: its result, or an error when
the answer is lost. -/
def Heard {β : Type} (answer : Except SqlxError β) (result : β) : Prop :=
  answer = .ok result ∨ ∃ e, answer = .error e

/-- Postgres executes the claim statement of this invocation without an error. -/
def Invocation.claimExecutes (inv : Invocation) (db : Database) (now : Timestamp)
    (reply : Reply) : Bool :=
  (reply.effect db (claimStatement inv.env inv.ctx now)).isSome

/-- Postgres executes this mark of the invocation without an error. -/
def Invocation.markExecutes (inv : Invocation) (mark : Mark) (db : Database) (now : Timestamp)
    (reply : Reply) : Bool :=
  (reply.effect db (mark.statement inv.env inv.ctx.leaseToken now)).isSome

/-- The three ways in which the claim statement of an invocation can end. -/
inductive ClaimEffect (s : WorkerState) (i : ℕ) (inv : Invocation) (now : Timestamp)
    (reply : Reply) (t : WorkerState) : Prop where
  | quiet (e : SqlxError) (none : inv.claimExecutes s.db now reply = false)
      (failed : reply.answer s.db (claimStatement inv.env inv.ctx now) = .error e)
      (db : t.db = s.db) (history : t.history = s.history)
  | refused (done : inv.claimExecutes s.db now reply = true)
      (closed : (s.db.delivery? inv.env).all (·.status.isTerminal) = true)
      (heard : Heard (reply.answer s.db (claimStatement inv.env inv.ctx now))
        (claimSelect s.db inv.env.eventId ((s.db.delivery? inv.env).map (·.status)) false))
      (db : t.db = s.db) (history : t.history = .claim i inv.env false :: s.history)
  | stamped (r : HandlerDelivery) (done : inv.claimExecutes s.db now reply = true)
      (found : s.db.delivery? inv.env = some r) (live : r.status.isTerminal = false)
      (heard : Heard (reply.answer s.db (claimStatement inv.env inv.ctx now))
        (claimSelect s.db inv.env.eventId (some r.status) true))
      (rows : ∀ env, t.db.delivery? env = if env = inv.env then
        some ((claimSet (i32Saturating inv.ctx.attempt) inv.ctx.leaseToken now).apply r)
        else s.db.delivery? env)
      (history : t.history = .claim i inv.env true :: s.history)

/-- The three ways in which the mark of an invocation can end. -/
inductive MarkEffect (s : WorkerState) (i : ℕ) (inv : Invocation) (mark : Mark) (now : Timestamp)
    (reply : Reply) (t : WorkerState) : Prop where
  | quiet (e : SqlxError) (none : inv.markExecutes mark s.db now reply = false)
      (failed : reply.answer s.db (mark.statement inv.env inv.ctx.leaseToken now) = .error e)
      (db : t.db = s.db) (history : t.history = s.history)
  | fencedOut (done : inv.markExecutes mark s.db now reply = true)
      (free : (s.db.delivery? inv.env).any (holds inv.ctx.leaseToken) = false)
      (heard : Heard (reply.answer s.db (mark.statement inv.env inv.ctx.leaseToken now)) 0)
      (rows : ∀ env, t.db.delivery? env = s.db.delivery? env) (history : t.history = s.history)
  | effective (r : HandlerDelivery) (n : ℕ) (done : inv.markExecutes mark s.db now reply = true)
      (found : s.db.delivery? inv.env = some r) (held : holds inv.ctx.leaseToken r = true)
      (heard : Heard (reply.answer s.db (mark.statement inv.env inv.ctx.leaseToken now)) n)
      (rows : ∀ env, t.db.delivery? env = if env = inv.env then
        some ((Mark.set now mark).apply r) else s.db.delivery? env)
      (history : t.history = .mark i inv.env :: s.history)

private theorem effect_none_answer {β : Type} {reply : Reply} {db : Database}
    {statement : Database → Except SqlxError (Database × β)}
    (quiet : reply.effect db statement = none) : ∃ e, reply.answer db statement = .error e := by
  cases reply <;> cases eqn : statement db <;> simp_all [Reply.effect, Reply.answer]

private theorem effect_some_heard {β : Type} {reply : Reply} {db db' : Database} {b : β}
    {statement : Database → Except SqlxError (Database × β)}
    (done : reply.effect db statement = some (db', b)) :
    Heard (reply.answer db statement) b := by
  cases reply <;> cases eqn : statement db <;>
    simp_all [Reply.effect, Reply.answer, Heard]

theorem claimSelect_some {db : Database} {env : HandlerEnvelope} {r : HandlerDelivery}
    (found : db.delivery? env = some r) (prev : Option DeliveryStatus) (did : Bool) :
    ∃ row, claimSelect db env.eventId prev did = some row ∧ row.prevStatus = prev ∧
      row.didUpdate = did := by
  obtain ⟨e, event⟩ := event?_of_delivery found
  exact ⟨_, by rw [claimSelect, event, Option.map_some], rfl, rfl⟩

theorem claimSelect_didUpdate {db : Database} {env : HandlerEnvelope} {r : HandlerDelivery}
    (found : db.delivery? env = some r) (prev : Option DeliveryStatus) (did : Bool) :
    (claimSelect db env.eventId prev did).any ClaimRow.didUpdate = did := by
  obtain ⟨row, selected, -, updated⟩ := claimSelect_some found prev did
  rw [selected, Option.any_some, updated]

theorem claimed_effect (s : WorkerState) (i : ℕ) (inv : Invocation) (now : Timestamp)
    (reply : Reply) :
    ClaimEffect s i inv now reply (s.claimed i inv now reply) := by
  cases done : reply.effect s.db (claimStatement inv.env inv.ctx now) with
  | none =>
    obtain ⟨e, failed⟩ := effect_none_answer done
    exact .quiet e (by simp [Invocation.claimExecutes, done]) failed (after_of_none done)
      (by simp only [WorkerState.claimed, done])
  | some result =>
    obtain ⟨db', row⟩ := result
    have heard := effect_some_heard done
    have executes : inv.claimExecutes s.db now reply = true := by
      simp [Invocation.claimExecutes, done]
    have after : (s.claimed i inv now reply).db = db' := after_of_effect done
    have history : (s.claimed i inv now reply).history =
        .claim i inv.env (row.any ClaimRow.didUpdate) :: s.history := by
      simp only [WorkerState.claimed, done]
    rcases claim_cases (effect_some done) with ⟨missing, rfl, rfl⟩ |
      ⟨r, found, terminal, rfl, rfl⟩ | ⟨r, found, live, changed, rfl⟩
    · refine .refused executes (by simp [missing]) (by simpa [missing] using heard) after ?_
      rw [history]
      simp [claimSelect, Option.any_map]
    · refine .refused executes (by simp [found, terminal]) (by simpa [found] using heard) after ?_
      rw [history, claimSelect_didUpdate found]
    · refine .stamped r executes found live heard ?_ ?_
      · intro env
        rw [after, claim_delivery (effect_some done)]
        split
        · next same => simp [same, found, claimRow, live]
        · rfl
      · rw [history, claimSelect_didUpdate found]

theorem marked_effect (s : WorkerState) (i : ℕ) (inv : Invocation) (mark : Mark)
    (verdict : Verdict) (now : Timestamp) (reply : Reply) :
    MarkEffect s i inv mark now reply (s.marked i inv mark verdict now reply) := by
  cases done : reply.effect s.db (mark.statement inv.env inv.ctx.leaseToken now) with
  | none =>
    obtain ⟨e, failed⟩ := effect_none_answer done
    exact .quiet e (by simp [Invocation.markExecutes, done]) failed (after_of_none done)
      (by simp only [WorkerState.marked, done])
  | some result =>
    obtain ⟨db', n⟩ := result
    have heard := effect_some_heard done
    have executes : inv.markExecutes mark s.db now reply = true := by
      simp [Invocation.markExecutes, done]
    have after : (s.marked i inv mark verdict now reply).db = db' := after_of_effect done
    have affected := mark_affected (effect_some done)
    by_cases held : (s.db.delivery? inv.env).any (holds inv.ctx.leaseToken) = true
    · obtain ⟨r, found, mine⟩ := (Option.any_eq_true _ _).mp held
      refine .effective r n executes found mine heard ?_ ?_
      · intro env
        rw [after, mark_delivery (effect_some done)]
        split
        · next same => simp [same, found, markRow, mine]
        · rfl
      · simp only [WorkerState.marked, done, affected.mpr held, if_true]
    · have none : n = 0 := by
        by_contra some
        exact held (affected.mp (Nat.pos_of_ne_zero some))
      refine .fencedOut executes (by simpa using held) (none ▸ heard) ?_ ?_
      · intro env
        rw [after, mark_delivery (effect_some done)]
        split
        · next same =>
          subst same
          cases found : s.db.delivery? inv.env with
          | none => rfl
          | some r =>
            have free : holds inv.ctx.leaseToken r = false := by simpa [found] using held
            simp [markRow, free]
        · rfl
      · simp [WorkerState.marked, done, none]

theorem step_frame {s t : WorkerState} {a : WorkerLabel} (step : Step s a t) :
    SameFrame s.db t.db := by
  cases step with
  | handOut => exact .refl _
  | claim i inv now reply =>
    simp only [WorkerState.claimed]
    cases done : reply.effect s.db (claimStatement inv.env inv.ctx now) with
    | none =>
      rw [after_of_none done]
      exact .refl _
    | some result =>
      rw [after_of_effect done]
      exact claim_frame (effect_some done)
  | handler => exact .refl _
  | mark i inv now reply mark =>
    simp only [WorkerState.marked]
    cases done : reply.effect s.db (mark.statement inv.env inv.ctx.leaseToken now) with
    | none =>
      rw [after_of_none done]
      exact .refl _
    | some result =>
      rw [after_of_effect done]
      exact mark_frame (effect_some done)
  | crash => exact .refl _

theorem setPhase_get {s : WorkerState} {i : ℕ} {inv : Invocation}
    (found : s.invocations[i]? = some inv) (progress : Progress) (j : ℕ) :
    (s.setPhase i inv progress)[j]? =
      if i = j then some { inv with phase := .claimed progress } else s.invocations[j]? := by
  simp only [WorkerState.setPhase, List.getElem?_set, lt_of_found found, if_true]

theorem crashed_get {s : WorkerState} {i : ℕ} {inv : Invocation}
    (found : s.invocations[i]? = some inv) (j : ℕ) :
    (s.crashed i inv).invocations[j]? =
      if i = j then some { inv with alive := false } else s.invocations[j]? := by
  simp only [WorkerState.crashed, List.getElem?_set, lt_of_found found, if_true]

theorem handOut_get {l : List Invocation} {new inv : Invocation} {j : ℕ}
    (found : (l ++ [new])[j]? = some inv) :
    l[j]? = some inv ∨ j = l.length ∧ inv = new := by
  rcases Nat.lt_or_ge j l.length with low | high
  · rw [List.getElem?_append_left low] at found
    exact .inl found
  · rw [List.getElem?_append_right high, List.getElem?_singleton] at found
    split at found
    · exact .inr ⟨by omega, (Option.some.inj found).symm⟩
    · cases found

theorem handOut_keeps {l : List Invocation} {new inv : Invocation} {j : ℕ}
    (found : l[j]? = some inv) : (l ++ [new])[j]? = some inv := by
  rw [List.getElem?_append_left (List.getElem?_eq_some_iff.mp found).1]
  exact found

/-- The invocation that a label lets act. -/
def actor : WorkerLabel → Option ℕ
  | .claim i _ _ => some i
  | .handler i _ => some i
  | .mark i _ _ => some i
  | _ => none

theorem bystander {s t : WorkerState} {a : WorkerLabel} (step : Step s a t) {j : ℕ}
    {inv : Invocation} (found : s.invocations[j]? = some inv) (other : actor a ≠ some j) :
    ∃ alive, t.invocations[j]? = some { inv with alive := alive } := by
  have differ : ∀ i, actor a = some i → i ≠ j := by
    rintro i eqn rfl
    exact other eqn
  cases step with
  | handOut rt env ctx => exact ⟨inv.alive, handOut_keeps found⟩
  | claim i inv' now reply found' =>
    exact ⟨inv.alive, (setPhase_get found' _ j).trans ((if_neg (differ i rfl)).trans found)⟩
  | handler i inv' world handler payload hctx found' =>
    exact ⟨inv.alive, (setPhase_get found' _ j).trans ((if_neg (differ i rfl)).trans found)⟩
  | mark i inv' now reply mark verdict found' =>
    exact ⟨inv.alive, (setPhase_get found' _ j).trans ((if_neg (differ i rfl)).trans found)⟩
  | crash i inv' found' =>
    rw [crashed_get found']
    by_cases same : i = j
    · subst same
      rw [found] at found'
      exact ⟨false, by rw [if_pos rfl, Option.some.inj found']⟩
    · exact ⟨inv.alive, by rw [if_neg same]; exact found⟩

theorem origin {s t : WorkerState} {a : WorkerLabel} (step : Step s a t) {j : ℕ}
    {inv : Invocation} (found : t.invocations[j]? = some inv) :
    (∃ inv', s.invocations[j]? = some inv' ∧ inv'.env = inv.env) ∨
      ∃ rt ctx, a = .handOut rt inv.env ctx := by
  have moved : ∀ {i : ℕ} {inv' : Invocation} {progress : Progress},
      s.invocations[i]? = some inv' → (s.setPhase i inv' progress)[j]? = some inv →
      ∃ inv'', s.invocations[j]? = some inv'' ∧ inv''.env = inv.env := by
    intro i inv' progress found' eqn
    rw [setPhase_get found'] at eqn
    split at eqn
    · next same => exact ⟨inv', same ▸ found', by cases Option.some.inj eqn; rfl⟩
    · exact ⟨inv, eqn, rfl⟩
  cases step with
  | handOut rt env ctx =>
    rcases handOut_get found with old | ⟨-, rfl⟩
    · exact .inl ⟨inv, old, rfl⟩
    · exact .inr ⟨rt, ctx, rfl⟩
  | claim i inv' now reply found' => exact .inl (moved found' found)
  | handler i inv' world handler payload hctx found' => exact .inl (moved found' found)
  | mark i inv' now reply mark verdict found' => exact .inl (moved found' found)
  | crash i inv' found' =>
    rw [crashed_get found'] at found
    split at found
    · next same => exact .inl ⟨inv', same ▸ found', by cases Option.some.inj found; rfl⟩
    · exact .inl ⟨inv, found, rfl⟩

theorem history_grows {s t : WorkerState} {a : WorkerLabel} (step : Step s a t)
    {entry : Executed} (mem : entry ∈ s.history) : entry ∈ t.history := by
  cases step with
  | handOut => exact mem
  | claim i inv now reply =>
    cases claimed_effect s i inv now reply with
    | quiet e none failed db history => exact history ▸ mem
    | refused done closed heard db history => exact history ▸ List.mem_cons_of_mem _ mem
    | stamped r done found live heard rows history => exact history ▸ List.mem_cons_of_mem _ mem
  | handler => exact mem
  | mark i inv now reply mark verdict =>
    cases marked_effect s i inv mark verdict now reply with
    | quiet e none failed db history => exact history ▸ mem
    | fencedOut done free heard rows history => exact history ▸ mem
    | effective r n done found held heard rows history =>
      exact history ▸ List.mem_cons_of_mem _ mem
  | crash => exact mem

/-- Everything a worker step can do to one delivery row. -/
theorem row_cases {s t : WorkerState} {a : WorkerLabel} (step : Step s a t)
    (env : HandlerEnvelope) :
    t.db.delivery? env = s.db.delivery? env ∨
    (∃ i inv now reply r, a = .claim i now reply ∧ s.invocations[i]? = some inv ∧
      inv.phase = .claiming ∧ inv.env = env ∧ inv.claimExecutes s.db now reply = true ∧
      s.db.delivery? env = some r ∧ r.status.isTerminal = false ∧ t.db.delivery? env =
        some ((claimSet (i32Saturating inv.ctx.attempt) inv.ctx.leaseToken now).apply r)) ∨
    (∃ i inv now reply mark verdict r, a = .mark i now reply ∧ s.invocations[i]? = some inv ∧
      inv.phase = .claimed (.marking mark verdict) ∧ inv.env = env ∧
      s.db.delivery? env = some r ∧ holds inv.ctx.leaseToken r = true ∧
      t.db.delivery? env = some ((Mark.set now mark).apply r)) := by
  cases step with
  | handOut => exact .inl rfl
  | claim i inv now reply found alive phase =>
    cases claimed_effect s i inv now reply with
    | quiet e none failed db => exact .inl (by rw [db])
    | refused done closed heard db => exact .inl (by rw [db])
    | stamped r done stored live heard rows =>
      by_cases same : env = inv.env
      · subst same
        exact .inr (.inl ⟨i, inv, now, reply, r, rfl, found, phase, rfl, done, stored, live,
          by rw [rows, if_pos rfl]⟩)
      · exact .inl (by rw [rows, if_neg same])
  | handler => exact .inl rfl
  | mark i inv now reply mark verdict found alive phase =>
    cases marked_effect s i inv mark verdict now reply with
    | quiet e none failed db => exact .inl (by rw [db])
    | fencedOut done free heard rows => exact .inl (rows env)
    | effective r n done stored held heard rows =>
      by_cases same : env = inv.env
      · subst same
        exact .inr (.inr ⟨i, inv, now, reply, mark, verdict, r, rfl, found, phase, rfl, stored,
          held, by rw [rows, if_pos rfl]⟩)
      · exact .inl (by rw [rows, if_neg same])
  | crash => exact .inl rfl

theorem holds_running {token : Uuid} {r : HandlerDelivery} (held : holds token r = true) :
    r.status = .running ∧ r.leaseToken = some token := by
  simpa [holds] using held

theorem closed_row {s t : WorkerState} {a : WorkerLabel} (step : Step s a t)
    {env : HandlerEnvelope} (closed : (s.db.delivery? env).all (·.status.isTerminal) = true) :
    t.db.delivery? env = s.db.delivery? env := by
  -- A row that is missing or terminal is left alone by every worker step.
  rcases row_cases step env with same | ⟨i, inv, now, reply, r, -, -, -, -, -, found, live, -⟩ |
    ⟨i, inv, now, reply, mark, verdict, r, -, -, -, -, found, held, -⟩
  · exact same
  · simp [found, live] at closed
  · simp [found, (holds_running held).1, DeliveryStatus.isTerminal] at closed

end RustEvents.Worker.Steps
