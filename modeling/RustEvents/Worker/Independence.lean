/- module: RustEvents/Worker/Independence
   layer: system
   source: src/runtime.rs (handle_envelope, mark_*_fenced), tests/handler_removed_marks_dead.rs
   digest: Each delivery row goes through any interleaving as through its own steps alone. -/

import RustEvents.Foundation.Projections
import RustEvents.Worker.Superseded

set_option autoImplicit false
set_option relaxedAutoImplicit false

namespace RustEvents.Worker.Independence

open RustEvents.Foundation.LabelledRuns
open RustEvents.Foundation.IndexedTable
open RustEvents.Foundation.Projections
open RustEvents.Model.Text
open RustEvents.Model.Errors
open RustEvents.Model.Schema
open RustEvents.Model.Builder
open RustEvents.Model.Runtime
open RustEvents.Worker.Statements
open RustEvents.Worker.Steps
open RustEvents.Worker.Superseded

/-- What one delivery row shows of a statement: the row after it, and its result. -/
def shown {β : Type} (env : HandlerEnvelope) (result : Except SqlxError (Database × β)) :
    Except SqlxError (Option HandlerDelivery × β) :=
  result.map fun done => (done.1.delivery? env, done.2)

/-- An UPDATE of at most the row `env`, on that row alone. -/
def updateOn (row : Option HandlerDelivery) (hit : HandlerDelivery → Bool) (set : SetClause) :
    Except SqlxError (Option HandlerDelivery × ℕ) :=
  match row with
  | none => .ok (none, 0)
  | some r =>
    if hit r then
      match (set.apply r).violated with
      | some constraint => .error (checkViolation constraint)
      | none => .ok (some (set.apply r), 1)
    else .ok (some r, 0)

private theorem updateDeliveries_shown {db : Database} {env : HandlerEnvelope}
    {hit : HandlerDelivery → Bool} (set : SetClause)
    (within : ∀ r ∈ db.handlerDeliveries.rows, hit r = true → r.envelope = env) :
    shown env (db.updateDeliveries hit set) = updateOn (db.delivery? env) hit set := by
  have rows : db.handlerDeliveries.rows.filter hit = (db.delivery? env).toList.filter hit :=
    Table.filter_within deliveries_separates_envelope db.handlerDeliveries env within
  simp only [Database.updateDeliveries, List.countP_eq_length_filter, rows, updateOn]
  cases found : db.delivery? env with
  | none => simp [shown, Except.map, delivery?_updated, found]
  | some r =>
    cases chosen : hit r with
    | false => simp [shown, Except.map, delivery?_updated, found, chosen]
    | true =>
      cases bad : (set.apply r).violated with
      | none => simp [shown, Except.map, delivery?_updated, found, chosen, bad]
      | some constraint => simp [shown, Except.map, chosen, bad]

/-- The claim of `env`, on its row alone; `select` is the final SELECT. -/
def claimOn (env : HandlerEnvelope) (ctx : JobContext) (now : Timestamp)
    (select : Option DeliveryStatus → Bool → Option ClaimRow) (row : Option HandlerDelivery) :
    Except SqlxError (Option HandlerDelivery × Option ClaimRow) :=
  if storable env.handlerId then
    match row with
    | none => .ok (none, select none false)
    | some locked =>
      (updateOn row (fun _ => !locked.status.isTerminal)
        (claimSet (i32Saturating ctx.attempt) ctx.leaseToken now)).map fun done =>
          (done.1, select (some locked.status) (0 < done.2))
  else .error characterNotInRepertoire

theorem claim_shown (env : HandlerEnvelope) (ctx : JobContext) (now : Timestamp) (db : Database) :
    shown env (claimStatement env ctx now db) =
      claimOn env ctx now (claimSelect db env.eventId) (db.delivery? env) := by
  simp only [claimStatement, claimOn]
  by_cases text : storable env.handlerId = true
  · simp only [text, if_true]
    cases found : db.delivery? env with
    | none => simp [shown, Except.map, found]
    | some locked =>
      have within : ∀ r ∈ db.handlerDeliveries.rows,
          (decide (r.id = locked.id) && !locked.status.isTerminal) = true → r.envelope = env := by
        intro r stored chosen
        simp only [Bool.and_eq_true, decide_eq_true_eq] at chosen
        exact (id_iff_envelope stored found).mp chosen.1
      have update := updateDeliveries_shown
        (claimSet (i32Saturating ctx.attempt) ctx.leaseToken now) within
      have alone : updateOn (some locked)
            (fun r => decide (r.id = locked.id) && !locked.status.isTerminal)
            (claimSet (i32Saturating ctx.attempt) ctx.leaseToken now) =
          updateOn (some locked) (fun _ => !locked.status.isTerminal)
            (claimSet (i32Saturating ctx.attempt) ctx.leaseToken now) := by
        simp only [updateOn, decide_true, Bool.true_and]
      rw [found, alone] at update
      simp only [← update]
      generalize db.updateDeliveries _ _ = result
      cases result <;> rfl
  · simp only [text]
    rfl

private theorem markFenced_shown (set : SetClause) (texts : List String) (env : HandlerEnvelope)
    (token : Uuid) (db : Database) :
    shown env (markFenced set texts env token db) =
      if (env.handlerId :: texts).all storable then
        updateOn (db.delivery? env) (fencedBy env token) set
      else .error characterNotInRepertoire := by
  have within : ∀ r ∈ db.handlerDeliveries.rows, fencedBy env token r = true →
      r.envelope = env := by
    intro r stored chosen
    simp only [fencedBy, Bool.and_eq_true, decide_eq_true_eq] at chosen
    exact chosen.1.1
  simp only [markFenced]
  split
  · exact updateDeliveries_shown set within
  · rfl

section Local

variable {db db' : Database} {env : HandlerEnvelope}

/-- Tables that no statement for `env` can tell apart. -/
structure Alike (env : HandlerEnvelope) (db db' : Database) : Prop where
  row : db'.delivery? env = db.delivery? env
  events : db'.events = db.events
  keys : db'.dispatchKeys = db.dispatchKeys

theorem claim_alike (alike : Alike env db db') (ctx : JobContext) (now : Timestamp) :
    shown env (claimStatement env ctx now db') = shown env (claimStatement env ctx now db) := by
  have select : claimSelect db' env.eventId = claimSelect db env.eventId := by
    funext prev did
    simp only [claimSelect, Database.event?, Database.keyOf, alike.events, alike.keys]
  rw [claim_shown, claim_shown, select, alike.row]

theorem mark_alike (row : db'.delivery? env = db.delivery? env) (token : Uuid) (now : Timestamp)
    (mark : Mark) :
    shown env (mark.statement env token now db') =
      shown env (mark.statement env token now db) := by
  cases mark with
  | sent =>
    simp only [Mark.statement, markSentFenced, markFenced_shown, row]
  | awaitingRetry reason =>
    simp only [Mark.statement, markAwaitingRetryFenced, markFenced_shown, row]
  | dead reason =>
    simp only [Mark.statement, markDeadFenced, markFenced_shown, row]
  | skipped reason =>
    simp only [Mark.statement, markSkippedFenced, markFenced_shown, row]

variable {β : Type} {statement : Database → Except SqlxError (Database × β)}

theorem answer_of_shown (same : shown env (statement db') = shown env (statement db))
    (reply : Reply) : reply.answer db' statement = reply.answer db statement := by
  cases reply with
  | failed e => rfl
  | lost e => rfl
  | answered =>
    simp only [Reply.answer]
    cases here : statement db <;> cases there : statement db' <;>
      simp_all [shown, Except.map]

theorem after_of_shown (same : shown env (statement db') = shown env (statement db))
    (row : db'.delivery? env = db.delivery? env) (reply : Reply) :
    (reply.after db' statement).delivery? env = (reply.after db statement).delivery? env := by
  cases reply with
  | failed e => exact row
  | lost e =>
    cases here : statement db <;> cases there : statement db' <;>
      simp_all [shown, Except.map, Reply.after, Reply.effect]
  | answered =>
    cases here : statement db <;> cases there : statement db' <;>
      simp_all [shown, Except.map, Reply.after, Reply.effect]

end Local

/-- The row that the statement of a label is for. -/
def names (s : WorkerState) : WorkerLabel → Option HandlerEnvelope
  | .handOut _ _ _ => none
  | .claim i _ _ => (s.invocations[i]?).map Invocation.env
  | .handler i _ => (s.invocations[i]?).map Invocation.env
  | .mark i _ _ => (s.invocations[i]?).map Invocation.env
  | .crash i => (s.invocations[i]?).map Invocation.env

/-- A step leaves every other delivery row and all other tables as they are. -/
structure Confined (s : WorkerState) (a : WorkerLabel) (t : WorkerState) : Prop where
  rows : ∀ env, names s a ≠ some env → t.db.delivery? env = s.db.delivery? env
  events : t.db.events = s.db.events
  keys : t.db.dispatchKeys = s.db.dispatchKeys

private theorem step_confined {s t : WorkerState} {a : WorkerLabel} (step : Step s a t) :
    Confined s a t := by
  have frame := step_frame step
  refine ⟨?_, frame.events, frame.dispatchKeys⟩
  intro env other
  rcases row_cases step env with same | ⟨i, inv, now, reply, r, rfl, found, -, own, -⟩ |
    ⟨i, inv, now, reply, mark, verdict, r, rfl, found, -, own, -⟩
  · exact same
  · exact absurd (by simp [names, found, own]) other
  · exact absurd (by simp [names, found, own]) other

theorem step_complete {s t : WorkerState} {a : WorkerLabel} (step : Step s a t) :
    worker.step s a = some t := by
  have living : ∀ {i : ℕ} {inv : Invocation}, s.invocations[i]? = some inv → inv.alive = true →
      s.live? i = some inv := fun found alive => Option.filter_eq_some_iff.mpr ⟨found, alive⟩
  cases step with
  | handOut rt env ctx => rfl
  | claim i inv now reply found alive phase =>
    simp only [worker, WorkerState.step, living found alive, phase]
  | handler i inv world handler payload hctx found alive phase =>
    simp only [worker, WorkerState.step, living found alive, phase]
  | mark i inv now reply mark verdict found alive phase =>
    simp only [worker, WorkerState.step, living found alive, phase]
  | crash i inv found alive => simp only [worker, WorkerState.step, living found alive]

/-- The envelopes that have been handed out, in order. -/
def handedNext (handed : List HandlerEnvelope) : WorkerLabel → List HandlerEnvelope
  | .handOut _ env _ => handed ++ [env]
  | _ => handed

/-- Invocation `i` as it is numbered among those of `env`, if it is one of them. -/
def ownIndex (env : HandlerEnvelope) (handed : List HandlerEnvelope) (i : ℕ) : Option ℕ :=
  if handed[i]? = some env then some (rank (fun e => e = env) handed i) else none

/-- The same label in the run of `env` alone. -/
def ownLabel (env : HandlerEnvelope) (handed : List HandlerEnvelope) :
    WorkerLabel → Option WorkerLabel
  | .handOut rt e ctx => if e = env then some (.handOut rt e ctx) else none
  | .claim i now reply => (ownIndex env handed i).map fun j => .claim j now reply
  | .handler i world => (ownIndex env handed i).map fun j => .handler j world
  | .mark i now reply => (ownIndex env handed i).map fun j => .mark j now reply
  | .crash i => (ownIndex env handed i).map fun j => .crash j

/-- The steps of the invocations for `env`, with their replies and their `now()`. -/
def ownSteps (env : HandlerEnvelope) (as : List WorkerLabel) : List WorkerLabel :=
  relabel handedNext (ownLabel env) [] as

/-- The run `u` of `env` alone has kept pace with the whole run `s`. -/
structure Follows (env : HandlerEnvelope) (handed : List HandlerEnvelope) (s u : WorkerState) :
    Prop where
  handed : s.invocations.map Invocation.env = handed
  alike : Alike env s.db u.db
  invocations : u.invocations = s.invocations.filter fun inv => inv.env = env

section Follow

variable {env : HandlerEnvelope} {handed : List HandlerEnvelope} {s t u : WorkerState} {i : ℕ}
  {inv : Invocation}

private theorem ownIndex_own (follows : Follows env handed s u)
    (found : s.invocations[i]? = some inv) (own : inv.env = env) :
    ∃ j, ownIndex env handed i = some j ∧ u.invocations[j]? = some inv ∧
      ∀ inv' : Invocation, inv'.env = env →
        u.invocations.set j inv' = (s.invocations.set i inv').filter fun x => x.env = env := by
  have handedOut : handed[i]? = some env := by
    rw [← follows.handed, List.getElem?_map, found, Option.map_some, own]
  refine ⟨rank (fun x => decide (x.env = env)) s.invocations i, ?_, ?_, ?_⟩
  · rw [ownIndex, if_pos handedOut, ← follows.handed, rank_map]
    rfl
  · rw [follows.invocations]
    exact filter_rank found (by simp [own])
  · intro inv' still
    rw [follows.invocations]
    exact (filter_set_kept found (by simp [own]) (by simp [still])).symm

private theorem ownIndex_other (follows : Follows env handed s u)
    (found : s.invocations[i]? = some inv)
    (other : inv.env ≠ env) : ownIndex env handed i = none := by
  have handedOut : handed[i]? ≠ some env := by
    rw [← follows.handed, List.getElem?_map, found, Option.map_some]
    simpa using other
  rw [ownIndex, if_neg handedOut]

private theorem follows_other (follows : Follows env handed s u)
    (found : s.invocations[i]? = some inv)
    (other : inv.env ≠ env) {inv' : Invocation} (same : inv'.env = inv.env)
    (moved : t.invocations = s.invocations.set i inv') (alike : Alike env s.db t.db) :
    Follows env handed t u where
  handed := by rw [moved, map_set_same found same, follows.handed]
  alike := ⟨follows.alike.row.trans alike.row.symm, follows.alike.events.trans alike.events.symm,
    follows.alike.keys.trans alike.keys.symm⟩
  invocations := by
    rw [moved, follows.invocations]
    exact (filter_set_dropped found (by simp [other]) (by simp [same, other])).symm

private theorem follows_own {v : WorkerState} {j : ℕ} (follows : Follows env handed s u)
    (found : s.invocations[i]? = some inv) {inv' : Invocation} (same : inv'.env = inv.env)
    (moved : t.invocations = s.invocations.set i inv')
    (moved' : v.invocations = u.invocations.set j inv')
    (kept : u.invocations.set j inv' = (s.invocations.set i inv').filter fun x => x.env = env)
    (alike : Alike env t.db v.db) : Follows env handed t v where
  handed := by rw [moved, map_set_same found same, follows.handed]
  alike := alike
  invocations := by rw [moved', kept, moved]

private theorem alike_after {β : Type} {statement : Database → Except SqlxError (Database × β)}
    {db db' : Database} (alike : Alike env db db')
    (same : shown env (statement db') = shown env (statement db)) (reply : Reply)
    (here : SameFrame db (reply.after db statement))
    (there : SameFrame db' (reply.after db' statement)) :
    Alike env (reply.after db statement) (reply.after db' statement) where
  row := after_of_shown same alike.row reply
  events := there.events.trans (alike.events.trans here.events.symm)
  keys := there.dispatchKeys.trans (alike.keys.trans here.dispatchKeys.symm)

private theorem alike_confined {a : WorkerLabel} (step : Step s a t)
    (other : names s a ≠ some env) : Alike env s.db t.db := by
  have confined := step_confined step
  exact ⟨confined.rows env other, confined.events, confined.keys⟩

private theorem run_one {a : WorkerLabel} (step : Step s a t) : worker.run s [a] = some t :=
  Machine.run_cons.mpr ⟨t, step_complete step, rfl⟩

private theorem follows_moved (label : ℕ → WorkerLabel) (inv' : Invocation)
    (follows : Follows env handed s u) (found : s.invocations[i]? = some inv)
    (same : inv'.env = inv.env) (step : Step s (label i) t)
    (named : names s (label i) = some inv.env)
    (labelled : ownLabel env handed (label i) = (ownIndex env handed i).map label)
    (moved : t.invocations = s.invocations.set i inv')
    (image : inv.env = env → ∀ j, u.invocations[j]? = some inv → ∃ v, Step u (label j) v ∧
      v.invocations = u.invocations.set j inv' ∧ Alike env t.db v.db) :
    ∃ v, worker.run u (ownLabel env handed (label i)).toList = some v ∧
      Follows env handed t v := by
  by_cases own : inv.env = env
  · obtain ⟨j, index, present, kept⟩ := ownIndex_own follows found own
    obtain ⟨v, taken, moved', alike⟩ := image own j present
    refine ⟨v, ?_, follows_own follows found same moved moved' (kept inv' (same.trans own)) alike⟩
    rw [labelled, index]
    exact run_one taken
  · have unnamed : names s (label i) ≠ some env := by
      rw [named]
      simpa using own
    have confined := alike_confined step unnamed
    refine ⟨u, ?_, follows_other follows found own same moved confined⟩
    rw [labelled, ownIndex_other follows found own]
    rfl

private theorem follows_handOut (follows : Follows env handed s u) (rt : OutboxRuntime)
    (e : HandlerEnvelope) (ctx : JobContext) :
    ∃ v, worker.run u (ownLabel env handed (.handOut rt e ctx)).toList = some v ∧
      Follows env (handed ++ [e])
        { s with invocations := s.invocations ++ [⟨rt, e, ctx, .claiming, true⟩] } v := by
  have handedOut : (s.invocations ++ [(⟨rt, e, ctx, .claiming, true⟩ : Invocation)]).map
      Invocation.env = handed ++ [e] := by
    rw [List.map_append, follows.handed]
    rfl
  by_cases same : e = env
  · refine ⟨{ u with invocations := u.invocations ++ [⟨rt, e, ctx, .claiming, true⟩] }, ?_,
      handedOut, follows.alike, ?_⟩
    · rw [ownLabel, if_pos same]
      exact run_one (.handOut rt e ctx)
    · simp [follows.invocations, same]
  · refine ⟨u, ?_, handedOut, follows.alike, ?_⟩
    · rw [ownLabel, if_neg same]
      rfl
    · simp [follows.invocations, same]

/-- Every step, and its image among the steps of `env`, keep the two runs together. -/
theorem follows_step {a : WorkerLabel} (follows : Follows env handed s u)
    (taken : worker.step s a = some t) :
    ∃ v, worker.run u (ownLabel env handed a).toList = some v ∧
      Follows env (handedNext handed a) t v := by
  have step := step_sound taken
  have frame := step_frame step
  cases step with
  | handOut rt e ctx => exact follows_handOut follows rt e ctx
  | claim i inv now reply found alive phase =>
    have same : inv.env = env → shown env (claimStatement inv.env inv.ctx now u.db) =
        shown env (claimStatement inv.env inv.ctx now s.db) := by
      rintro rfl
      exact claim_alike follows.alike inv.ctx now
    refine follows_moved (fun j => .claim j now reply)
      { inv with phase := .claimed (afterClaim inv.runtime inv.env inv.ctx
          (reply.answer s.db (claimStatement inv.env inv.ctx now))) }
      follows found rfl (.claim i inv now reply found alive phase) (by simp [names, found]) rfl
      rfl ?_
    intro own j present
    have image : Step u (.claim j now reply) (u.claimed j inv now reply) :=
      .claim j inv now reply present alive phase
    refine ⟨_, image, ?_, alike_after follows.alike (same own) reply frame (step_frame image)⟩
    simp only [WorkerState.claimed, WorkerState.setPhase, answer_of_shown (same own)]
  | handler i inv world handler payload hctx found alive phase =>
    let decided := afterHandler inv.runtime inv.ctx (handler.handleErased world payload hctx)
    refine follows_moved (fun j => .handler j world)
      { inv with phase := .claimed (.marking decided.1 decided.2) } follows found rfl
      (.handler i inv world handler payload hctx found alive phase) (by simp [names, found]) rfl
      rfl ?_
    intro own j present
    exact ⟨_, .handler j inv world handler payload hctx present alive phase, rfl, follows.alike⟩
  | mark i inv now reply mark verdict found alive phase =>
    have same : inv.env = env → shown env (mark.statement inv.env inv.ctx.leaseToken now u.db) =
        shown env (mark.statement inv.env inv.ctx.leaseToken now s.db) := by
      rintro rfl
      exact mark_alike follows.alike.row inv.ctx.leaseToken now mark
    refine follows_moved (fun j => .mark j now reply)
      { inv with phase := .claimed (.returned (afterMark mark verdict
          (reply.answer s.db (mark.statement inv.env inv.ctx.leaseToken now)))) }
      follows found rfl (.mark i inv now reply mark verdict found alive phase)
      (by simp [names, found]) rfl rfl ?_
    intro own j present
    have image : Step u (.mark j now reply) (u.marked j inv mark verdict now reply) :=
      .mark j inv now reply mark verdict present alive phase
    refine ⟨_, image, ?_, alike_after follows.alike (same own) reply frame (step_frame image)⟩
    simp only [WorkerState.marked, WorkerState.setPhase, answer_of_shown (same own)]
  | crash i inv found alive =>
    refine follows_moved .crash { inv with alive := false } follows found rfl
      (.crash i inv found alive) (by simp [names, found]) rfl rfl ?_
    intro own j present
    exact ⟨_, .crash j inv present alive, rfl, follows.alike⟩

end Follow

/-- Deliveries do not meet: every step keeps to its own row, and every row ends as it does in
the run of its own steps. -/
structure Independent (db : Database) (as : List WorkerLabel) (s : WorkerState) : Prop where
  steps : worker.Along Confined (.start db) as
  rows : ∀ env, ∃ u, worker.run (.start db) (ownSteps env as) = some u ∧
    u.db.delivery? env = s.db.delivery? env ∧
    u.invocations = s.invocations.filter fun inv => inv.env = env

theorem deliveries_independent (db : Database) (as : List WorkerLabel) (s : WorkerState)
    (run : worker.run (.start db) as = some s) : Independent db as s where
  steps := by
    refine Machine.along_of_invariant (I := fun _ => True) ?_ trivial as
    intro s a t _ taken
    exact ⟨trivial, step_confined (step_sound taken)⟩
  rows := by
    intro env
    have start : Follows env [] (.start db) (.start db) := ⟨rfl, ⟨rfl, rfl, rfl⟩, rfl⟩
    obtain ⟨u, own, follows⟩ := run_relabel
      (fun handed s u a t follows taken => follows_step follows taken) start run
    exact ⟨u, own, follows.alike.row, follows.invocations⟩

def orphanEnv : HandlerEnvelope := ⟨1#128, "ledger"⟩

private theorem splitRows_apart : [Database.queuedRow 0 1#128 0 "mailer",
    Database.queuedRow 1 1#128 0 "ledger"].Pairwise HandlerDelivery.Apart := by decide

/-- One event with two deliveries, of which the runtime knows the handler of one. -/
def splitDatabase : Database where
  events := sampleDatabase.events
  dispatchKeys := .empty
  handlerDeliveries :=
    ⟨[Database.queuedRow 0 1#128 0 "mailer", Database.queuedRow 1 1#128 0 "ledger"],
      splitRows_apart⟩
  nextDeliveryId := 2
  jobs := [⟨sampleEnv, none⟩, ⟨orphanEnv, none⟩]
  deliveryEvent := by decide
  deliveryIds := by decide

def splitRun : List WorkerLabel :=
  [.handOut sampleRuntime sampleEnv (sampleContext 1 101#128),
   .handOut sampleRuntime orphanEnv (sampleContext 1 102#128),
   .claim 1 1 .answered, .claim 0 2 .answered, .mark 1 3 .answered,
   .handler 0 0, .mark 0 4 .answered]

theorem split_run_independent :
    ∃ s, worker.run (.start splitDatabase) splitRun = some s ∧
      ((s.db.delivery? sampleEnv).map (·.status) = some .sent ∧
        (s.db.delivery? orphanEnv).map (·.status) = some .dead) ∧
      Independent splitDatabase splitRun s := by
  have ends : ((worker.run (.start splitDatabase) splitRun).map fun s =>
      ((s.db.delivery? sampleEnv).map (·.status), (s.db.delivery? orphanEnv).map (·.status))) =
      some (some .sent, some .dead) := by decide
  obtain ⟨s, run, statuses⟩ := Option.map_eq_some_iff.mp ends
  exact ⟨s, run, Prod.mk.inj statuses, deliveries_independent splitDatabase splitRun s run⟩

end RustEvents.Worker.Independence
