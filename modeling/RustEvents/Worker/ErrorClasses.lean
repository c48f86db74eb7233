/- module: RustEvents/Worker/ErrorClasses
   layer: model facts
   source: src/runtime.rs (handle_envelope, map_sql, map_mark_err), src/util.rs (redact_db_error), tests/redact_pii_in_last_error.rs
   digest: Two calls that differ in error texts and event columns only cannot be told apart by their verdicts or rows. -/

import RustEvents.Worker.Independence
import RustEvents.Worker.Verdicts

set_option autoImplicit false
set_option relaxedAutoImplicit false

namespace RustEvents.Worker.ErrorClasses

open RustEvents.Model.Errors
open RustEvents.Model.Schema
open RustEvents.Model.Builder
open RustEvents.Model.Runtime
open RustEvents.Worker.Statements
open RustEvents.Worker.Independence
open RustEvents.Worker.Verdicts
open RustEvents.Worker.Superseded (sampleEnv sampleDatabase sampleEvent sampleRuntime sampleContext)

/-- The variant of an error and its SQLSTATE code, without the text. -/
def classOf : SqlxError → SqlxError
  | .configuration _ => .configuration ""
  | .invalidArgument _ => .invalidArgument ""
  | .database code _ => .database code ""
  | .io _ => .io ""
  | .tls _ => .tls ""
  | .protocol _ => .protocol ""
  | .rowNotFound => .rowNotFound
  | .typeNotFound _ => .typeNotFound ""
  | .columnIndexOutOfBounds _ => .columnIndexOutOfBounds ""
  | .columnNotFound _ => .columnNotFound ""
  | .columnDecode _ => .columnDecode ""
  | .encode _ => .encode ""
  | .decode _ => .decode ""
  | .anyDriverError _ => .anyDriverError ""
  | .poolTimedOut => .poolTimedOut
  | .poolClosed => .poolClosed
  | .workerCrashed => .workerCrashed
  | .migrate _ => .migrate ""
  | .invalidSavePointStatement => .invalidSavePointStatement
  | .beginFailed => .beginFailed

def failure {β : Type} : Except SqlxError β → Option SqlxError
  | .error e => some (classOf e)
  | .ok _ => none

/-- How a statement fared: the class of its error, and whether Postgres applied it. -/
def fate {β : Type} (reply : Reply) (db : Database)
    (statement : Database → Except SqlxError (Database × β)) : Option SqlxError × Bool :=
  (failure (reply.answer db statement), (reply.effect db statement).isSome)

/-- One call of `handle_envelope` in its surroundings; `others` is what other sessions do to
the tables between its claim and its mark. -/
structure Run where
  others : Database → Database
  out : Surroundings
  db : Database

section

variable (rt : OutboxRuntime) (env : HandlerEnvelope) (ctx : JobContext) (x : Run)

namespace Run

def result : Database × Verdict := handleEnvelopeAmid x.others rt env ctx x.out x.db

/-- The claim as this run executes it. -/
def claim : Database → Except SqlxError (Database × Option ClaimRow) :=
  claimStatement env ctx x.out.claimNow

/-- The tables after the claim. -/
def claimed : Database := x.out.claimReply.after x.db (x.claim env ctx)

def claimFate : Option SqlxError × Bool := fate x.out.claimReply x.db (x.claim env ctx)

def progress : Progress := afterClaim rt env ctx (x.out.claimReply.answer x.db (x.claim env ctx))

/-- The mark that the call decides on and the verdict it is to return then, or the verdict
that it returns without a mark. -/
def decision : Verdict ⊕ Mark × Verdict :=
  match x.progress rt env ctx with
  | .returned verdict => .inl verdict
  | .marking mark verdict => .inr (mark, verdict)
  | .invoking handler payload hctx =>
    .inr (afterHandler rt ctx (handler.handleErased x.out.world payload hctx))

def markFate : Option (Option SqlxError × Bool) :=
  match x.decision rt env ctx with
  | .inl _ => none
  | .inr decided => some (fate x.out.markReply (x.others (x.claimed env ctx))
      (decided.1.statement env ctx.leaseToken x.out.markNow))

end Run

/-- Two runs that agree on everything but the texts of their errors and the columns of the
event: the same delivery row, clock readings, handler endings and error classes. -/
structure Twins (x y : Run) : Prop where
  row : y.db.delivery? env = x.db.delivery? env
  event : (y.db.event? env.eventId).isSome = (x.db.event? env.eventId).isSome
  claimNow : y.out.claimNow = x.out.claimNow
  markNow : y.out.markNow = x.out.markNow
  others : ∀ db db', db'.delivery? env = db.delivery? env →
    (y.others db').delivery? env = (x.others db).delivery? env
  handler : ∀ h payload hctx h' payload' hctx',
    x.progress rt env ctx = .invoking h payload hctx →
    y.progress rt env ctx = .invoking h' payload' hctx' →
    h'.handleErased y.out.world payload' hctx' = h.handleErased x.out.world payload hctx
  claimFate : y.claimFate env ctx = x.claimFate env ctx
  markFate : ∀ f f', x.markFate rt env ctx = some f → y.markFate rt env ctx = some f' → f' = f

/-- What the two runs return and write: the verdict with its text, and the whole row, hence
its status and `last_error`, after the claim and at the end. -/
structure SameOutcome (x y : Run) : Prop where
  verdict : (y.result rt env ctx).2 = (x.result rt env ctx).2
  claimed : (y.claimed env ctx).delivery? env = (x.claimed env ctx).delivery? env
  row : (y.result rt env ctx).1.delivery? env = (x.result rt env ctx).1.delivery? env

end

private theorem redactDbError_classOf (e : SqlxError) : redactDbError
    (classOf e) = redactDbError e := by
  cases e <;> rfl

private theorem isSqlxDeterministic_classOf (e : SqlxError) :
    isSqlxDeterministic (classOf e) = isSqlxDeterministic e := by
  cases e with
  | database code text => cases code <;> rfl
  | _ => rfl

private theorem mapSql_congr {e e' : SqlxError} (same : classOf e' = classOf e) (context : String) :
    mapSql e' context = mapSql e context := by
  have kind : isSqlxDeterministic e' = isSqlxDeterministic e := by
    rw [← isSqlxDeterministic_classOf, same, isSqlxDeterministic_classOf]
  have text : redactDbError e' = redactDbError e := by
    rw [← redactDbError_classOf, same, redactDbError_classOf]
  simp only [mapSql, kind, text]

/-- The columns of the claim's result that step ③ reads. -/
def verdictColumns (row : ClaimRow) : Option DeliveryStatus × Bool := (row.prevStatus, row.didUpdate)

section Statement

variable {β γ : Type} {env : HandlerEnvelope} {db db' : Database}
  {statement statement' : Database → Except SqlxError (Database × β)}

/-- Two results agree on the row, and on what `view` shows of the answer. -/
def viewed (env : HandlerEnvelope) (view : β → γ) (result : Except SqlxError (Database × β)) :
    Except SqlxError (Option HandlerDelivery × γ) :=
  result.map fun done => (done.1.delivery? env, view done.2)

/-- Two answers of one kind: errors of one class, or results that look the same. -/
def Matching (view : β → γ) : Except SqlxError β → Except SqlxError β → Prop
  | .error e, .error e' => classOf e' = classOf e
  | .ok b, .ok b' => view b' = view b
  | _, _ => False

private theorem statement_matches {view : β → γ} {reply reply' : Reply}
    (same : viewed env view (statement' db') = viewed env view (statement db))
    (row : db'.delivery? env = db.delivery? env)
    (fares : fate reply' db' statement' = fate reply db statement) :
    (reply'.after db' statement').delivery? env = (reply.after db statement).delivery? env ∧
      Matching view (reply.answer db statement) (reply'.answer db' statement') := by
  simp only [fate, Reply.answer, Reply.effect, Reply.after, Prod.mk.injEq] at fares ⊢
  cases here : statement db with
  | error e =>
    cases there : statement' db' with
    | ok done => simp [viewed, Except.map, here, there] at same
    | error e' =>
      -- Nothing was applied, whatever the reply.
      cases reply <;> cases reply' <;> simp_all [failure, Matching]
  | ok done =>
    cases there : statement' db' with
    | error e' => simp [viewed, Except.map, here, there] at same
    | ok done' =>
      simp only [viewed, Except.map, here, there, Except.ok.injEq, Prod.mk.injEq] at same
      cases reply <;> cases reply' <;> simp_all [failure, Matching]

end Statement

private theorem viewed_eq {β γ : Type} (env : HandlerEnvelope) (view : β → γ)
    (result : Except SqlxError (Database × β)) :
    viewed env view result = (shown env result).map fun seen => (seen.1, view seen.2) := by
  cases result <;> rfl

section Call

variable {rt : OutboxRuntime} {env : HandlerEnvelope} {ctx : JobContext}

private theorem claimSelect_columns (db : Database) (eventId : Uuid) (prev : Option DeliveryStatus)
    (did : Bool) :
    (claimSelect db eventId prev did).map verdictColumns =
      (db.event? eventId).map fun _ => (prev, did) := by
  simp only [claimSelect, Option.map_map]
  rfl

private theorem claim_viewed {db db' : Database} (row : db'.delivery? env = db.delivery? env)
    (event : (db'.event? env.eventId).isSome = (db.event? env.eventId).isSome) (now : Timestamp) :
    viewed env (Option.map verdictColumns) (claimStatement env ctx now db') =
      viewed env (Option.map verdictColumns) (claimStatement env ctx now db) := by
  have columns : ∀ prev did, (claimSelect db' env.eventId prev did).map verdictColumns =
      (claimSelect db env.eventId prev did).map verdictColumns := by
    intro prev did
    rw [claimSelect_columns, claimSelect_columns]
    cases here : db.event? env.eventId <;> cases there : db'.event? env.eventId <;>
      simp_all
  rw [viewed_eq, viewed_eq, claim_shown, claim_shown, row]
  simp only [claimOn]
  split
  · cases db.delivery? env with
    | none => simp only [Except.map, columns]
    | some locked =>
      simp only
      generalize updateOn _ _ _ = updated
      cases updated with
      | error e => rfl
      | ok done => simp only [Except.map, columns]
  · rfl

private theorem progress_cases {a a' : Except SqlxError (Option ClaimRow)}
    (matching : Matching (Option.map verdictColumns) a a') :
    (∃ verdict, afterClaim rt env ctx a = .returned verdict ∧
      afterClaim rt env ctx a' = .returned verdict) ∨
    (∃ mark verdict, afterClaim rt env ctx a = .marking mark verdict ∧
      afterClaim rt env ctx a' = .marking mark verdict) ∨
    ∃ h payload hctx h' payload' hctx', afterClaim rt env ctx a = .invoking h payload hctx ∧
      afterClaim rt env ctx a' = .invoking h' payload' hctx' := by
  cases a with
  | error e =>
    cases a' with
    | ok => exact matching.elim
    | error e' =>
      refine .inl ⟨_, rfl, ?_⟩
      rw [afterClaim, mapSql_congr matching]
  | ok row =>
    cases a' with
    | error => exact matching.elim
    | ok row' =>
      cases row with
      | none =>
        cases row' with
        | none => exact .inl ⟨_, rfl, rfl⟩
        | some => cases matching
      | some row =>
        cases row' with
        | none => cases matching
        | some row' =>
          obtain ⟨prev, did⟩ := Prod.mk.inj (Option.some.inj matching)
          simp only [afterClaim, prev, did]
          cases row.prevStatus with
          | none => exact .inl ⟨_, rfl, rfl⟩
          | some status =>
            cases row.didUpdate with
            | false =>
              simp only
              split <;> exact .inl ⟨_, rfl, rfl⟩
            | true =>
              cases rt.registry.lookup env.handlerId with
              | none => exact .inr (.inl ⟨_, _, rfl, rfl⟩)
              | some registered => exact .inr (.inr ⟨_, _, _, _, _, _, rfl, rfl⟩)

variable {x y : Run}

private theorem claim_matches (twins : Twins rt env ctx x y) :
    (y.claimed env ctx).delivery? env = (x.claimed env ctx).delivery? env ∧
      Matching (Option.map verdictColumns) (x.out.claimReply.answer x.db (x.claim env ctx))
        (y.out.claimReply.answer y.db (y.claim env ctx)) := by
  refine statement_matches ?_ twins.row twins.claimFate
  simp only [Run.claim, twins.claimNow]
  exact claim_viewed twins.row twins.event x.out.claimNow

private theorem decision_eq (twins : Twins rt env ctx x y) :
    y.decision rt env ctx = x.decision rt env ctx := by
  have handler := twins.handler
  simp only [Run.progress] at handler
  simp only [Run.decision, Run.progress]
  rcases progress_cases (claim_matches twins).2 with ⟨verdict, here, there⟩ |
    ⟨mark, verdict, here, there⟩ | ⟨h, payload, hctx, h', payload', hctx', here, there⟩
  · rw [here, there]
  · rw [here, there]
  · rw [here, there]
    simp only [handler _ _ _ _ _ _ here there]

private theorem result_eq (x : Run) :
    x.result rt env ctx =
      match x.decision rt env ctx with
      | .inl verdict => (x.claimed env ctx, verdict)
      | .inr decided => finishMark env ctx x.out decided (x.others (x.claimed env ctx)) := by
  simp only [Run.result, handleEnvelopeAmid, Run.decision, Run.progress, Run.claimed, Run.claim]
  generalize afterClaim rt env ctx _ = progress
  cases progress <;> rfl

private theorem markFate_eq {decided : Mark × Verdict}
    (here : x.decision rt env ctx = .inr decided) :
    x.markFate rt env ctx = some (fate x.out.markReply (x.others (x.claimed env ctx))
      (decided.1.statement env ctx.leaseToken x.out.markNow)) := by
  simp only [Run.markFate, here]

private theorem mark_matches (twins : Twins rt env ctx x y) {decided : Mark × Verdict}
    (here : x.decision rt env ctx = .inr decided) :
    ((finishMark env ctx y.out decided (y.others (y.claimed env ctx))).1.delivery? env =
      (finishMark env ctx x.out decided (x.others (x.claimed env ctx))).1.delivery? env) ∧
    (finishMark env ctx y.out decided (y.others (y.claimed env ctx))).2 =
      (finishMark env ctx x.out decided (x.others (x.claimed env ctx))).2 := by
  have there := (decision_eq twins).trans here
  have row := twins.others _ _ (claim_matches twins).1
  have fares := twins.markFate _ _ (markFate_eq here) (markFate_eq there)
  rw [twins.markNow] at fares
  have same : viewed env (id : ℕ → ℕ) (decided.1.statement env ctx.leaseToken x.out.markNow
        (y.others (y.claimed env ctx))) =
      viewed env id (decided.1.statement env ctx.leaseToken x.out.markNow
        (x.others (x.claimed env ctx))) := by
    rw [viewed_eq, viewed_eq, mark_alike row]
  obtain ⟨after, answers⟩ := statement_matches same row fares
  simp only [finishMark, twins.markNow]
  refine ⟨after, ?_⟩
  generalize x.out.markReply.answer _ _ = a at answers
  generalize y.out.markReply.answer _ _ = a' at answers
  cases a with
  | error e =>
    cases a' with
    | error e' => simp only [afterMark, mapMarkErr, mapSql_congr answers]
    | ok => exact answers.elim
  | ok n =>
    cases a' with
    | error => exact answers.elim
    | ok n' => rfl

/-- Whatever the database reports and whatever the event holds, the queue and the audit row
learn the class of an error only. -/
theorem errors_leak_only_their_class (twins : Twins rt env ctx x y) :
    SameOutcome rt env ctx x y := by
  have claimed := (claim_matches twins).1
  cases here : x.decision rt env ctx with
  | inl verdict =>
    have there := (decision_eq twins).trans here
    constructor
    · simp only [result_eq, here, there]
    · exact claimed
    · simp only [result_eq, here, there, claimed]
  | inr decided =>
    have there := (decision_eq twins).trans here
    obtain ⟨row, verdict⟩ := mark_matches twins here
    constructor
    · simp only [result_eq, here, there, verdict]
    · exact claimed
    · simp only [result_eq, here, there, row]

end Call

/-- A call whose mark violates a CHECK; the message quotes the given text. -/
def failingRun (detail : String) (db : Database) : Run where
  others := id
  out := ⟨1, .answered, 0, 2, .failed (.database (some "23514") detail)⟩
  db := db

/-- The sample tables, with the event of another tenant. -/
def otherTenant : Database where
  events := ⟨[{ sampleEvent with tenantId := "globex", payload := [91, 93] }], by simp⟩
  dispatchKeys := .empty
  handlerDeliveries := sampleDatabase.handlerDeliveries
  nextDeliveryId := 1
  jobs := []
  deliveryEvent := by decide
  deliveryIds := by decide

theorem errors_leak_only_their_class_sample :
    SameOutcome sampleRuntime sampleEnv (sampleContext 1 101#128)
      (failingRun "Failing row contains (acme)" sampleDatabase)
      (failingRun "Failing row contains (globex)" otherTenant) := by
  apply errors_leak_only_their_class
  refine ⟨by decide, by decide, rfl, rfl, fun _ _ same => same, ?_, by decide, ?_⟩
  · intro h payload hctx h' payload' hctx' here there
    cases here
    cases there
    rfl
  · intro f f' here there
    cases here
    cases there
    rfl

end RustEvents.Worker.ErrorClasses
