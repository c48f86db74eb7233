/- module: RustEvents/Model/Runtime
   layer: model
   source: src/runtime.rs
   digest: The claim CTE, the four fenced marks, and handle_envelope as a resumable sequence of phases. -/

import RustEvents.Model.Builder

set_option autoImplicit false
set_option relaxedAutoImplicit false

namespace RustEvents.Model.Runtime

open RustEvents.Model.Text
open RustEvents.Model.Errors
open RustEvents.Model.Schema
open RustEvents.Model.Builder

/-- `pg_work_queue::JobContext`. -/
structure JobContext where
  attempt : UInt32
  maxAttempts : UInt32
  leaseToken : Uuid
  idempotencyKey : Uuid
  deriving DecidableEq

/-- `i32::try_from(n).unwrap_or(i32::MAX)`. -/
def i32Saturating (n : UInt32) : ℤ := if n.toNat ≤ 2147483647 then n.toNat else 2147483647

/-- `OutboxRuntime` without its pool. -/
structure OutboxRuntime where
  config : OutboxConfig
  registry : Registry

/-- The SET clause of the claim CTE, with the `updated_at` trigger. -/
def claimSet (attempt : ℤ) (token : Uuid) (now : Timestamp) : SetClause where
  apply r :=
    { r with
      status := .running
      leaseToken := some token
      attempts := max (max r.attempts attempt) 1
      lastAttemptedAt := some now
      firstAttemptedAt := some (r.firstAttemptedAt.getD now)
      lastError := none
      updatedAt := now }
  id_apply _ := rfl
  envelope_apply _ := rfl

/-- One row of the claim's result. -/
structure ClaimRow where
  payload : Bytes
  tenantId : String
  producerBc : String
  headers : Json
  dispatchIdempotencyKey : Option String
  prevStatus : Option DeliveryStatus
  didUpdate : Bool

/-- The final SELECT of the CTE, over the tables as the statement found them. -/
def claimSelect (db : Database) (eventId : Uuid) (prevStatus : Option DeliveryStatus)
    (didUpdate : Bool) : Option ClaimRow :=
  (db.event? eventId).map fun e =>
    { payload := e.payload
      tenantId := e.tenantId
      producerBc := e.producerBc
      headers := fromJsonb e.headers
      dispatchIdempotencyKey := db.keyOf e.id
      prevStatus := prevStatus
      didUpdate := didUpdate }

/-- The whole step-② statement: `locked`, `updated`, and the final SELECT. Text parameters
are encoded before the statement runs. -/
def claimStatement (env : HandlerEnvelope) (ctx : JobContext) (now : Timestamp) (db : Database) :
    Except SqlxError (Database × Option ClaimRow) :=
  if storable env.handlerId then
    match db.delivery? env with
    | none => .ok (db, claimSelect db env.eventId none false)
    | some locked =>
      match db.updateDeliveries (fun hd => hd.id = locked.id && !locked.status.isTerminal)
          (claimSet (i32Saturating ctx.attempt) ctx.leaseToken now) with
      | .error e => .error e
      | .ok (db', updated) =>
        .ok (db', claimSelect db env.eventId (some locked.status) (0 < updated))
  else .error characterNotInRepertoire

/-- `sanitize_reason` and `truncate_utf8`, as every mark applies them to its reason. -/
def trimmedReason (reason : String) : String :=
  truncateUtf8 (sanitizeReason reason) maxLastErrorBytes

/-- The WHERE clause that the four marks share. -/
def fencedBy (env : HandlerEnvelope) (token : Uuid) (r : HandlerDelivery) : Bool :=
  r.envelope = env && r.status = .running && r.leaseToken = some token

/-- A fenced UPDATE; `texts` are its text parameters besides the handler id. -/
def markFenced (set : SetClause) (texts : List String) (env : HandlerEnvelope) (token : Uuid)
    (db : Database) : Except SqlxError (Database × ℕ) :=
  if (env.handlerId :: texts).all storable then db.updateDeliveries (fencedBy env token) set
  else .error characterNotInRepertoire

/-- SET clause of a terminal mark. -/
def finishSet (status : DeliveryStatus) (lastError : Option String) (now : Timestamp) :
    SetClause where
  apply r :=
    { r with
      status := status
      finishedAt := some now
      leaseToken := none
      lastError := lastError
      updatedAt := now }
  id_apply _ := rfl
  envelope_apply _ := rfl

/-- SET clause of `mark_awaiting_retry_fenced`, the only one that leaves `finished_at` alone. -/
def awaitSet (lastError : String) (now : Timestamp) : SetClause where
  apply r :=
    { r with
      status := .awaitingRetry
      leaseToken := none
      lastError := some lastError
      updatedAt := now }
  id_apply _ := rfl
  envelope_apply _ := rfl

def markSentFenced (env : HandlerEnvelope) (token : Uuid) (now : Timestamp) :
    Database → Except SqlxError (Database × ℕ) :=
  markFenced (finishSet .sent none now) [] env token

def markAwaitingRetryFenced (env : HandlerEnvelope) (reason : String) (token : Uuid)
    (now : Timestamp) : Database → Except SqlxError (Database × ℕ) :=
  markFenced (awaitSet (trimmedReason reason) now) [trimmedReason reason] env token

def markDeadFenced (env : HandlerEnvelope) (reason : String) (token : Uuid) (now : Timestamp) :
    Database → Except SqlxError (Database × ℕ) :=
  markFenced (finishSet .dead (some (trimmedReason reason)) now) [trimmedReason reason] env token

def markSkippedFenced (env : HandlerEnvelope) (reason : String) (token : Uuid)
    (now : Timestamp) : Database → Except SqlxError (Database × ℕ) :=
  markFenced (finishSet .skipped (some (trimmedReason reason)) now) [trimmedReason reason] env token

/-- The mark that an invocation has decided on. -/
inductive Mark where
  | sent
  | awaitingRetry (reason : String)
  | dead (reason : String)
  | skipped (reason : String)
  deriving DecidableEq

def Mark.statement (env : HandlerEnvelope) (token : Uuid) (now : Timestamp) :
    Mark → Database → Except SqlxError (Database × ℕ)
  | .sent => markSentFenced env token now
  | .awaitingRetry reason => markAwaitingRetryFenced env reason token now
  | .dead reason => markDeadFenced env reason token now
  | .skipped reason => markSkippedFenced env reason token now

/-- The context text of `map_mark_err` for each mark. -/
def Mark.kind : Mark → String
  | .sent => "mark_sent"
  | .awaitingRetry _ => "mark_retry"
  | .dead _ => "mark_dead"
  | .skipped _ => "mark_skipped"

/-- The status that a mark writes. -/
def Mark.status : Mark → DeliveryStatus
  | .sent => .sent
  | .awaitingRetry _ => .awaitingRetry
  | .dead _ => .dead
  | .skipped _ => .skipped

/-- Where an invocation of `handle_envelope` stands once step ② is over. -/
inductive Progress where
  | invoking (handler : ErasedHandler) (payload : Bytes) (hctx : HandlerContext)
  | marking (mark : Mark) (verdict : Verdict)
  | returned (verdict : Verdict)

/-- Where an invocation stands between two of its awaits. -/
inductive Phase where
  | claiming
  | claimed (progress : Progress)

/-- Steps ③ to ④: discriminate the claim's result, look the handler up, build its context. -/
def afterClaim (rt : OutboxRuntime) (env : HandlerEnvelope) (ctx : JobContext) :
    Except SqlxError (Option ClaimRow) → Progress
  | .error e => .returned (some (mapSql e "fetch delivery"))
  | .ok none => .returned (some (.abort "event row missing"))
  | .ok (some row) =>
    match row.prevStatus, row.didUpdate with
    | none, _ => .returned (some (.abort "handler_delivery row not found"))
    | some prev, false =>
      if prev.isTerminal then .returned none
      else .returned (some (.retry "audit row UPDATE collision" none))
    | some _, true =>
      match rt.registry.lookup env.handlerId with
      | none => .marking (.dead "handler not registered") (some (.abort "handler not registered"))
      | some registered =>
        .invoking registered.handler row.payload
          { eventId := env.eventId
            tenantId := row.tenantId
            producerBc := row.producerBc
            attempt := ctx.attempt
            maxAttempts := ctx.maxAttempts
            deliveryKey := ctx.idempotencyKey
            dispatchIdempotencyKey := row.dispatchIdempotencyKey
            headers := parseHeaders row.headers }

/-- The budget of one handler: its own override, or the global one. -/
def effectiveTimeout (config : OutboxConfig) (registered : RegisteredHandler) : Duration :=
  registered.handlerTimeout.getD config.handlerTimeout

/-- The internal timer of step ⑤, which leaves room for the mark. -/
def ourTimeout (effective : Duration) : Duration :=
  max (effective - handlerCleanupBudget) (millis 100)

/-- Step ⑤: panics and timeouts become handler errors. -/
def caughtOutcome (policy : PanicPolicy) : HandlerRun HandlerOutcome → HandlerOutcome
  | .returned o => o
  | .panicked payload =>
    let msg := sanitizeReason (panicPayloadMessage payload)
    match policy with
    | .retry => .handler (.retry ("panic: " ++ msg) none)
    | .dead => .handler (.abort ("panic: " ++ msg))
  | .elapsed => .handler (.retry "handler_timeout" none)

/-- Step ⑥: decode failures follow the configured strategy. -/
def translated (strategy : DecodeStrategy) : HandlerOutcome → Option HandlerError
  | .ok => none
  | .handler e => some e
  | .decodeFailed reason =>
    match strategy with
    | .retry => some (.retry reason none)
    | .abort => some (.abort reason)

/-- Step ⑦: the mark to execute and the verdict to return after it. -/
def terminalTransition (ctx : JobContext) : Option HandlerError → Mark × Verdict
  | none => (.sent, none)
  | some (.retry reason retryIn) =>
    (if ctx.attempt ≥ ctx.maxAttempts then .dead reason else .awaitingRetry reason,
      some (.retry (trimmedReason reason) retryIn))
  | some (.skip reason) => (.skipped reason, some (.abort ("skipped: " ++ trimmedReason reason)))
  | some (.abort reason) => (.dead reason, some (.abort (trimmedReason reason)))

/-- Steps ⑤ to ⑦ up to the mark. -/
def afterHandler (rt : OutboxRuntime) (ctx : JobContext) (run : HandlerRun HandlerOutcome) :
    Mark × Verdict :=
  terminalTransition ctx
    (translated rt.config.decodeErrorStrategy (caughtOutcome rt.config.panicPolicy run))

/-- A mark that fails replaces the verdict; a fenced-out mark does not. -/
def afterMark (mark : Mark) (verdict : Verdict) : Except SqlxError ℕ → Verdict
  | .error e => some (mapMarkErr e mark.kind)
  | .ok _ => verdict

/-- What becomes of one statement on its way to Postgres and back. -/
inductive Reply where
  | answered
  | failed (e : SqlxError)
  | lost (e : SqlxError)
  deriving DecidableEq

section Delivery

variable {β : Type} (reply : Reply) (db : Database)
  (statement : Database → Except SqlxError (Database × β))

/-- What Postgres executed: `failed` never reaches it, `lost` is applied in full. -/
def Reply.effect : Option (Database × β) :=
  match reply, statement db with
  | .failed _, _ => none
  | _, .error _ => none
  | _, .ok done => some done

/-- The tables after the statement. -/
def Reply.after : Database := ((reply.effect db statement).map Prod.fst).getD db

/-- What the caller awaits: a lost answer is an error although the statement was applied. -/
def Reply.answer : Except SqlxError β :=
  match reply, statement db with
  | .failed e, _ => .error e
  | .lost e, _ => .error e
  | .answered, .error e => .error e
  | .answered, .ok done => .ok done.2

end Delivery

/-- How the surroundings answer one whole call of `handle_envelope`. -/
structure Surroundings where
  claimNow : Timestamp
  claimReply : Reply
  world : World
  markNow : Timestamp
  markReply : Reply

/-- Execute the mark that was decided on and return. -/
def finishMark (env : HandlerEnvelope) (ctx : JobContext) (out : Surroundings)
    (decided : Mark × Verdict) (db : Database) : Database × Verdict :=
  let statement := decided.1.statement env ctx.leaseToken out.markNow
  (out.markReply.after db statement,
    afterMark decided.1 decided.2 (out.markReply.answer db statement))

/-- One call of `handle_envelope` without interference between its statements. -/
def handleEnvelope (rt : OutboxRuntime) (env : HandlerEnvelope) (ctx : JobContext)
    (out : Surroundings) (db : Database) : Database × Verdict :=
  let statement := claimStatement env ctx out.claimNow
  let claimed := out.claimReply.after db statement
  match afterClaim rt env ctx (out.claimReply.answer db statement) with
  | .returned verdict => (claimed, verdict)
  | .marking mark verdict => finishMark env ctx out (mark, verdict) claimed
  | .invoking handler payload hctx =>
    finishMark env ctx out (afterHandler rt ctx (handler.handleErased out.world payload hctx))
      claimed

end RustEvents.Model.Runtime
