/- module: RustEvents/Model/Dispatch
   layer: model
   source: src/outbox.rs (Outbox::dispatch), src/dispatch_context.rs, src/outcome.rs
   digest: One dispatch as its three awaited statements, and a transaction as a list of dispatches. -/

import RustEvents.Model.Builder

set_option autoImplicit false
set_option relaxedAutoImplicit false

namespace RustEvents.Model.Dispatch

open RustEvents.Model.Text
open RustEvents.Model.Errors
open RustEvents.Model.Schema
open RustEvents.Model.Builder

structure DispatchContext where
  tenantId : String
  producerBc : String
  idempotencyKey : Option String
  headers : Option JsonMap

def DispatchContext.new (tenantId : String) : DispatchContext := ⟨tenantId, "", none, none⟩

/-- What `dispatch` reads of an event: its type's wire name, its aggregate key and the
result of `serde_json::to_vec`. -/
structure DomainEvent where
  eventType : String
  aggregateKey : Option String
  toVec : Except SerdeError Bytes

inductive DispatchOutcome where
  | dispatched (eventId : Uuid) (deliveries : ℕ)
  | duplicate (eventId : Uuid)
  | noHandlers (eventId : Uuid)
  deriving DecidableEq

def DispatchOutcome.eventId : DispatchOutcome → Uuid
  | .dispatched eventId _ => eventId
  | .duplicate eventId => eventId
  | .noHandlers eventId => eventId

/-- The outcomes that persist an event. -/
def DispatchOutcome.creates : DispatchOutcome → Bool
  | .duplicate _ => false
  | _ => true

/-- Failures from outside: each statement of a dispatch may fail before it has an effect. -/
structure Faults where
  reserve : Option SqlxError
  insert : Option SqlxError
  push : Option PushError
  deriving DecidableEq

def Faults.none : Faults := ⟨.none, .none, .none⟩

/-- One call of `dispatch`, with the id that `Uuid::now_v7` returns in it and the
transaction's `now()`. -/
structure Call where
  outbox : Outbox
  ctx : DispatchContext
  event : DomainEvent
  eventId : Uuid
  now : Timestamp
  faults : Faults

/-- Tenant and idempotency key of a keyed call. -/
def Call.key (c : Call) : Option (String × String) :=
  c.ctx.idempotencyKey.map fun k => (c.ctx.tenantId, k)

/-- A required text field: one byte at least and `max` at most. -/
def checkFilled (s : String) (max : ℕ) (reject : ℕ → ℕ → DispatchError) :
    Except DispatchError Unit :=
  if len s = 0 ∨ max < len s then .error (reject (len s) max) else .ok ()

def checkLength (s : String) (max : ℕ) (reject : ℕ → ℕ → DispatchError) :
    Except DispatchError Unit :=
  if max < len s then .error (reject (len s) max) else .ok ()

def checkEventType (event : DomainEvent) : Except DispatchError Unit :=
  checkFilled event.eventType maxEventTypeBytes .eventTypeInvalid

def checkTenantId (ctx : DispatchContext) : Except DispatchError Unit :=
  checkLength ctx.tenantId maxTenantBytes .tenantIdTooLong

def checkProducerBc (ctx : DispatchContext) : Except DispatchError Unit :=
  checkLength ctx.producerBc maxBcBytes .producerBcTooLong

def checkIdempotencyKey (ctx : DispatchContext) : Except DispatchError Unit :=
  match ctx.idempotencyKey with
  | none => .ok ()
  | some k => checkFilled k maxIdempotencyKeyBytes .idempotencyKeyInvalid

def checkAggregateKey (event : DomainEvent) : Except DispatchError Unit :=
  match event.aggregateKey with
  | none => .ok ()
  | some ak => checkFilled ak maxAggregateKeyBytes .aggregateKeyInvalid

/-- Step 2. -/
def encodePayload (event : DomainEvent) : Except DispatchError Bytes :=
  match event.toVec with
  | .error e => .error (.codec e)
  | .ok payload =>
    if maxPayloadBytes < payload.length then
      .error (.payloadTooLarge payload.length maxPayloadBytes)
    else .ok payload

/-- Step 4; strict mode refuses an event without handlers. -/
def lookupHandlers (o : Outbox) (event : DomainEvent) : Except DispatchError (List String) :=
  let handlerIds := o.registry.handlerIdsFor event.eventType
  if handlerIds = [] ∧ o.allowNoHandlers = false then
    .error (.noHandlersRegistered event.eventType)
  else .ok handlerIds

/-- Steps 1 to 4, before any I/O. -/
def prepare (c : Call) : Except DispatchError (Bytes × List String) := do
  checkEventType c.event
  checkTenantId c.ctx
  checkProducerBc c.ctx
  checkIdempotencyKey c.ctx
  checkAggregateKey c.event
  let payload ← encodePayload c.event
  let handlerIds ← lookupHandlers c.outbox c.event
  return (payload, handlerIds)

/-- The no-op upsert of step 5. Returns the stored event id and `xmax = 0`. -/
def upsertKey (c : Call) (key : String) (db : Database) :
    Except SqlxError (Database × Uuid × Bool) :=
  let row : DispatchKeyRow := ⟨c.ctx.tenantId, key, c.eventId, c.now⟩
  if storable c.ctx.tenantId && storable key then
    match row.violated with
    | some constraint => .error (checkViolation constraint)
    | none =>
      match db.key? c.ctx.tenantId key with
      | some existing => .ok (db, existing.eventId, false)
      | none => (db.insertKey row).map fun db' => (db', c.eventId, true)
  else .error characterNotInRepertoire

/-- Where a call stands after step 5. -/
inductive Reserved where
  | returned (result : Except DispatchError DispatchOutcome)
  | inserting (payload : Bytes) (handlerIds : List String)

/-- Where a call stands after its second statement. -/
inductive Inserted where
  | returned (result : Except DispatchError DispatchOutcome)
  | pushing (handlerIds : List String)

/-- Steps 1 to 5. -/
def reserveStep (c : Call) (db : Database) : Database × Reserved :=
  match prepare c with
  | .error e => (db, .returned (.error e))
  | .ok (payload, handlerIds) =>
    match c.ctx.idempotencyKey with
    | none => (db, .inserting payload handlerIds)
    | some key =>
      match c.faults.reserve with
      | some e => (db, .returned (.error (.ofSqlx e)))
      | none =>
        match upsertKey c key db with
        | .error e => (db, .returned (.error (.ofSqlx e)))
        | .ok (db', existing, false) => (db', .returned (.ok (.duplicate existing)))
        | .ok (db', _, true) => (db', .inserting payload handlerIds)

/-- `serde_json::to_string` of a map of JSON values cannot fail. -/
def encodeHeaders (ctx : DispatchContext) : Except SerdeError String :=
  .ok (compactText (.object (ctx.headers.getD [])))

def eventRow (c : Call) (payload : Bytes) : EventRow where
  id := c.eventId
  eventType := c.event.eventType
  producerBc := c.ctx.producerBc
  tenantId := c.ctx.tenantId
  aggregateKey := c.event.aggregateKey
  payload := payload
  headers := .object (c.ctx.headers.getD [])
  createdAt := c.now

/-- Parameters are encoded before the cast of the headers runs. -/
def textError (texts : List String) : SqlxError :=
  if texts.all storable then untranslatableCharacter else characterNotInRepertoire

/-- The INSERT of step 7 without handlers, and its merged form of step 8. -/
def insertStatement (c : Call) (payload : Bytes) (handlerIds : List String) (db : Database) :
    Except SqlxError Database :=
  let row := eventRow c payload
  let texts := [row.eventType, row.producerBc, row.tenantId] ++ row.aggregateKey.toList ++ handlerIds
  if texts.all storable && castable row.headers then
    match db.insertEvent row with
    | .error e => .error e
    | .ok db' =>
      if handlerIds = [] then .ok db' else db'.insertDeliveries c.eventId handlerIds c.now
  else .error (textError texts)

/-- Steps 6 to 8. -/
def insertStep (c : Call) (payload : Bytes) (handlerIds : List String) (db : Database) :
    Database × Inserted :=
  match encodeHeaders c.ctx with
  | .error e => (db, .returned (.error (.codec e)))
  | .ok headersText =>
    if maxHeadersBytes < len headersText then
      (db, .returned (.error (.headersTooLarge (len headersText) maxHeadersBytes)))
    else
      match c.faults.insert with
      | some e => (db, .returned (.error (.ofSqlx e)))
      | none =>
        match insertStatement c payload handlerIds db with
        | .error e => (db, .returned (.error (.ofSqlx e)))
        | .ok db' =>
          if handlerIds = [] then (db', .returned (.ok (.noHandlers c.eventId)))
          else (db', .pushing handlerIds)

/-- The item pushed for one handler; only a limited handler gets a concurrency key. -/
def jobFor (c : Call) (handlerId : String) : Job where
  envelope := ⟨c.eventId, handlerId⟩
  concurrencyKey :=
    ((c.outbox.registry.lookup handlerId).bind RegisteredHandler.concurrencyLimit).map
      fun _ => handlerId

/-- Step 9. -/
def pushStep (c : Call) (handlerIds : List String) (db : Database) :
    Database × Except DispatchError DispatchOutcome :=
  match c.faults.push with
  | some e => (db, .error (.pgwqPush e))
  | none => (db.pushJobs (handlerIds.map (jobFor c)),
      .ok (.dispatched c.eventId handlerIds.length))

/-- `Outbox::dispatch`, on the tables as its transaction sees them. -/
def dispatch (c : Call) (db : Database) : Database × Except DispatchError DispatchOutcome :=
  match reserveStep c db with
  | (db1, .returned result) => (db1, result)
  | (db1, .inserting payload handlerIds) =>
    match insertStep c payload handlerIds db1 with
    | (db2, .returned result) => (db2, result)
    | (db2, .pushing handlerIds) => pushStep c handlerIds db2

/-- The calls of one transaction in order; their results in the same order. -/
def dispatchAll : List Call → Database → Database × List (Except DispatchError DispatchOutcome)
  | [], db => (db, [])
  | c :: cs, db =>
    let (db1, result) := dispatch c db
    let (db2, results) := dispatchAll cs db1
    (db2, result :: results)

/-- One transaction of the application. It commits only if every dispatch returned `Ok`,
and COMMIT checks the deferred foreign key. -/
structure Transaction where
  calls : List Call
  commits : Bool

def Transaction.execute (tx : Transaction) (db : Database) : Database :=
  let (db', results) := dispatchAll tx.calls db
  if tx.commits && results.all Except.isOk && decide db'.KeysReferEvents then db' else db

/-- SQLSTATE of every statement after one that failed in the same transaction. -/
def inFailedTransaction : SqlxError := .database (some "25P02") "current transaction is aborted"

/-- The same call in a transaction that has failed: the first statement it reaches is refused. -/
def Call.inAborted (c : Call) : Call :=
  { c with faults := ⟨some inFailedTransaction, some inFailedTransaction, c.faults.push⟩ }

/-- A failed statement aborts the transaction; what `dispatch` rejects itself does not. Every
error of `push_items` counts as one of its statement, also those that `pg_work_queue` finds
before it sends any. -/
def aborts : Except DispatchError DispatchOutcome → Bool
  | .ok _ => false
  | .error e => !e.typed

/-- An open transaction: the tables as it sees them, and whether a statement has failed in it. -/
structure Session where
  db : Database
  aborted : Bool

def Session.dispatch (s : Session) (c : Call) : Session × Except DispatchError DispatchOutcome :=
  let (db, result) := Dispatch.dispatch (if s.aborted then c.inAborted else c) s.db
  (⟨db, s.aborted || aborts result⟩, result)

/-- The calls of one transaction in order, whatever each of them returns. -/
def Session.dispatchAll (s : Session) :
    List Call → Session × List (Except DispatchError DispatchOutcome)
  | [] => (s, [])
  | c :: cs =>
    let (s1, result) := s.dispatch c
    let (s2, results) := s1.dispatchAll cs
    (s2, result :: results)

/-- COMMIT takes effect: the application asks for it, no statement has failed, and the
deferred foreign key holds. -/
def Transaction.settles (tx : Transaction) (db : Database) : Bool :=
  let s := ((Session.mk db false).dispatchAll tx.calls).1
  tx.commits && !s.aborted && decide s.db.KeysReferEvents

/-- The tables that the transaction leaves. -/
def Transaction.settled (tx : Transaction) (db : Database) : Database :=
  if tx.settles db then ((Session.mk db false).dispatchAll tx.calls).1.db else db

/-- The results that the transaction's calls returned, committed or not. -/
def Transaction.results (tx : Transaction) (db : Database) :
    List (Except DispatchError DispatchOutcome) :=
  ((Session.mk db false).dispatchAll tx.calls).2

end RustEvents.Model.Dispatch
