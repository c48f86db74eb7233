/- module: RustEvents/Model/Schema
   layer: model
   source: migrations/20260513000001_v01_outbox_init.sql, src/history.rs, src/envelope.rs
   digest: The three outbox tables with their CHECKs, indexes and foreign keys, and the queue's jobs. -/

import RustEvents.Foundation.IndexedTable
import RustEvents.Model.Errors
import Mathlib.Data.Int.Notation

set_option autoImplicit false
set_option relaxedAutoImplicit false

namespace RustEvents.Model.Schema

open RustEvents.Foundation.IndexedTable
open RustEvents.Model.Text
open RustEvents.Model.Errors

abbrev Uuid := BitVec 128

/-- A `timestamptz`, in microseconds. -/
abbrev Timestamp := ℤ

abbrev Bytes := List UInt8

/-- The enum `outbox.delivery_status`. -/
inductive DeliveryStatus where
  | queued | running | awaitingRetry | sent | skipped | dead
  deriving DecidableEq, Repr

/-- `status IN ('sent','dead','skipped')`. -/
def DeliveryStatus.isTerminal : DeliveryStatus → Bool
  | .sent | .dead | .skipped => true
  | .queued | .running | .awaitingRetry => false

structure EventRow where
  id : Uuid
  eventType : String
  producerBc : String
  tenantId : String
  aggregateKey : Option String
  payload : Bytes
  headers : Json
  createdAt : Timestamp

structure DispatchKeyRow where
  tenantId : String
  idempotencyKey : String
  eventId : Uuid
  createdAt : Timestamp
  deriving DecidableEq

structure HandlerDelivery where
  id : ℕ
  eventId : Uuid
  handlerId : String
  status : DeliveryStatus
  attempts : ℤ
  lastError : Option String
  leaseToken : Option Uuid
  firstAttemptedAt : Option Timestamp
  lastAttemptedAt : Option Timestamp
  finishedAt : Option Timestamp
  createdAt : Timestamp
  updatedAt : Timestamp
  deriving DecidableEq

/-- The payload of one `pg_work_queue` job. -/
structure HandlerEnvelope where
  eventId : Uuid
  handlerId : String
  deriving DecidableEq

/-- A pushed job, as far as `push_batch` determines it. -/
structure Job where
  envelope : HandlerEnvelope
  concurrencyKey : Option String
  deriving DecidableEq

inductive EventCheck where
  | eventTypeBytes | producerBcBytes | tenantIdBytes | aggregateKeyBytes | payloadSize
  | headersObject | headersSize
  deriving DecidableEq

inductive KeyCheck where
  | tenantBytes | keyBytes
  deriving DecidableEq

inductive DeliveryCheck where
  | handlerBytes | attemptsNonneg | lastErrorBytes | temporal | statusInvariants
  deriving DecidableEq

/-- `octet_length(s) BETWEEN 1 AND max`. -/
def between1 (max : ℕ) (s : String) : Bool := 1 ≤ len s && len s ≤ max

def EventCheck.holds (r : EventRow) : EventCheck → Bool
  | .eventTypeBytes => between1 128 r.eventType
  | .producerBcBytes => len r.producerBc ≤ 64
  | .tenantIdBytes => len r.tenantId ≤ 64
  | .aggregateKeyBytes => r.aggregateKey.all (between1 128)
  | .payloadSize => r.payload.length ≤ 1048576
  | .headersObject => isObject r.headers
  | .headersSize => len (jsonbText r.headers) ≤ 16384

def KeyCheck.holds (r : DispatchKeyRow) : KeyCheck → Bool
  | .tenantBytes => len r.tenantId ≤ 64
  | .keyBytes => between1 128 r.idempotencyKey

/-- `handler_deliveries_temporal`. -/
def HandlerDelivery.temporal (r : HandlerDelivery) : Bool :=
  r.firstAttemptedAt.all (r.createdAt ≤ ·) &&
  r.lastAttemptedAt.all (r.firstAttemptedAt.getD r.createdAt ≤ ·) &&
  r.finishedAt.all (r.lastAttemptedAt.getD r.createdAt ≤ ·) &&
  r.createdAt ≤ r.updatedAt

/-- `handler_deliveries_status_invariants`. -/
def HandlerDelivery.statusInvariants (r : HandlerDelivery) : Bool :=
  match r.status with
  | .queued =>
      r.attempts = 0 && r.firstAttemptedAt.isNone && r.lastAttemptedAt.isNone &&
      r.finishedAt.isNone && r.leaseToken.isNone
  | .running =>
      0 < r.attempts && r.firstAttemptedAt.isSome && r.lastAttemptedAt.isSome &&
      r.finishedAt.isNone && r.leaseToken.isSome
  | .awaitingRetry =>
      0 < r.attempts && r.firstAttemptedAt.isSome && r.lastAttemptedAt.isSome &&
      r.finishedAt.isNone && r.leaseToken.isNone
  | .sent | .dead | .skipped =>
      0 < r.attempts && r.firstAttemptedAt.isSome && r.lastAttemptedAt.isSome &&
      r.finishedAt.isSome && r.leaseToken.isNone

def DeliveryCheck.holds (r : HandlerDelivery) : DeliveryCheck → Bool
  | .handlerBytes => between1 128 r.handlerId
  | .attemptsNonneg => 0 ≤ r.attempts
  | .lastErrorBytes => r.lastError.all (len · ≤ 8192)
  | .temporal => r.temporal
  | .statusInvariants => r.statusInvariants

def eventChecks : List (String × EventCheck) :=
  [("events_event_type_bytes", .eventTypeBytes), ("events_producer_bc_bytes", .producerBcBytes),
   ("events_tenant_id_bytes", .tenantIdBytes), ("events_aggregate_key_bytes", .aggregateKeyBytes),
   ("events_payload_size", .payloadSize), ("events_headers_object", .headersObject),
   ("events_headers_size", .headersSize)]

def keyChecks : List (String × KeyCheck) :=
  [("dispatch_keys_tenant_bytes", .tenantBytes), ("dispatch_keys_key_bytes", .keyBytes)]

def deliveryChecks : List (String × DeliveryCheck) :=
  [("handler_deliveries_handler_bytes", .handlerBytes),
   ("handler_deliveries_attempts_nonneg", .attemptsNonneg),
   ("handler_deliveries_last_error_bytes", .lastErrorBytes),
   ("handler_deliveries_temporal", .temporal),
   ("handler_deliveries_status_invariants", .statusInvariants)]

/-- The name of the first violated constraint of a row. -/
def violated {κ : Type} (checks : List (String × κ)) (holds : κ → Bool) : Option String :=
  (checks.find? fun c => !holds c.2).map Prod.fst

def EventRow.violated (r : EventRow) : Option String :=
  Schema.violated eventChecks (EventCheck.holds r)

def DispatchKeyRow.violated (r : DispatchKeyRow) : Option String :=
  Schema.violated keyChecks (KeyCheck.holds r)

def HandlerDelivery.violated (r : HandlerDelivery) : Option String :=
  Schema.violated deliveryChecks (DeliveryCheck.holds r)

/-- Primary key of `events`. -/
def EventRow.Apart (a b : EventRow) : Prop := a.id ≠ b.id

/-- Primary key of `dispatch_keys`. -/
def DispatchKeyRow.key (r : DispatchKeyRow) : String × String := (r.tenantId, r.idempotencyKey)

/-- Primary key and the unique index on `event_id`. -/
def DispatchKeyRow.Apart (a b : DispatchKeyRow) : Prop := a.key ≠ b.key ∧ a.eventId ≠ b.eventId

/-- The columns of `UNIQUE (event_id, handler_id)`. -/
def HandlerDelivery.envelope (r : HandlerDelivery) : HandlerEnvelope := ⟨r.eventId, r.handlerId⟩

/-- Identity primary key and `UNIQUE (event_id, handler_id)`. -/
def HandlerDelivery.Apart (a b : HandlerDelivery) : Prop :=
  a.id ≠ b.id ∧ a.envelope ≠ b.envelope

instance : DecidableRel EventRow.Apart := fun a b => inferInstanceAs (Decidable (a.id ≠ b.id))

instance : DecidableRel DispatchKeyRow.Apart := fun a b =>
  inferInstanceAs (Decidable (a.key ≠ b.key ∧ a.eventId ≠ b.eventId))

instance : DecidableRel HandlerDelivery.Apart := fun a b =>
  inferInstanceAs (Decidable (a.id ≠ b.id ∧ a.envelope ≠ b.envelope))

/-- One state of the database. The immediate foreign key of
`handler_deliveries` and the identity sequence are part of the type; the
deferred foreign key of `dispatch_keys` is checked at commit. -/
structure Database where
  events : Table EventRow EventRow.Apart
  dispatchKeys : Table DispatchKeyRow DispatchKeyRow.Apart
  handlerDeliveries : Table HandlerDelivery HandlerDelivery.Apart
  nextDeliveryId : ℕ
  jobs : List Job
  deliveryEvent : ∀ d ∈ handlerDeliveries.rows, ∃ e ∈ events.rows, e.id = d.eventId
  deliveryIds : ∀ d ∈ handlerDeliveries.rows, d.id < nextDeliveryId

/-- The migrated schema before the first dispatch. -/
def Database.empty : Database where
  events := .empty
  dispatchKeys := .empty
  handlerDeliveries := .empty
  nextDeliveryId := 0
  jobs := []
  deliveryEvent := by simp [Table.empty]
  deliveryIds := by simp [Table.empty]

theorem Database.ext_tables {db db' : Database} (events : db.events = db'.events)
    (keys : db.dispatchKeys = db'.dispatchKeys)
    (deliveries : db.handlerDeliveries = db'.handlerDeliveries)
    (nextId : db.nextDeliveryId = db'.nextDeliveryId) (jobs : db.jobs = db'.jobs) : db = db' := by
  cases db
  cases db'
  cases events
  cases keys
  cases deliveries
  cases nextId
  cases jobs
  rfl

/-- A SET clause of `handler_deliveries`; no statement assigns the columns of an index. -/
structure SetClause where
  apply : HandlerDelivery → HandlerDelivery
  id_apply : ∀ r, (apply r).id = r.id
  envelope_apply : ∀ r, (apply r).envelope = r.envelope

def SetClause.rowUpdate (set : SetClause) : RowUpdate HandlerDelivery.Apart where
  apply := set.apply
  left a b := by simp only [HandlerDelivery.Apart, set.id_apply, set.envelope_apply]
  right a b := by simp only [HandlerDelivery.Apart, set.id_apply, set.envelope_apply]

private theorem SetClause.eventId_apply (set : SetClause) (r : HandlerDelivery) :
    (set.apply r).eventId = r.eventId :=
  congrArg HandlerEnvelope.eventId (set.envelope_apply r)

namespace Database

variable (db : Database)

def event? (eventId : Uuid) : Option EventRow := db.events.find EventRow.id eventId

/-- The row of `UNIQUE (event_id, handler_id)`. -/
def delivery? (env : HandlerEnvelope) : Option HandlerDelivery :=
  db.handlerDeliveries.find HandlerDelivery.envelope env

def key? (tenantId idempotencyKey : String) : Option DispatchKeyRow :=
  db.dispatchKeys.find DispatchKeyRow.key (tenantId, idempotencyKey)

/-- `LEFT JOIN outbox.dispatch_keys dk ON dk.event_id = e.id`. -/
def keyOf (eventId : Uuid) : Option String :=
  (db.dispatchKeys.find DispatchKeyRow.eventId eventId).map DispatchKeyRow.idempotencyKey

/-- The tables after `UPDATE outbox.handler_deliveries SET .. WHERE hit`, when no CHECK objects. -/
def updated (hit : HandlerDelivery → Bool) (set : SetClause) : Database :=
  { db with
    handlerDeliveries := db.handlerDeliveries.update hit set.rowUpdate
    deliveryEvent := by
      intro d hd
      obtain ⟨r, hr, rfl⟩ := Table.mem_update.mp hd
      obtain ⟨e, he, ids⟩ := db.deliveryEvent r hr
      refine ⟨e, he, ?_⟩
      split
      · exact ids.trans (set.eventId_apply r).symm
      · exact ids
    deliveryIds := by
      intro d hd
      obtain ⟨r, hr, rfl⟩ := Table.mem_update.mp hd
      split
      · exact (set.id_apply r).symm ▸ db.deliveryIds r hr
      · exact db.deliveryIds r hr }

/-- One UPDATE of `handler_deliveries`: the new rows pass their CHECKs or the
statement changes nothing. Returns the number of affected rows. -/
def updateDeliveries (hit : HandlerDelivery → Bool) (set : SetClause) :
    Except SqlxError (Database × ℕ) :=
  match (db.handlerDeliveries.rows.filter hit).findSome? fun r => (set.apply r).violated with
  | some constraint => .error (checkViolation constraint)
  | none => .ok (db.updated hit set, db.handlerDeliveries.rows.countP hit)

/-- DELETE of `handler_deliveries` rows. -/
def deleteDeliveries (hit : HandlerDelivery → Bool) : Database :=
  { db with
    handlerDeliveries := db.handlerDeliveries.delete hit
    deliveryEvent := fun d hd => db.deliveryEvent d (Table.mem_delete.mp hd).1
    deliveryIds := fun d hd => db.deliveryIds d (Table.mem_delete.mp hd).1 }

/-- DELETE of `dispatch_keys` rows. -/
def deleteKeys (hit : DispatchKeyRow → Bool) : Database :=
  { db with dispatchKeys := db.dispatchKeys.delete hit }

/-- DELETE of `events` rows; both foreign keys are ON DELETE CASCADE. -/
def deleteEvents (hit : Uuid → Bool) : Database :=
  { db with
    events := db.events.delete fun e => hit e.id
    dispatchKeys := db.dispatchKeys.delete fun k => hit k.eventId
    handlerDeliveries := db.handlerDeliveries.delete fun d => hit d.eventId
    deliveryEvent := by
      intro d hd
      obtain ⟨mem, kept⟩ := Table.mem_delete.mp hd
      obtain ⟨e, he, ids⟩ := db.deliveryEvent d mem
      exact ⟨e, Table.mem_delete.mpr ⟨he, by rw [ids]; exact kept⟩, ids⟩
    deliveryIds := fun d hd => db.deliveryIds d (Table.mem_delete.mp hd).1 }

/-- INSERT of one `events` row. -/
def insertEvent (r : EventRow) : Except SqlxError Database :=
  match r.violated with
  | some constraint => .error (checkViolation constraint)
  | none =>
    match inserted : db.events.insert r with
    | none => .error (uniqueViolation "events_pkey")
    | some events =>
      .ok { db with
        events := events
        deliveryEvent := by
          intro d hd
          obtain ⟨e, he, ids⟩ := db.deliveryEvent d hd
          refine ⟨e, ?_, ids⟩
          rw [(Table.insert_eq_some.mp inserted).2]
          exact List.mem_append_left _ he }

/-- INSERT of one `dispatch_keys` row; its foreign key is deferred to commit. -/
def insertKey (r : DispatchKeyRow) : Except SqlxError Database :=
  match r.violated with
  | some constraint => .error (checkViolation constraint)
  | none =>
    match db.dispatchKeys.insert r with
    | none => .error (uniqueViolation "dispatch_keys_pkey")
    | some keys => .ok { db with dispatchKeys := keys }

/-- A delivery as the column defaults create it. -/
def queuedRow (id : ℕ) (eventId : Uuid) (now : Timestamp) (handlerId : String) :
    HandlerDelivery where
  id := id
  eventId := eventId
  handlerId := handlerId
  status := .queued
  attempts := 0
  lastError := none
  leaseToken := none
  firstAttemptedAt := none
  lastAttemptedAt := none
  finishedAt := none
  createdAt := now
  updatedAt := now

/-- The rows of one multi-row INSERT, with consecutive identity values. -/
def queuedRows (eventId : Uuid) (now : Timestamp) : ℕ → List String → List HandlerDelivery
  | _, [] => []
  | id, h :: hs => queuedRow id eventId now h :: queuedRows eventId now (id + 1) hs

theorem queuedRows_spec {eventId : Uuid} {now : Timestamp} {id : ℕ} {hs : List String}
    {d : HandlerDelivery} (mem : d ∈ queuedRows eventId now id hs) :
    d.eventId = eventId ∧ d.handlerId ∈ hs ∧ id ≤ d.id ∧ d.id < id + hs.length ∧
      d = queuedRow d.id eventId now d.handlerId := by
  induction hs generalizing id with
  | nil => cases mem
  | cons h hs ih =>
    rcases List.mem_cons.mp mem with rfl | later
    · refine ⟨rfl, List.mem_cons_self, Nat.le_refl _, ?_, rfl⟩
      simp only [queuedRow, List.length_cons]
      omega
    · obtain ⟨event, handler, low, high, shape⟩ := ih later
      refine ⟨event, List.mem_cons_of_mem h handler, by omega, ?_, shape⟩
      simp only [List.length_cons]
      omega

theorem queuedRows_envelope (eventId : Uuid) (now : Timestamp) (id : ℕ) (hs : List String) :
    (queuedRows eventId now id hs).map HandlerDelivery.envelope = hs.map fun h => ⟨eventId, h⟩ := by
  induction hs generalizing id with
  | nil => rfl
  | cons h hs ih =>
    rw [queuedRows, List.map_cons, List.map_cons, ih]
    rfl

/-- Multi-row INSERT of one queued delivery per handler id. -/
def insertDeliveries (eventId : Uuid) (handlerIds : List String) (now : Timestamp) :
    Except SqlxError Database :=
  let rows := queuedRows eventId now db.nextDeliveryId handlerIds
  match rows.findSome? HandlerDelivery.violated with
  | some constraint => .error (checkViolation constraint)
  | none =>
    match inserted : db.handlerDeliveries.insertAll rows with
    | none => .error (uniqueViolation "handler_deliveries_event_id_handler_id_key")
    | some deliveries =>
      if parent : ∃ e ∈ db.events.rows, e.id = eventId then
        .ok { db with
          handlerDeliveries := deliveries
          nextDeliveryId := db.nextDeliveryId + handlerIds.length
          deliveryEvent := by
            intro d hd
            rw [Table.insertAll_rows inserted] at hd
            rcases List.mem_append.mp hd with old | new
            · exact db.deliveryEvent d old
            · obtain ⟨e, he, ids⟩ := parent
              exact ⟨e, he, ids.trans (queuedRows_spec new).1.symm⟩
          deliveryIds := by
            intro d hd
            rw [Table.insertAll_rows inserted] at hd
            rcases List.mem_append.mp hd with old | new
            · exact Nat.lt_of_lt_of_le (db.deliveryIds d old) (Nat.le_add_right _ _)
            · exact (queuedRows_spec new).2.2.2.1 }
      else .error (.database (some "23503") "handler_deliveries_event_id_fkey")

/-- `Pusher::push_batch` adds one job per item. -/
def pushJobs (items : List Job) : Database := { db with jobs := db.jobs ++ items }

/-- The deferred foreign key of `dispatch_keys`, as COMMIT checks it. -/
def KeysReferEvents : Prop := ∀ k ∈ db.dispatchKeys.rows, ∃ e ∈ db.events.rows, e.id = k.eventId

instance : Decidable db.KeysReferEvents :=
  inferInstanceAs (Decidable (∀ k ∈ db.dispatchKeys.rows, ∃ e ∈ db.events.rows, e.id = k.eventId))

end Database

theorem events_separates_id : Separates EventRow.Apart EventRow.id := fun _ _ apart => apart

theorem keys_separates_key : Separates DispatchKeyRow.Apart DispatchKeyRow.key :=
  fun _ _ apart => apart.1

theorem keys_separates_eventId : Separates DispatchKeyRow.Apart DispatchKeyRow.eventId :=
  fun _ _ apart => apart.2

theorem deliveries_separates_id : Separates HandlerDelivery.Apart HandlerDelivery.id :=
  fun _ _ apart => apart.1

theorem deliveries_separates_envelope :
    Separates HandlerDelivery.Apart HandlerDelivery.envelope :=
  fun _ _ apart => apart.2

end RustEvents.Model.Schema
