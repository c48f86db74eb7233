/- module: RustEvents/Model/History
   layer: model
   source: src/history.rs (History::event, History::handler_deliveries_for)
   digest: The read-only queries over one event and its deliveries. -/

import RustEvents.Model.Schema
import Mathlib.Algebra.Group.Int.Defs
import Mathlib.Data.String.Basic

set_option autoImplicit false
set_option relaxedAutoImplicit false

namespace RustEvents.Model.History

open RustEvents.Model.Text
open RustEvents.Model.Errors
open RustEvents.Model.Schema

structure EventRecord where
  id : Uuid
  eventType : String
  producerBc : String
  tenantId : String
  aggregateKey : Option String
  payload : Bytes
  headers : JsonMap
  createdAt : Timestamp

/-- The selected row, as the query maps it. -/
def eventRecord (r : EventRow) : EventRecord where
  id := r.id
  eventType := r.eventType
  producerBc := r.producerBc
  tenantId := r.tenantId
  aggregateKey := r.aggregateKey
  payload := r.payload
  headers :=
    match fromJsonb r.headers with
    | .object m => m
    | _ => []
  createdAt := r.createdAt

/-- `fault` is an error of the connection or of the server. -/
def event (fault : Option SqlxError) (eventId : Uuid) (db : Database) :
    Except SqlxError (Option EventRecord) :=
  match fault with
  | some e => .error e
  | none => .ok ((db.event? eventId).map eventRecord)

structure HandlerDeliveryRecord where
  id : ℕ
  eventId : Uuid
  handlerId : String
  status : DeliveryStatus
  attempts : UInt32
  lastError : Option String
  firstAttemptedAt : Option Timestamp
  lastAttemptedAt : Option Timestamp
  finishedAt : Option Timestamp
  deriving DecidableEq

/-- `u32::try_from(n).unwrap_or(0)`. -/
def u32OrZero (n : ℤ) : UInt32 := if 0 ≤ n ∧ n < 2 ^ 32 then .ofNat n.toNat else 0

/-- One selected row, as the query maps it. -/
def deliveryRecord (r : HandlerDelivery) : HandlerDeliveryRecord where
  id := r.id
  eventId := r.eventId
  handlerId := r.handlerId
  status := r.status
  attempts := u32OrZero r.attempts
  lastError := r.lastError
  firstAttemptedAt := r.firstAttemptedAt
  lastAttemptedAt := r.lastAttemptedAt
  finishedAt := r.finishedAt

/-- `ORDER BY handler_id ASC` under the collation of the column; `fault` is an error of the
connection or of the server. -/
def handlerDeliveriesFor (collation : String → String → Bool) (fault : Option SqlxError)
    (eventId : Uuid) (db : Database) : Except SqlxError (List HandlerDeliveryRecord) :=
  match fault with
  | some e => .error e
  | none =>
    .ok (((db.handlerDeliveries.rows.filter (·.eventId = eventId)).mergeSort
      fun a b => collation a.handlerId b.handlerId).map deliveryRecord)

theorem mem_handlerDeliveriesFor {collation : String → String → Bool} {fault : Option SqlxError}
    {eventId : Uuid} {db : Database} {records : List HandlerDeliveryRecord}
    (answer : handlerDeliveriesFor collation fault eventId db = .ok records)
    {record : HandlerDeliveryRecord} :
    record ∈ records ↔
      ∃ r ∈ db.handlerDeliveries.rows, r.eventId = eventId ∧ deliveryRecord r = record := by
  cases fault with
  | some e => cases answer
  | none =>
    cases answer
    simp [and_assoc]

theorem u32OrZero_toNat {n : ℤ} (low : 0 ≤ n) (high : n < 2 ^ 32) :
    ((u32OrZero n).toNat : ℤ) = n := by
  rw [u32OrZero, if_pos ⟨low, high⟩, UInt32.toNat_ofNat']
  omega

end RustEvents.Model.History
