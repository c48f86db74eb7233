/- module: RustEvents/Dispatch/Effects
   layer: model facts
   source: src/outbox.rs (Outbox::dispatch)
   digest: Everything one dispatch can do to its transaction's tables, and which rejections leave them alone. -/

import RustEvents.Model.Dispatch

set_option autoImplicit false
set_option relaxedAutoImplicit false

namespace RustEvents.Dispatch.Effects

open RustEvents.Foundation.IndexedTable
open RustEvents.Model.Text
open RustEvents.Model.Errors
open RustEvents.Model.Schema
open RustEvents.Model.Builder
open RustEvents.Model.Dispatch

/-- What steps 1 to 4 have established once they let a call through. -/
structure Prepared (c : Call) (payload : Bytes) (handlerIds : List String) : Prop where
  eventType : between1 128 c.event.eventType = true
  tenantId : len c.ctx.tenantId ≤ 64
  producerBc : len c.ctx.producerBc ≤ 64
  idempotencyKey : c.ctx.idempotencyKey.all (between1 128) = true
  aggregateKey : c.event.aggregateKey.all (between1 128) = true
  toVec : c.event.toVec = .ok payload
  payload : payload.length ≤ 1048576
  handlerIds : handlerIds = c.outbox.registry.handlerIdsFor c.event.eventType

private theorem checkFilled_ok {s : String} {reject : ℕ → ℕ → DispatchError}
    (passed : checkFilled s 128 reject = .ok ()) : between1 128 s = true := by
  simp only [checkFilled] at passed
  split at passed
  · cases passed
  · simp only [between1, Bool.and_eq_true, decide_eq_true_eq]
    omega

private theorem checkLength_ok {s : String} {max : ℕ} {reject : ℕ → ℕ → DispatchError}
    (passed : checkLength s max reject = .ok ()) : len s ≤ max := by
  simp only [checkLength] at passed
  split at passed
  · cases passed
  · omega

private theorem except_bind_ok {ε α β : Type} {x : Except ε α} {f : α → Except ε β} {b : β}
    (done : (x >>= f) = .ok b) : ∃ a, x = .ok a ∧ f a = .ok b := by
  cases x with
  | error e => cases done
  | ok a => exact ⟨a, rfl, done⟩

private theorem except_bind_error {ε α β : Type} {x : Except ε α} {f : α → Except ε β} {e : ε}
    (failed : (x >>= f) = .error e) : x = .error e ∨ ∃ a, x = .ok a ∧ f a = .error e := by
  cases x with
  | error e' =>
    cases failed
    exact .inl rfl
  | ok a => exact .inr ⟨a, rfl, failed⟩

theorem prepare_ok {c : Call} {payload : Bytes} {handlerIds : List String}
    (passed : prepare c = .ok (payload, handlerIds)) : Prepared c payload handlerIds := by
  simp only [prepare] at passed
  obtain ⟨_, eventType, passed⟩ := except_bind_ok passed
  obtain ⟨_, tenantId, passed⟩ := except_bind_ok passed
  obtain ⟨_, producerBc, passed⟩ := except_bind_ok passed
  obtain ⟨_, idempotencyKey, passed⟩ := except_bind_ok passed
  obtain ⟨_, aggregateKey, passed⟩ := except_bind_ok passed
  obtain ⟨payload', encoded, passed⟩ := except_bind_ok passed
  obtain ⟨handlerIds', found, passed⟩ := except_bind_ok passed
  cases passed
  have size : c.event.toVec = .ok payload ∧ payload.length ≤ 1048576 := by
    simp only [encodePayload] at encoded
    split at encoded
    · cases encoded
    · next bytes toVec =>
      split at encoded
      · cases encoded
      · next small =>
        cases encoded
        exact ⟨toVec, Nat.le_of_not_lt small⟩
  refine ⟨checkFilled_ok eventType, checkLength_ok tenantId, checkLength_ok producerBc, ?_, ?_,
    size.1, size.2, ?_⟩
  · cases key : c.ctx.idempotencyKey with
    | none => rfl
    | some k =>
      simp only [checkIdempotencyKey, key] at idempotencyKey
      exact checkFilled_ok idempotencyKey
  · cases key : c.event.aggregateKey with
    | none => rfl
    | some ak =>
      simp only [checkAggregateKey, key] at aggregateKey
      exact checkFilled_ok aggregateKey
  · simp only [lookupHandlers] at found
    split at found
    · cases found
    · exact (Except.ok.inj found).symm

theorem prepare_error {c : Call} {e : DispatchError} (rejected : prepare c = .error e) :
    e.typed = true := by
  have filled : ∀ {s : String} {max : ℕ} {reject : ℕ → ℕ → DispatchError},
      (∀ a b, (reject a b).typed = true) → checkFilled s max reject = .error e →
      e.typed = true := by
    intro s max reject typed failed
    simp only [checkFilled] at failed
    split at failed
    · exact Except.error.inj failed ▸ typed _ _
    · cases failed
  have short : ∀ {s : String} {max : ℕ} {reject : ℕ → ℕ → DispatchError},
      (∀ a b, (reject a b).typed = true) → checkLength s max reject = .error e →
      e.typed = true := by
    intro s max reject typed failed
    simp only [checkLength] at failed
    split at failed
    · exact Except.error.inj failed ▸ typed _ _
    · cases failed
  simp only [prepare] at rejected
  rcases except_bind_error rejected with here | ⟨_, -, rejected⟩
  · exact filled (fun _ _ => rfl) here
  rcases except_bind_error rejected with here | ⟨_, -, rejected⟩
  · exact short (fun _ _ => rfl) here
  rcases except_bind_error rejected with here | ⟨_, -, rejected⟩
  · exact short (fun _ _ => rfl) here
  rcases except_bind_error rejected with here | ⟨_, -, rejected⟩
  · cases key : c.ctx.idempotencyKey with
    | none => simp [checkIdempotencyKey, key] at here
    | some k =>
      simp only [checkIdempotencyKey, key] at here
      exact filled (fun _ _ => rfl) here
  rcases except_bind_error rejected with here | ⟨_, -, rejected⟩
  · cases key : c.event.aggregateKey with
    | none => simp [checkAggregateKey, key] at here
    | some ak =>
      simp only [checkAggregateKey, key] at here
      exact filled (fun _ _ => rfl) here
  rcases except_bind_error rejected with here | ⟨payload, -, rejected⟩
  · simp only [encodePayload] at here
    split at here
    · cases here
      rfl
    · split at here <;> cases here
      rfl
  rcases except_bind_error rejected with here | ⟨handlerIds, -, rejected⟩
  · simp only [lookupHandlers] at here
    split at here <;> cases here
    rfl
  · cases rejected

/-- The key row that a call reserves. -/
def keyRow (c : Call) : Option DispatchKeyRow :=
  c.ctx.idempotencyKey.map fun key => ⟨c.ctx.tenantId, key, c.eventId, c.now⟩

/-- The key of a call can be stored, and neither it nor the call's event id is taken. -/
def reservable (c : Call) (db : Database) (key : String) : Bool :=
  storable c.ctx.tenantId && storable key && (db.key? c.ctx.tenantId key).isNone &&
    db.dispatchKeys.rows.all fun r => r.eventId ≠ c.eventId

/-- The tables after a reservation that was granted. -/
structure Reserves (c : Call) (db db' : Database) : Prop where
  free : ∀ key, c.ctx.idempotencyKey = some key →
    c.faults.reserve = none ∧ reservable c db key = true
  keys : db'.dispatchKeys.rows = db.dispatchKeys.rows ++ (keyRow c).toList
  events : db'.events = db.events
  deliveries : db'.handlerDeliveries = db.handlerDeliveries
  jobs : db'.jobs = db.jobs
  nextId : db'.nextDeliveryId = db.nextDeliveryId

/-- The tables after the INSERT of an event and its deliveries. -/
structure Inserts (c : Call) (payload : Bytes) (handlerIds : List String) (db db' : Database) :
    Prop where
  events : db'.events.rows = db.events.rows ++ [eventRow c payload]
  deliveries : db'.handlerDeliveries.rows = db.handlerDeliveries.rows ++
    Database.queuedRows c.eventId c.now db.nextDeliveryId handlerIds
  keys : db'.dispatchKeys = db.dispatchKeys
  jobs : db'.jobs = db.jobs
  nextId : db'.nextDeliveryId = db.nextDeliveryId + handlerIds.length

private theorem insertKey_ok {db db' : Database} {r : DispatchKeyRow}
    (done : db.insertKey r = .ok db') :
    db'.dispatchKeys.rows = db.dispatchKeys.rows ++ [r] ∧ db'.events = db.events ∧
      db'.handlerDeliveries = db.handlerDeliveries ∧ db'.jobs = db.jobs ∧
      db'.nextDeliveryId = db.nextDeliveryId := by
  simp only [Database.insertKey] at done
  split at done
  · cases done
  · split at done
    · cases done
    · next keys inserted =>
      cases done
      exact ⟨(Table.insert_eq_some.mp inserted).2, rfl, rfl, rfl, rfl⟩

theorem insertEvent_ok {db db' : Database} {r : EventRow} (done : db.insertEvent r = .ok db') :
    db'.events.rows = db.events.rows ++ [r] ∧ db'.dispatchKeys = db.dispatchKeys ∧
      db'.handlerDeliveries = db.handlerDeliveries ∧ db'.jobs = db.jobs ∧
      db'.nextDeliveryId = db.nextDeliveryId := by
  simp only [Database.insertEvent] at done
  split at done
  · cases done
  · split at done
    · cases done
    · next events inserted =>
      cases done
      exact ⟨(Table.insert_eq_some.mp inserted).2, rfl, rfl, rfl, rfl⟩

private theorem insertDeliveries_ok {db db' : Database} {eventId : Uuid} {handlerIds : List String}
    {now : Timestamp} (done : db.insertDeliveries eventId handlerIds now = .ok db') :
    db'.handlerDeliveries.rows = db.handlerDeliveries.rows ++
        Database.queuedRows eventId now db.nextDeliveryId handlerIds ∧
      db'.events = db.events ∧ db'.dispatchKeys = db.dispatchKeys ∧ db'.jobs = db.jobs ∧
      db'.nextDeliveryId = db.nextDeliveryId + handlerIds.length := by
  simp only [Database.insertDeliveries] at done
  split at done
  · cases done
  · split at done
    · cases done
    · next deliveries inserted =>
      split at done
      · cases done
        exact ⟨Table.insertAll_rows inserted, rfl, rfl, rfl, rfl⟩
      · cases done

theorem upsertKey_ok {c : Call} {key : String} {db db' : Database} {existing : Uuid}
    {inserted : Bool} (keyed : c.ctx.idempotencyKey = some key) (reached : c.faults.reserve = none)
    (done : upsertKey c key db = .ok (db', existing, inserted)) :
    (inserted = false ∧ db' = db ∧
      ∃ row, db.key? c.ctx.tenantId key = some row ∧ existing = row.eventId) ∨
    (inserted = true ∧ existing = c.eventId ∧ Reserves c db db') := by
  simp only [upsertKey] at done
  split at done
  · next texts =>
    split at done
    · cases done
    · split at done
      · next row found =>
        cases done
        exact .inl ⟨rfl, rfl, row, found, rfl⟩
      · next free =>
        cases inserting : db.insertKey ⟨c.ctx.tenantId, key, c.eventId, c.now⟩ with
        | error e => simp [inserting, Except.map] at done
        | ok next =>
          simp only [inserting, Except.map] at done
          cases done
          obtain ⟨keys, events, deliveries, jobs, nextId⟩ := insertKey_ok inserting
          refine .inr ⟨rfl, rfl, ?_, ?_, events, deliveries, jobs, nextId⟩
          · intro key' keyed'
            rw [keyed] at keyed'
            cases Option.some.inj keyed'
            have unused : ∀ r ∈ db.dispatchKeys.rows, r.eventId ≠ c.eventId := by
              intro r stored
              have table := db'.dispatchKeys.unique
              rw [keys] at table
              exact ((List.pairwise_append.mp table).2.2 r stored _ List.mem_cons_self).2
            simp only [Bool.and_eq_true] at texts
            exact ⟨reached, by simpa [reservable, texts, free] using unused⟩
          · rw [keys, keyRow, keyed]
            rfl
  · cases done

theorem textError_cases (texts : List String) :
    textError texts = characterNotInRepertoire ∨ textError texts = untranslatableCharacter := by
  unfold textError
  split
  · exact .inr rfl
  · exact .inl rfl

theorem insertStatement_ok {c : Call} {payload : Bytes} {handlerIds : List String}
    {db db' : Database} (done : insertStatement c payload handlerIds db = .ok db') :
    Inserts c payload handlerIds db db' := by
  simp only [insertStatement] at done
  split at done
  · split at done
    · cases done
    · next db1 inserted =>
      obtain ⟨events, keys, deliveries, jobs, nextId⟩ := insertEvent_ok inserted
      split at done
      · next none =>
        cases done
        subst none
        exact ⟨events, by rw [deliveries]; simp [Database.queuedRows], keys, jobs, nextId⟩
      · obtain ⟨rows, sameEvents, sameKeys, sameJobs, nextId'⟩ := insertDeliveries_ok done
        exact ⟨by rw [sameEvents]; exact events, by rw [rows, deliveries, nextId],
          sameKeys.trans keys, sameJobs.trans jobs, by rw [nextId', nextId]⟩
  · cases done

def headersText (c : Call) : String := compactText (.object (c.ctx.headers.getD []))

/-- Everything the first statement of a call can do. -/
inductive Reserving (c : Call) (db : Database) : Database × Reserved → Prop where
  | rejected (e : DispatchError) (failed : prepare c = .error e) :
      Reserving c db (db, .returned (.error e))
  | unreserved (e : SqlxError) (payload : Bytes) (handlerIds : List String) (key : String)
      (prepared : Prepared c payload handlerIds) (keyed : c.ctx.idempotencyKey = some key)
      (cause : c.faults.reserve = some e ∨ upsertKey c key db = .error e) :
      Reserving c db (db, .returned (.error (.ofSqlx e)))
  | duplicate (payload : Bytes) (handlerIds : List String) (key : String) (row : DispatchKeyRow)
      (passed : prepare c = .ok (payload, handlerIds)) (keyed : c.ctx.idempotencyKey = some key)
      (reached : c.faults.reserve = none) (found : db.key? c.ctx.tenantId key = some row) :
      Reserving c db (db, .returned (.ok (.duplicate row.eventId)))
  | granted (payload : Bytes) (handlerIds : List String) (db1 : Database)
      (passed : prepare c = .ok (payload, handlerIds)) (reserves : Reserves c db db1) :
      Reserving c db (db1, .inserting payload handlerIds)

/-- Everything the second statement of a call can do. -/
inductive Inserting (c : Call) (payload : Bytes) (handlerIds : List String) (db : Database) :
    Database × Inserted → Prop where
  | oversized (large : maxHeadersBytes < len (headersText c)) :
      Inserting c payload handlerIds db
        (db, .returned (.error (.headersTooLarge (len (headersText c)) maxHeadersBytes)))
  | uninserted (e : SqlxError)
      (cause : c.faults.insert = some e ∨ insertStatement c payload handlerIds db = .error e) :
      Inserting c payload handlerIds db (db, .returned (.error (.ofSqlx e)))
  | noHandlers (db2 : Database) (none : handlerIds = [])
      (inserts : Inserts c payload handlerIds db db2) :
      Inserting c payload handlerIds db (db2, .returned (.ok (.noHandlers c.eventId)))
  | inserted (db2 : Database) (some : handlerIds ≠ [])
      (inserts : Inserts c payload handlerIds db db2) :
      Inserting c payload handlerIds db (db2, .pushing handlerIds)

theorem reserves_unkeyed {c : Call} (db : Database) (unkeyed : c.ctx.idempotencyKey = none) :
    Reserves c db db := by
  refine ⟨by simp [unkeyed], ?_, rfl, rfl, rfl, rfl⟩
  simp [keyRow, unkeyed]

theorem reserve_cases (c : Call) (db : Database) : Reserving c db (reserveStep c db) := by
  cases passed : prepare c with
  | error e =>
    simp only [reserveStep, passed]
    exact .rejected e passed
  | ok result =>
  obtain ⟨payload, handlerIds⟩ := result
  have prepared := prepare_ok passed
  cases keyed : c.ctx.idempotencyKey with
  | none =>
    simp only [reserveStep, passed, keyed]
    exact .granted payload handlerIds db passed (reserves_unkeyed db keyed)
  | some key =>
  cases fault : c.faults.reserve with
  | some e =>
    simp only [reserveStep, passed, keyed, fault]
    exact .unreserved e payload handlerIds key prepared keyed (.inl fault)
  | none =>
  cases done : upsertKey c key db with
  | error e =>
    simp only [reserveStep, passed, keyed, fault, done]
    exact .unreserved e payload handlerIds key prepared keyed (.inr done)
  | ok upserted =>
  obtain ⟨db1, existing, inserted⟩ := upserted
  simp only [reserveStep, passed, keyed, fault, done]
  rcases upsertKey_ok keyed fault done with ⟨rfl, rfl, row, found, rfl⟩ | ⟨rfl, -, reserves⟩
  · exact .duplicate payload handlerIds key row passed keyed fault found
  · exact .granted payload handlerIds db1 passed reserves

theorem insertStep_oversized {c : Call} (large : maxHeadersBytes < len (headersText c))
    (payload : Bytes) (handlerIds : List String) (db : Database) :
    insertStep c payload handlerIds db =
      (db, .returned (.error (.headersTooLarge (len (headersText c)) maxHeadersBytes))) :=
  if_pos large

theorem insert_cases (c : Call) (payload : Bytes) (handlerIds : List String) (db : Database) :
    Inserting c payload handlerIds db (insertStep c payload handlerIds db) := by
  by_cases large : maxHeadersBytes < len (headersText c)
  · rw [insertStep_oversized large]
    exact .oversized large
  have small : ¬ maxHeadersBytes < len (compactText (.object (c.ctx.headers.getD []))) := large
  cases fault : c.faults.insert with
  | some e =>
    simp only [insertStep, encodeHeaders, small, if_false, fault]
    exact .uninserted e (.inl fault)
  | none =>
  cases done : insertStatement c payload handlerIds db with
  | error e =>
    simp only [insertStep, encodeHeaders, small, if_false, fault, done]
    exact .uninserted e (.inr done)
  | ok db2 =>
  simp only [insertStep, encodeHeaders, small, if_false, fault, done]
  split
  · next none => exact .noHandlers db2 none (insertStatement_ok done)
  · next some => exact .inserted db2 some (insertStatement_ok done)

/-- Everything a whole dispatch can do: the tables it leaves and the result it returns. -/
inductive Dispatches (c : Call) (db : Database) :
    Database × Except DispatchError DispatchOutcome → Prop where
  | unreserved (result : Except DispatchError DispatchOutcome)
      (reserving : Reserving c db (db, .returned result)) : Dispatches c db (db, result)
  | uninserted (e : DispatchError) (payload : Bytes) (handlerIds : List String) (db1 : Database)
      (passed : prepare c = .ok (payload, handlerIds)) (reserves : Reserves c db db1)
      (inserting : Inserting c payload handlerIds db1 (db1, .returned (.error e))) :
      Dispatches c db (db1, .error e)
  | noHandlers (payload : Bytes) (db1 db2 : Database) (passed : prepare c = .ok (payload, []))
      (reserves : Reserves c db db1) (inserts : Inserts c payload [] db1 db2) :
      Dispatches c db (db2, .ok (.noHandlers c.eventId))
  | unpushed (e : PushError) (payload : Bytes) (handlerIds : List String) (db1 db2 : Database)
      (passed : prepare c = .ok (payload, handlerIds)) (reserves : Reserves c db db1)
      (inserts : Inserts c payload handlerIds db1 db2) (fault : c.faults.push = some e) :
      Dispatches c db (db2, .error (.pgwqPush e))
  | dispatched (payload : Bytes) (handlerIds : List String) (db1 db2 : Database)
      (passed : prepare c = .ok (payload, handlerIds)) (some : handlerIds ≠ [])
      (reserves : Reserves c db db1) (inserts : Inserts c payload handlerIds db1 db2) :
      Dispatches c db (db2.pushJobs (handlerIds.map (jobFor c)),
        .ok (.dispatched c.eventId handlerIds.length))

theorem dispatch_cases (c : Call) (db : Database) : Dispatches c db (dispatch c db) := by
  simp only [dispatch]
  have first := reserve_cases c db
  cases reserved : reserveStep c db with
  | mk db1 stage =>
  rw [reserved] at first
  cases stage with
  | returned result =>
    have same : db1 = db := by cases first <;> rfl
    subst same
    exact .unreserved result first
  | inserting payload handlerIds =>
  obtain ⟨passed, reserves⟩ : prepare c = .ok (payload, handlerIds) ∧ Reserves c db db1 := by
    cases first with
    | granted payload handlerIds db1 passed reserves => exact ⟨passed, reserves⟩
  have second := insert_cases c payload handlerIds db1
  cases inserted : insertStep c payload handlerIds db1 with
  | mk db2 stage =>
  rw [inserted] at second
  simp only [inserted]
  cases second with
  | oversized large =>
    exact .uninserted _ payload handlerIds db1 passed reserves (.oversized large)
  | uninserted e cause =>
    exact .uninserted _ payload handlerIds db1 passed reserves (.uninserted e cause)
  | noHandlers db2 none inserts =>
    subst none
    exact .noHandlers payload db1 db2 passed reserves inserts
  | inserted db2 some inserts =>
    cases push : c.faults.push with
    | some e =>
      simp only [pushStep, push]
      exact .unpushed e payload handlerIds db1 db2 passed reserves inserts push
    | none =>
      simp only [pushStep, push]
      exact .dispatched payload handlerIds db1 db2 passed some reserves inserts

/-- A relation that contains whatever the statements of these calls do to the tables. -/
structure Covers (cs : List Call) (R : Database → Database → Prop) : Prop where
  refl : ∀ db, R db db
  trans : ∀ {db db' db''}, R db db' → R db' db'' → R db db''
  reserves : ∀ c ∈ cs, ∀ {db db'}, Reserves c db db' → R db db'
  inserts : ∀ c ∈ cs, ∀ {payload handlerIds db db'}, Inserts c payload handlerIds db db' → R db db'
  pushes : ∀ (db : Database) (items : List Job), R db (db.pushJobs items)

namespace Covers

variable {cs : List Call} {R : Database → Database → Prop}

theorem dispatch (covers : Covers cs R) {c : Call} (mem : c ∈ cs) (db : Database) :
    R db (dispatch c db).1 := by
  have cases := dispatch_cases c db
  generalize Model.Dispatch.dispatch c db = result at cases
  cases cases with
  | unreserved result reserving => exact covers.refl db
  | uninserted e payload handlerIds db1 passed reserves => exact covers.reserves c mem reserves
  | noHandlers payload db1 db2 passed reserves inserts =>
    exact covers.trans (covers.reserves c mem reserves) (covers.inserts c mem inserts)
  | unpushed e payload handlerIds db1 db2 passed reserves inserts fault =>
    exact covers.trans (covers.reserves c mem reserves) (covers.inserts c mem inserts)
  | dispatched payload handlerIds db1 db2 passed some reserves inserts =>
    have stored := covers.trans (covers.reserves c mem reserves) (covers.inserts c mem inserts)
    exact covers.trans stored (covers.pushes db2 _)

theorem dispatchAll (covers : Covers cs R) (db : Database) : R db (dispatchAll cs db).1 := by
  have each : ∀ cs' ⊆ cs, ∀ db, R db (Model.Dispatch.dispatchAll cs' db).1 := by
    intro cs'
    induction cs' with
    | nil => exact fun _ db => covers.refl db
    | cons c cs' ih =>
      intro within db
      obtain ⟨mem, later⟩ := List.cons_subset.mp within
      exact covers.trans (covers.dispatch mem db) (ih later _)
  exact each cs (List.Subset.refl cs) db

end Covers

end RustEvents.Dispatch.Effects
