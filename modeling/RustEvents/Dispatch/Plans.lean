/- module: RustEvents/Dispatch/Plans
   layer: model facts
   source: src/outbox.rs (Outbox::dispatch)
   digest: With a fresh event id, a dispatch reads the tables only through the row of its own key. -/

import RustEvents.Dispatch.Fanout

set_option autoImplicit false
set_option relaxedAutoImplicit false

namespace RustEvents.Dispatch.Plans

open RustEvents.Foundation.IndexedTable
open RustEvents.Model.Text
open RustEvents.Model.Errors
open RustEvents.Model.Schema
open RustEvents.Model.Builder
open RustEvents.Model.Dispatch
open RustEvents.Dispatch.Effects
open RustEvents.Dispatch.Fanout
open RustEvents.Dispatch.Rejections

/-- What a call returns and the rows it appends. -/
structure Plan where
  result : Except DispatchError DispatchOutcome
  keys : List DispatchKeyRow
  events : List EventRow
  handlers : List String
  jobs : List Job

/-- The call returns without having written anything but `keys`. -/
def Plan.stop (keys : List DispatchKeyRow) (result : Except DispatchError DispatchOutcome) : Plan :=
  ⟨result, keys, [], [], []⟩

/-- Step 5, where `known` is the event that the key is stored for: the result it ends with,
or the key row it leaves. -/
def keyPlan (c : Call) (known : Option Uuid) :
    Except (Except DispatchError DispatchOutcome) (List DispatchKeyRow) :=
  match c.ctx.idempotencyKey with
  | none => .ok []
  | some key =>
    match c.faults.reserve with
    | some e => .error (.error (.ofSqlx e))
    | none =>
      if storable c.ctx.tenantId && storable key then
        match known with
        | some eventId => .error (.ok (.duplicate eventId))
        | none => .ok [⟨c.ctx.tenantId, key, c.eventId, c.now⟩]
      else .error (.error (.ofSqlx characterNotInRepertoire))

/-- The failure of the multi-row INSERT of an event's first deliveries. -/
def deliveriesError (handlerIds : List String) : Option SqlxError :=
  match handlerIds.find? fun h => !between1 128 h with
  | some _ => some (checkViolation "handler_deliveries_handler_bytes")
  | none =>
    if handlerIds.Nodup then none
    else some (uniqueViolation "handler_deliveries_event_id_handler_id_key")

/-- The failure of the statement of steps 7 and 8, which no stored row takes part in. -/
def insertError (c : Call) (payload : Bytes) (handlerIds : List String) : Option SqlxError :=
  let row := eventRow c payload
  let texts := [row.eventType, row.producerBc, row.tenantId] ++ row.aggregateKey.toList ++ handlerIds
  if texts.all storable && castable row.headers then
    match row.violated with
    | some constraint => some (checkViolation constraint)
    | none => deliveriesError handlerIds
  else some (textError texts)

/-- Steps 6 to 9. -/
def writePlan (c : Call) (payload : Bytes) (handlerIds : List String)
    (keys : List DispatchKeyRow) : Plan :=
  if maxHeadersBytes < len (headersText c) then
    .stop keys (.error (.headersTooLarge (len (headersText c)) maxHeadersBytes))
  else
    match c.faults.insert with
    | some e => .stop keys (.error (.ofSqlx e))
    | none =>
      match insertError c payload handlerIds with
      | some e => .stop keys (.error (.ofSqlx e))
      | none =>
        if handlerIds = [] then
          ⟨.ok (.noHandlers c.eventId), keys, [eventRow c payload], [], []⟩
        else
          match c.faults.push with
          | some e => ⟨.error (.pgwqPush e), keys, [eventRow c payload], handlerIds, []⟩
          | none => ⟨.ok (.dispatched c.eventId handlerIds.length), keys, [eventRow c payload],
              handlerIds, handlerIds.map (jobFor c)⟩

/-- A whole call. -/
def plan (c : Call) (known : Option Uuid) : Plan :=
  match prepare c with
  | .error e => .stop [] (.error e)
  | .ok (payload, handlerIds) =>
    match keyPlan c known with
    | .error result => .stop [] result
    | .ok keys => writePlan c payload handlerIds keys

/-- The event that the key of a call is stored for. -/
def known (c : Call) (db : Database) : Option Uuid :=
  c.ctx.idempotencyKey.bind fun key => (db.key? c.ctx.tenantId key).map DispatchKeyRow.eventId

/-- The rows of a plan have been appended to the tables. -/
structure Appended (c : Call) (p : Plan) (db db' : Database) : Prop where
  keys : db'.dispatchKeys.rows = db.dispatchKeys.rows ++ p.keys
  events : db'.events.rows = db.events.rows ++ p.events
  deliveries : db'.handlerDeliveries.rows = db.handlerDeliveries.rows ++
    Database.queuedRows c.eventId c.now db.nextDeliveryId p.handlers
  jobs : db'.jobs = db.jobs ++ p.jobs

private theorem queuedRow_violated (id : ℕ) (eventId : Uuid) (now : Timestamp)
    (handlerId : String) : (Database.queuedRow id eventId now handlerId).violated =
      if between1 128 handlerId then none else some "handler_deliveries_handler_bytes" := by
  cases fits : between1 128 handlerId with
  | true => exact violated_eq_none (queuedRow_checks fits)
  | false => simp [HandlerDelivery.violated, violated, deliveryChecks, DeliveryCheck.holds,
      Database.queuedRow, fits]

private theorem queuedRows_violated (id : ℕ) (eventId : Uuid) (now : Timestamp) (hs : List String) :
    (Database.queuedRows eventId now id hs).findSome? HandlerDelivery.violated =
      (hs.find? fun h => !between1 128 h).map fun _ => "handler_deliveries_handler_bytes" := by
  induction hs generalizing id with
  | nil => rfl
  | cons h hs ih =>
    rw [Database.queuedRows, List.findSome?_cons, queuedRow_violated, List.find?_cons]
    cases fits : between1 128 h with
    | true => simpa using ih (id + 1)
    | false => simp

private theorem queuedRows_nodup {eventId : Uuid} {now : Timestamp} {id : ℕ} {hs : List String}
    (apart : (Database.queuedRows eventId now id hs).Pairwise HandlerDelivery.Apart) :
    hs.Nodup := by
  induction hs generalizing id with
  | nil => exact List.nodup_nil
  | cons h hs ih =>
    rw [Database.queuedRows, List.pairwise_cons] at apart
    refine List.nodup_cons.mpr ⟨?_, ih apart.2⟩
    intro again
    have rows : ∀ (next : ℕ) (l : List String), h ∈ l →
        ∃ d ∈ Database.queuedRows eventId now next l, d.envelope = ⟨eventId, h⟩ := by
      intro next l mem
      induction l generalizing next with
      | nil => cases mem
      | cons g l ih' =>
        rcases List.mem_cons.mp mem with rfl | later
        · exact ⟨_, List.mem_cons_self, rfl⟩
        · obtain ⟨d, stored, own⟩ := ih' (next + 1) later
          exact ⟨d, List.mem_cons_of_mem _ stored, own⟩
    obtain ⟨d, stored, own⟩ := rows (id + 1) hs again
    exact (apart.1 d stored).2 own.symm

/-- The statement fails with the given error, or succeeds where there is none. -/
def EndsWith {β : Type} (outcome : Except SqlxError β) : Option SqlxError → Prop
  | some e => outcome = .error e
  | none => ∃ b, outcome = .ok b

private theorem insertDeliveries_planned {db : Database} {eventId : Uuid} {handlerIds : List String}
    (now : Timestamp) (parent : ∃ e ∈ db.events.rows, e.id = eventId)
    (childless : ∀ d ∈ db.handlerDeliveries.rows, d.eventId ≠ eventId) :
    EndsWith (db.insertDeliveries eventId handlerIds now) (deliveriesError handlerIds) := by
  simp only [deliveriesError]
  cases long : handlerIds.find? fun h => !between1 128 h with
  | some h => simp [EndsWith, Database.insertDeliveries, queuedRows_violated, long]
  | none =>
    have bytes : ∀ h ∈ handlerIds, between1 128 h = true := by simpa using long
    by_cases distinct : handlerIds.Nodup
    · simp only [distinct, if_true]
      exact insertDeliveries_total now distinct bytes parent childless
    · simp only [distinct, if_false, EndsWith, Database.insertDeliveries, queuedRows_violated,
        long, Option.map_none]
      split
      · rfl
      · next table inserted =>
        have unique := table.unique
        rw [Table.insertAll_rows inserted] at unique
        exact absurd (queuedRows_nodup (List.pairwise_append.mp unique).2.1) distinct

private theorem insertEvent_planned {db : Database} {r : EventRow}
    (unused : ∀ ev ∈ db.events.rows, ev.id ≠ r.id) :
    EndsWith (db.insertEvent r) (r.violated.map checkViolation) := by
  simp only [Database.insertEvent]
  cases broken : r.violated with
  | some constraint => rfl
  | none =>
    have apart : ∀ ev ∈ db.events.rows, EventRow.Apart ev r := unused
    simp only [Option.map_none]
    split
    · next clash => simp [Table.insert, dif_pos apart] at clash
    · exact ⟨_, rfl⟩

theorem insertStatement_planned {c : Call} {db : Database} (payload : Bytes)
    (handlerIds : List String) (unused : ∀ ev ∈ db.events.rows, ev.id ≠ c.eventId) :
    EndsWith (insertStatement c payload handlerIds db) (insertError c payload handlerIds) := by
  simp only [insertError, insertStatement]
  split
  case isFalse => rfl
  have first := insertEvent_planned (r := eventRow c payload) unused
  cases broken : (eventRow c payload).violated with
  | some constraint =>
    rw [broken] at first
    simp only [show db.insertEvent (eventRow c payload) = _ from first]
    rfl
  | none =>
    rw [broken] at first
    obtain ⟨db1, inserted⟩ := first
    obtain ⟨events, -, deliveries, -, -⟩ := insertEvent_ok inserted
    simp only [inserted]
    split
    · next none =>
      subst none
      exact ⟨db1, rfl⟩
    · refine insertDeliveries_planned c.now ⟨eventRow c payload, by rw [events]; simp, rfl⟩ ?_
      intro d stored same
      rw [deliveries] at stored
      obtain ⟨ev, known, ids⟩ := db.deliveryEvent d stored
      exact unused ev known (ids.trans same)

theorem reserve_planned {c : Call} {db : Database} {payload : Bytes} {handlerIds : List String}
    (passed : prepare c = .ok (payload, handlerIds)) (unused : Unused c.eventId db) :
    (∃ result, keyPlan c (known c db) = .error result ∧
      reserveStep c db = (db, .returned result)) ∨
    (∃ db1, keyPlan c (known c db) = .ok (keyRow c).toList ∧
      reserveStep c db = (db1, .inserting payload handlerIds) ∧ Reserves c db db1) := by
  have prepared := prepare_ok passed
  simp only [reserveStep, passed, keyPlan, known]
  cases keyed : c.ctx.idempotencyKey with
  | none =>
    refine .inr ⟨db, ?_, rfl, reserves_unkeyed db keyed⟩
    rw [keyRow, keyed]
    rfl
  | some key =>
    cases reached : c.faults.reserve with
    | some e => exact .inl ⟨_, rfl, rfl⟩
    | none =>
      have valid : (⟨c.ctx.tenantId, key, c.eventId, c.now⟩ : DispatchKeyRow).violated = none :=
        violated_eq_none (keyRow_checks prepared keyed)
      by_cases texts : (storable c.ctx.tenantId && storable key) = true
      · cases found : db.key? c.ctx.tenantId key with
        | some row =>
          refine .inl ⟨.ok (.duplicate row.eventId), ?_, ?_⟩
          · simp [texts, found]
          · simp [upsertKey, texts, valid, found]
        | none =>
          have free : reservable c db key = true := by
            simp only [Bool.and_eq_true] at texts
            simpa [reservable, texts, found] using unused.keys
          obtain ⟨db1, done⟩ := upsertKey_reservable prepared keyed free
          rcases upsertKey_ok keyed reached done with ⟨wrong, -⟩ | ⟨-, -, reserves⟩
          · cases wrong
          · refine .inr ⟨db1, ?_, by simp only [done], reserves⟩
            rw [keyRow, keyed]
            simp [texts, found]
      · refine .inl ⟨_, by simp only [texts]; rfl, ?_⟩
        simp only [upsertKey, texts]
        rfl

private theorem appended_reserved {c : Call} {db db1 : Database} (reserves : Reserves c db db1)
    (result : Except DispatchError DispatchOutcome) :
    Appended c (.stop (keyRow c).toList result) db db1 where
  keys := reserves.keys
  events := by rw [reserves.events]; simp [Plan.stop]
  deliveries := by rw [reserves.deliveries]; simp [Plan.stop, Database.queuedRows]
  jobs := by rw [reserves.jobs]; simp [Plan.stop]

private theorem appended_inserted {c : Call} {payload : Bytes} {handlerIds : List String}
    {db db1 db2 : Database} (reserves : Reserves c db db1)
    (inserts : Inserts c payload handlerIds db1 db2)
    (result : Except DispatchError DispatchOutcome) (jobs : List Job) :
    Appended c ⟨result, (keyRow c).toList, [eventRow c payload], handlerIds, jobs⟩ db
      (db2.pushJobs jobs) where
  keys := by
    change db2.dispatchKeys.rows = _
    rw [inserts.keys, reserves.keys]
  events := by
    change db2.events.rows = _
    rw [inserts.events, reserves.events]
  deliveries := by
    change db2.handlerDeliveries.rows = _
    rw [inserts.deliveries, reserves.deliveries, reserves.nextId]
  jobs := by
    change db2.jobs ++ jobs = _
    rw [inserts.jobs, reserves.jobs]

private theorem write_planned {c : Call} {payload : Bytes} {handlerIds : List String}
    {db db1 : Database} (reserved : reserveStep c db = (db1, .inserting payload handlerIds))
    (reserves : Reserves c db db1) (unused : Unused c.eventId db) :
    (dispatch c db).2 = (writePlan c payload handlerIds (keyRow c).toList).result ∧
      Appended c (writePlan c payload handlerIds (keyRow c).toList) db (dispatch c db).1 := by
  have unknown : ∀ ev ∈ db1.events.rows, ev.id ≠ c.eventId := by
    rw [reserves.events]
    exact unused.events
  have second := insertStatement_planned payload handlerIds unknown
  by_cases large : maxHeadersBytes < len (headersText c)
  · have step := insertStep_oversized large payload handlerIds db1
    simp only [dispatch, reserved, step, writePlan, large, if_true]
    exact ⟨rfl, appended_reserved reserves _⟩
  have step : insertStep c payload handlerIds db1 = _ := if_neg large
  simp only [dispatch, reserved, step, writePlan, large, if_false]
  cases fault : c.faults.insert with
  | some e => exact ⟨rfl, appended_reserved reserves _⟩
  | none =>
    cases failure : insertError c payload handlerIds with
    | some e =>
      rw [failure] at second
      simp only [show insertStatement c payload handlerIds db1 = .error e from second]
      exact ⟨rfl, appended_reserved reserves _⟩
    | none =>
      rw [failure] at second
      obtain ⟨db2, done⟩ := second
      have inserts := insertStatement_ok done
      have settled : db2.pushJobs [] = db2 := by simp [Database.pushJobs]
      simp only [done]
      by_cases empty : handlerIds = []
      · subst empty
        have appended := appended_inserted reserves inserts (.ok (.noHandlers c.eventId)) []
        rw [settled] at appended
        exact ⟨rfl, appended⟩
      · simp only [empty, if_false, pushStep]
        cases push : c.faults.push with
        | some e =>
          have appended := appended_inserted reserves inserts (.error (.pgwqPush e)) []
          rw [settled] at appended
          exact ⟨rfl, appended⟩
        | none => exact ⟨rfl, appended_inserted reserves inserts _ _⟩

/-- Once its id is fresh, a call depends on the tables through `known` alone. -/
theorem dispatch_planned {c : Call} {db : Database} (unused : Unused c.eventId db) :
    (dispatch c db).2 = (plan c (known c db)).result ∧
      Appended c (plan c (known c db)) db (dispatch c db).1 := by
  have quiet : ∀ result, Appended c (.stop [] result) db db := by
    intro result
    exact ⟨by simp [Plan.stop], by simp [Plan.stop], by simp [Plan.stop, Database.queuedRows],
      by simp [Plan.stop]⟩
  cases passed : prepare c with
  | error e =>
    simp only [dispatch, reserveStep, plan, passed]
    exact ⟨rfl, quiet _⟩
  | ok result =>
    obtain ⟨payload, handlerIds⟩ := result
    simp only [plan, passed]
    rcases reserve_planned passed unused with ⟨result, planned, stopped⟩ |
      ⟨db1, planned, reserved, reserves⟩
    · simp only [dispatch, stopped, planned]
      exact ⟨rfl, quiet _⟩
    · simp only [planned]
      exact write_planned reserved reserves unused

end RustEvents.Dispatch.Plans
