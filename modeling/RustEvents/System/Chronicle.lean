/- module: RustEvents/System/Chronicle
   layer: system
   source: src/outbox.rs (Outbox::dispatch), src/outcome.rs
   digest: The committed calls of a run, and the rows of every reachable database traced back to them. -/

import RustEvents.Foundation.Records
import RustEvents.System.PurgeSafety
import RustEvents.Worker.Origins

set_option autoImplicit false
set_option relaxedAutoImplicit false

namespace RustEvents.System.Chronicle

open RustEvents.Foundation.LabelledRuns (Machine)
open RustEvents.Foundation.IndexedTable (Table)
open RustEvents.Model.Errors
open RustEvents.Model.Schema
open RustEvents.Model.Builder
open RustEvents.Model.Dispatch
open RustEvents.Model.Runtime (Reply)
open RustEvents.Model.Purge
open RustEvents.Dispatch.Effects
open RustEvents.Worker.Steps
open RustEvents.Worker.Origins
open RustEvents.System.Lifecycle
open RustEvents.System.PurgeSafety (delete_subset)

/-- The calls of a transaction that persist an event. -/
def creations : List Call → Database → List Call
  | [], _ => []
  | c :: cs, db =>
    (match (dispatch c db).2 with
      | .ok outcome => if outcome.creates then [c] else []
      | .error _ => []) ++ creations cs (dispatch c db).1

/-- What a step of the system adds to the chronicle: the creating calls that it commits. -/
def persisted (s : SystemState) : SystemLabel → SystemState → List Call
  | .transact tx, _ => if commitsOn tx s.db then creations tx.calls s.db else []
  | _, _ => []

/-- The handlers that a call fans out to. -/
def fanOut (c : Call) : List String := c.outbox.registry.handlerIdsFor c.event.eventType

/-- The deliveries that an outcome reports. -/
def promised : DispatchOutcome → ℕ
  | .dispatched _ deliveries => deliveries
  | _ => 0

/-- Everything that a call which persists its event adds to the tables. -/
structure Persists (c : Call) (payload : Bytes) (db db' : Database) : Prop where
  toVec : c.event.toVec = .ok payload
  events : db'.events.rows = db.events.rows ++ [eventRow c payload]
  keys : db'.dispatchKeys.rows = db.dispatchKeys.rows ++ (keyRow c).toList
  deliveries : db'.handlerDeliveries.rows = db.handlerDeliveries.rows ++
    Database.queuedRows c.eventId c.now db.nextDeliveryId (fanOut c)
  jobs : db'.jobs = db.jobs ++ (fanOut c).map (jobFor c)

private theorem persists_of {c : Call} {payload : Bytes} {handlerIds : List String}
    {db db1 db2 : Database} (passed : prepare c = .ok (payload, handlerIds))
    (reserves : Reserves c db db1) (inserts : Inserts c payload handlerIds db1 db2) :
    handlerIds = fanOut c ∧ c.event.toVec = .ok payload ∧
      db2.events.rows = db.events.rows ++ [eventRow c payload] ∧
      db2.dispatchKeys.rows = db.dispatchKeys.rows ++ (keyRow c).toList ∧
      db2.handlerDeliveries.rows = db.handlerDeliveries.rows ++
        Database.queuedRows c.eventId c.now db.nextDeliveryId (fanOut c) ∧
      db2.jobs = db.jobs := by
  have prepared := prepare_ok passed
  have ids : handlerIds = fanOut c := prepared.handlerIds
  refine ⟨ids, prepared.toVec, ?_, ?_, ?_, ?_⟩
  · rw [inserts.events, reserves.events]
  · rw [inserts.keys, reserves.keys]
  · rw [inserts.deliveries, reserves.deliveries, reserves.nextId, ids]
  · rw [inserts.jobs, reserves.jobs]

/-- A call that returns `Ok` changed nothing, or persisted its event and reports how far. -/
theorem dispatch_ok {c : Call} {db : Database} {outcome : DispatchOutcome}
    (ok : (dispatch c db).2 = .ok outcome) :
    (outcome.creates = false ∧ promised outcome = 0 ∧ (dispatch c db).1 = db) ∨
      (outcome.creates = true ∧ outcome.eventId = c.eventId ∧
        promised outcome = (fanOut c).length ∧
        ∃ payload, Persists c payload db (dispatch c db).1) := by
  have cases := dispatch_cases c db
  generalize dispatch c db = result at cases ok
  cases cases with
  | unreserved result reserving =>
    subst ok
    cases reserving with
    | duplicate => exact .inl ⟨rfl, rfl, rfl⟩
  | uninserted e payload handlerIds db1 passed reserves => cases ok
  | unpushed e payload handlerIds db1 db2 passed reserves => cases ok
  | noHandlers payload db1 db2 passed reserves inserts =>
    cases Except.ok.inj ok
    obtain ⟨ids, toVec, events, keys, deliveries, jobs⟩ := persists_of passed reserves inserts
    refine .inr ⟨rfl, rfl, ?_, payload, toVec, events, keys, deliveries, ?_⟩
    · rw [← ids]
      rfl
    · rw [← ids, jobs, List.map_nil, List.append_nil]
  | dispatched payload handlerIds db1 db2 passed some reserves inserts =>
    cases Except.ok.inj ok
    obtain ⟨ids, toVec, events, keys, deliveries, jobs⟩ := persists_of passed reserves inserts
    refine .inr ⟨rfl, rfl, ?_, payload, toVec, events, keys, deliveries, ?_⟩
    · rw [← ids]
      rfl
    · rw [← ids]
      change db2.jobs ++ _ = _
      rw [jobs]

/-- The induction over the calls of a transaction that all return `Ok`: what every call that
persists its event keeps, once that call is added to the past, holds after all of them. -/
theorem creations_tracked {I : List Call → Database → Prop}
    (persists : ∀ (past : List Call) (db : Database) (c : Call) (outcome : DispatchOutcome)
      (payload : Bytes), I past db → (dispatch c db).2 = .ok outcome → outcome.creates = true →
      Persists c payload db (dispatch c db).1 → I (past ++ [c]) (dispatch c db).1)
    {past cs : List Call} {db : Database} (start : I past db)
    (ok : (dispatchAll cs db).2.all Except.isOk = true) :
    I (past ++ creations cs db) (dispatchAll cs db).1 := by
  induction cs generalizing past db with
  | nil =>
    have same : past ++ creations [] db = past := List.append_nil past
    rw [same]
    exact start
  | cons c cs ih =>
    simp only [dispatchAll, List.all_cons, Bool.and_eq_true] at ok
    obtain ⟨first, rest⟩ := ok
    cases result : (dispatch c db).2 with
    | error e =>
      rw [result] at first
      cases first
    | ok outcome =>
      rcases dispatch_ok result with ⟨quiet, -, same⟩ | ⟨creates, -, -, payload, adds⟩
      · have here : creations (c :: cs) db = creations cs (dispatch c db).1 := by
          simp only [creations, result, quiet]
          rfl
        rw [here]
        apply ih _ rest
        rw [same]
        exact start
      · have here : creations (c :: cs) db = [c] ++ creations cs (dispatch c db).1 := by
          simp only [creations, result, creates]
          rfl
        rw [here, ← List.append_assoc]
        exact ih (persists past db c outcome payload start result creates adds) rest

/-- Every row of the tables comes from one of these calls. -/
structure Recorded (past : List Call) (db : Database) : Prop where
  events : ∀ e ∈ db.events.rows, ∃ c ∈ past, ∃ payload,
    c.event.toVec = .ok payload ∧ e = eventRow c payload
  keys : ∀ k ∈ db.dispatchKeys.rows, ∃ c ∈ past, keyRow c = some k
  deliveries : ∀ d ∈ db.handlerDeliveries.rows, ∃ c ∈ past,
    c.eventId = d.eventId ∧ d.handlerId ∈ fanOut c ∧ d.createdAt = c.now

namespace Recorded

variable {past more : List Call} {db db' : Database}

private theorem mono (recorded : Recorded past db) (within : past ⊆ more) : Recorded more db := by
  refine ⟨?_, ?_, ?_⟩
  · intro e stored
    obtain ⟨c, mem, facts⟩ := recorded.events e stored
    exact ⟨c, within mem, facts⟩
  · intro k stored
    obtain ⟨c, mem, facts⟩ := recorded.keys k stored
    exact ⟨c, within mem, facts⟩
  · intro d stored
    obtain ⟨c, mem, facts⟩ := recorded.deliveries d stored
    exact ⟨c, within mem, facts⟩

private theorem shrink (recorded : Recorded past db)
    (events : ∀ e ∈ db'.events.rows, e ∈ db.events.rows)
    (keys : ∀ k ∈ db'.dispatchKeys.rows, k ∈ db.dispatchKeys.rows)
    (deliveries : ∀ d ∈ db'.handlerDeliveries.rows, ∃ d' ∈ db.handlerDeliveries.rows,
      d'.envelope = d.envelope ∧ d'.createdAt = d.createdAt) : Recorded past db' := by
  refine ⟨?_, ?_, ?_⟩
  · intro e stored
    exact recorded.events e (events e stored)
  · intro k stored
    exact recorded.keys k (keys k stored)
  · intro d stored
    obtain ⟨d', stored', envelope, created⟩ := deliveries d stored
    obtain ⟨c, mem, event, handler, now⟩ := recorded.deliveries d' stored'
    have sameEvent : d'.eventId = d.eventId := congrArg HandlerEnvelope.eventId envelope
    have sameHandler : d'.handlerId = d.handlerId := congrArg HandlerEnvelope.handlerId envelope
    refine ⟨c, mem, event.trans sameEvent, ?_, created.symm.trans now⟩
    rw [← sameHandler]
    exact handler

private theorem persists (recorded : Recorded past db) {c : Call} {payload : Bytes}
    (adds : Persists c payload db db') : Recorded (past ++ [c]) db' := by
  have grown := recorded.mono (List.subset_append_left past [c])
  have own : c ∈ past ++ [c] := List.mem_append_right past List.mem_cons_self
  refine ⟨?_, ?_, ?_⟩
  · intro e stored
    rw [adds.events] at stored
    rcases List.mem_append.mp stored with old | new
    · exact grown.events e old
    · exact ⟨c, own, payload, adds.toVec, List.mem_singleton.mp new⟩
  · intro k stored
    rw [adds.keys] at stored
    rcases List.mem_append.mp stored with old | new
    · exact grown.keys k old
    · exact ⟨c, own, Option.mem_toList.mp new⟩
  · intro d stored
    rw [adds.deliveries] at stored
    rcases List.mem_append.mp stored with old | new
    · exact grown.deliveries d old
    · obtain ⟨event, handler, -, -, shape⟩ := Database.queuedRows_spec new
      refine ⟨c, own, event.symm, handler, ?_⟩
      rw [shape]
      rfl

private theorem dispatchAll {cs : List Call} (recorded : Recorded past db)
    (ok : (dispatchAll cs db).2.all Except.isOk = true) :
    Recorded (past ++ creations cs db) (dispatchAll cs db).1 :=
  creations_tracked (fun _ _ _ _ _ recorded _ _ adds => recorded.persists adds) recorded ok

end Recorded

/-- The rows of a call that has persisted its event. -/
structure Stored (c : Call) (db : Database) : Prop where
  event : ∃ payload, c.event.toVec = .ok payload ∧ eventRow c payload ∈ db.events.rows
  key : ∀ k, keyRow c = some k → k ∈ db.dispatchKeys.rows
  deliveries : ∀ h ∈ fanOut c, ∃ d ∈ db.handlerDeliveries.rows, d.envelope = ⟨c.eventId, h⟩

private theorem Persists.stored {c : Call} {payload : Bytes} {db db' : Database}
    (adds : Persists c payload db db') : Stored c db' := by
  refine ⟨⟨payload, adds.toVec, ?_⟩, ?_, ?_⟩
  · rw [adds.events]
    exact List.mem_append_right _ (List.mem_singleton_self _)
  · intro k row
    rw [adds.keys]
    exact List.mem_append_right _ (Option.mem_toList.mpr row)
  · intro h handler
    have named : (⟨c.eventId, h⟩ : HandlerEnvelope) ∈
        (Database.queuedRows c.eventId c.now db.nextDeliveryId (fanOut c)).map
          HandlerDelivery.envelope := by
      rw [Database.queuedRows_envelope]
      exact List.mem_map_of_mem handler
    obtain ⟨d, queued, envelope⟩ := List.mem_map.mp named
    refine ⟨d, ?_, envelope⟩
    rw [adds.deliveries]
    exact List.mem_append_right _ queued

private theorem Stored.kept {c c' : Call} {payload : Bytes} {db db' : Database}
    (stored : Stored c db) (adds : Persists c' payload db db') : Stored c db' := by
  obtain ⟨payload', toVec, event⟩ := stored.event
  refine ⟨⟨payload', toVec, ?_⟩, ?_, ?_⟩
  · rw [adds.events]
    exact List.mem_append_left _ event
  · intro k row
    rw [adds.keys]
    exact List.mem_append_left _ (stored.key k row)
  · intro h handler
    obtain ⟨d, row, envelope⟩ := stored.deliveries h handler
    refine ⟨d, ?_, envelope⟩
    rw [adds.deliveries]
    exact List.mem_append_left _ row

theorem commitsOn_ok {tx : Transaction} {db : Database} (commits : commitsOn tx db = true) :
    (dispatchAll tx.calls db).2.all Except.isOk = true := by
  unfold commitsOn at commits
  simp only [Bool.and_eq_true] at commits
  exact commits.1.2

theorem delete_events {victims : Victims} {db : Database} {e : EventRow}
    (stored : e ∈ (victims.delete db).events.rows) : e ∈ db.events.rows := by
  cases victims with
  | terminalDeliveries ids => exact stored
  | dispatchKeys rows => exact stored
  | events ids => exact (Table.mem_delete.mp stored).1

theorem delete_keys {victims : Victims} {db : Database} {k : DispatchKeyRow}
    (stored : k ∈ (victims.delete db).dispatchKeys.rows) : k ∈ db.dispatchKeys.rows := by
  cases victims with
  | terminalDeliveries ids => exact stored
  | dispatchKeys rows => exact (Table.mem_delete.mp stored).1
  | events ids => exact (Table.mem_delete.mp stored).1

private theorem recorded_step {past : List Call} {s t : SystemState} {a : SystemLabel}
    (recorded : Recorded past s.db) (taken : system.step s a = some t) :
    Recorded (past ++ persisted s a t) t.db := by
  have silent : past ++ [] = past := List.append_nil past
  cases systemStep_sound taken with
  | transact tx nodup fresh =>
    change Recorded (past ++ if commitsOn tx s.db then creations tx.calls s.db else [])
      (tx.execute s.db)
    rw [execute_eq]
    split
    · next commits => exact recorded.dispatchAll (commitsOn_ok commits)
    · rw [silent]
      exact recorded
  | work a w step =>
    change Recorded (past ++ []) w.db
    rw [silent]
    have inner := step_sound step
    have frame := step_frame inner
    refine recorded.shrink ?_ ?_ ?_
    · intro e stored
      rw [frame.events] at stored
      exact stored
    · intro k stored
      rw [frame.dispatchKeys] at stored
      exact stored
    · intro d stored
      exact row_origin inner stored
  | purge kind cutoff =>
    change Recorded (past ++ []) s.db
    rw [silent]
    exact recorded
  | select p victims call found kind chosen =>
    change Recorded (past ++ []) s.db
    rw [silent]
    exact recorded
  | delete p reply call victims found phase =>
    change Recorded (past ++ []) (reply.after s.db victims.statement)
    rw [silent]
    rcases after_delete victims s.db reply with same | gone
    · rw [same]
      exact recorded
    · rw [gone]
      refine recorded.shrink (fun e => delete_events) (fun k => delete_keys) ?_
      intro d stored
      exact ⟨d, delete_subset stored, rfl, rfl⟩

theorem creations_sublist (cs : List Call) (db : Database) : (creations cs db).Sublist cs := by
  induction cs generalizing db with
  | nil => exact List.Sublist.refl _
  | cons c cs ih =>
    have rest := ih (dispatch c db).1
    unfold creations
    split
    · split
      · exact rest.cons_cons c
      · exact rest.cons c
    · exact rest.cons c

theorem creations_ids (cs : List Call) (db : Database) :
    ((creations cs db).map Call.eventId).Sublist (cs.map Call.eventId) :=
  (creations_sublist cs db).map Call.eventId

/-- The chronicle of a run: it names each event once, and all ids in it were generated. -/
structure Chronicled (past : List Call) (s : SystemState) : Prop where
  recorded : Recorded past s.db
  distinct : (past.map Call.eventId).Nodup
  used : ∀ c ∈ past, c.eventId ∈ s.used

theorem chronicled_start : Chronicled [] SystemState.start := by
  refine ⟨⟨?_, ?_, ?_⟩, List.nodup_nil, ?_⟩
  · intro e stored
    cases stored
  · intro k stored
    cases stored
  · intro d stored
    cases stored
  · intro c mem
    cases mem

theorem chronicled_step {past : List Call} {s t : SystemState} {a : SystemLabel}
    (chronicled : Chronicled past s) (taken : system.step s a = some t) :
    Chronicled (past ++ persisted s a t) t := by
  have recorded := recorded_step chronicled.recorded taken
  have silent : persisted s a t = [] → t.used = s.used → Chronicled (past ++ persisted s a t) t := by
    intro none same
    refine ⟨recorded, ?_, ?_⟩
    · rw [none, List.append_nil]
      exact chronicled.distinct
    · rw [none, List.append_nil, same]
      exact chronicled.used
  cases systemStep_sound taken with
  | transact tx nodup fresh =>
    have within : ((persisted s (.transact tx) (s.transacted tx)).map Call.eventId).Sublist
        (tx.calls.map Call.eventId) := by
      simp only [persisted]
      split
      · exact creations_ids tx.calls s.db
      · exact List.nil_sublist _
    refine ⟨recorded, ?_, ?_⟩
    · rw [List.map_append, List.nodup_append]
      refine ⟨chronicled.distinct, nodup.sublist within, ?_⟩
      intro a old b new same
      obtain ⟨c, mem, rfl⟩ := List.mem_map.mp old
      have known : b ∈ tx.calls.map Call.eventId := within.subset new
      rw [← same] at known
      exact fresh c.eventId (chronicled.used c mem) known
    · intro c mem
      change c.eventId ∈ s.used ++ tx.calls.map Call.eventId
      rcases List.mem_append.mp mem with old | new
      · exact List.mem_append_left _ (chronicled.used c old)
      · exact List.mem_append_right _ (within.subset (List.mem_map_of_mem new))
  | work a w step => exact silent rfl rfl
  | purge kind cutoff => exact silent rfl rfl
  | select p victims call found kind chosen => exact silent rfl rfl
  | delete p reply call victims found phase => exact silent rfl rfl

theorem Chronicled.unique {past : List Call} {s : SystemState} (chronicled : Chronicled past s)
    {c c' : Call} (mem : c ∈ past) (mem' : c' ∈ past) (same : c.eventId = c'.eventId) : c = c' :=
  List.inj_on_of_nodup_map chronicled.distinct mem mem' same

/-- The committed creating calls of a run from the empty tables. -/
def chronicle (as : List SystemLabel) : List Call := system.record persisted SystemState.start as

theorem chronicle_append {as : List SystemLabel} {s : SystemState}
    (reached : system.run SystemState.start as = some s) (bs : List SystemLabel) :
    chronicle (as ++ bs) = chronicle as ++ system.record persisted s bs :=
  Machine.record_append reached

theorem chronicle_step {as : List SystemLabel} {s t : SystemState} {a : SystemLabel}
    (reached : system.run SystemState.start as = some s) (taken : system.step s a = some t) :
    chronicle (as ++ [a]) = chronicle as ++ persisted s a t := by
  rw [chronicle_append reached, Machine.record_cons taken]
  exact congrArg _ (List.append_nil _)

theorem chronicled_run {as : List SystemLabel} {s : SystemState}
    (reached : system.run SystemState.start as = some s) : Chronicled (chronicle as) s :=
  Machine.record_invariant (I := Chronicled)
    (fun _ _ _ _ chronicled taken => chronicled_step chronicled taken) chronicled_start reached

end RustEvents.System.Chronicle
