/- module: RustEvents/Dispatch/Fanout
   layer: system
   source: src/outbox.rs (Outbox::dispatch), migrations/20260513000001_v01_outbox_init.sql
   digest: Histories of transactions: what each dispatch adds, which constraints can never fire, and one job per delivery. -/

import RustEvents.Dispatch.Rejections
import Mathlib.Data.List.Induction

set_option autoImplicit false
set_option relaxedAutoImplicit false

namespace RustEvents.Dispatch.Fanout

open RustEvents.Foundation.IndexedTable
open RustEvents.Model.Text
open RustEvents.Model.Errors
open RustEvents.Model.Schema
open RustEvents.Model.Builder
open RustEvents.Model.Dispatch
open RustEvents.Dispatch.Effects
open RustEvents.Dispatch.Rejections

/-- The ids registered for the event type of a call, by a builder that built its outbox. -/
def Registered (c : Call) (handlerIds : List String) : Prop :=
  ∃ b : OutboxBuilder, b.build = .ok c.outbox ∧ handlerIds = idsFor b.pending c.event.eventType

/-- Every CHECK that the tables put on the rows of a call, except `events_headers_size`. -/
structure Checked (c : Call) (payload : Bytes) (nextId : ℕ) (handlerIds : List String) : Prop where
  event : ∀ check, check ≠ .headersSize → EventCheck.holds (eventRow c payload) check = true
  key : ∀ r ∈ keyRow c, ∀ check, KeyCheck.holds r check = true
  deliveries : ∀ d ∈ Database.queuedRows c.eventId c.now nextId handlerIds, ∀ check,
    DeliveryCheck.holds d check = true

/-- The rows that a persisting dispatch adds, and nothing else. -/
structure Adds (c : Call) (db db' : Database) (handlerIds : List String) : Prop where
  registered : Registered c handlerIds
  distinct : handlerIds.Nodup
  rows : ∃ payload, c.event.toVec = .ok payload ∧
    db'.events.rows = db.events.rows ++ [eventRow c payload] ∧
    Checked c payload db.nextDeliveryId handlerIds
  keys : db'.dispatchKeys.rows = db.dispatchKeys.rows ++ (keyRow c).toList
  deliveries : db'.handlerDeliveries.rows = db.handlerDeliveries.rows ++
    Database.queuedRows c.eventId c.now db.nextDeliveryId handlerIds
  jobs : db'.jobs = db.jobs ++ handlerIds.map (jobFor c)

/-- A statement failed for a reason outside the schema's constraints, with the single
exception of `events_headers_size`. -/
def Excused (c : Call) (e : SqlxError) : Prop :=
  c.faults.reserve = some e ∨ c.faults.insert = some e ∨ e = characterNotInRepertoire ∨
    e = untranslatableCharacter ∨ e = checkViolation "events_headers_size"

/-- The effect of one call, by its result. -/
def Effect (c : Call) (db : Database) :
    Database × Except DispatchError DispatchOutcome → Prop
  | (db', .ok (.dispatched eventId n)) =>
    eventId = c.eventId ∧ ∃ handlerIds, Adds c db db' handlerIds ∧ n = handlerIds.length ∧ 0 < n
  | (db', .ok (.noHandlers eventId)) => eventId = c.eventId ∧ Adds c db db' []
  | (db', .ok (.duplicate eventId)) => db' = db ∧ ∃ key row, c.ctx.idempotencyKey = some key ∧
    db.key? c.ctx.tenantId key = some row ∧ eventId = row.eventId
  | (_, .error e) => e.typed = true ∨ (∃ f, Excused c f ∧ e = .ofSqlx f) ∨
    ∃ f, c.faults.push = some f ∧ e = .pgwqPush f

theorem eventRow_checks {c : Call} {payload : Bytes} {handlerIds : List String}
    (prepared : Prepared c payload handlerIds) (check : EventCheck)
    (other : check ≠ .headersSize) : EventCheck.holds (eventRow c payload) check = true := by
  cases check with
  | eventTypeBytes => exact prepared.eventType
  | producerBcBytes => exact decide_eq_true prepared.producerBc
  | tenantIdBytes => exact decide_eq_true prepared.tenantId
  | aggregateKeyBytes => exact prepared.aggregateKey
  | payloadSize => exact decide_eq_true prepared.payload
  | headersObject => rfl
  | headersSize => exact absurd rfl other

theorem queuedRow_checks {id : ℕ} {eventId : Uuid} {now : Timestamp} {handlerId : String}
    (bytes : between1 128 handlerId = true) (check : DeliveryCheck) :
    DeliveryCheck.holds (Database.queuedRow id eventId now handlerId) check = true := by
  cases check with
  | handlerBytes => exact bytes
  | attemptsNonneg => rfl
  | lastErrorBytes => rfl
  | temporal => simp [DeliveryCheck.holds, HandlerDelivery.temporal, Database.queuedRow]
  | statusInvariants => rfl

private theorem registered_ids {c : Call} (built : ∃ b : OutboxBuilder, b.build = .ok c.outbox) :
    Registered c (c.outbox.registry.handlerIdsFor c.event.eventType) ∧
      (c.outbox.registry.handlerIdsFor c.event.eventType).Nodup ∧
      ∀ h ∈ c.outbox.registry.handlerIdsFor c.event.eventType, between1 128 h = true := by
  obtain ⟨b, eqn⟩ := built
  have index := build_indexes eqn
  rw [index.types]
  refine ⟨⟨b, eqn, rfl⟩, idsFor_nodup index.nodup _, ?_⟩
  intro h mem
  obtain ⟨p, stored, -, rfl⟩ := mem_idsFor.mp mem
  exact index.bytes p stored

private theorem checked_of_prepared {c : Call} {payload : Bytes} {handlerIds : List String}
    (prepared : Prepared c payload handlerIds) (bytes : ∀ h ∈ handlerIds, between1 128 h = true)
    (nextId : ℕ) : Checked c payload nextId handlerIds := by
  refine ⟨eventRow_checks prepared, ?_, ?_⟩
  · intro r mem
    cases keyed : c.ctx.idempotencyKey with
    | none => simp [keyRow, keyed] at mem
    | some key =>
      simp only [keyRow, keyed, Option.map_some, Option.mem_def, Option.some.injEq] at mem
      exact mem ▸ keyRow_checks prepared keyed
  · intro d mem check
    obtain ⟨-, handler, -, -, shape⟩ := Database.queuedRows_spec mem
    rw [shape]
    exact queuedRow_checks (bytes _ handler) check

/-- The id of the call has not been used in these tables. -/
structure Unused (eventId : Uuid) (db : Database) : Prop where
  events : ∀ e ∈ db.events.rows, e.id ≠ eventId
  keys : ∀ k ∈ db.dispatchKeys.rows, k.eventId ≠ eventId

private theorem queuedRows_apart {eventId : Uuid} {now : Timestamp} {id : ℕ} {hs : List String}
    (distinct : hs.Nodup) :
    (Database.queuedRows eventId now id hs).Pairwise HandlerDelivery.Apart := by
  induction hs generalizing id with
  | nil => exact List.Pairwise.nil
  | cons h hs ih =>
    rw [List.nodup_cons] at distinct
    refine List.pairwise_cons.mpr ⟨?_, ih distinct.2⟩
    intro d mem
    obtain ⟨-, handler, low, -, -⟩ := Database.queuedRows_spec mem
    constructor
    · have later : id + 1 ≤ d.id := low
      intro same
      have here : id = d.id := same
      omega
    · intro same
      have here : h = d.handlerId := congrArg HandlerEnvelope.handlerId same
      exact distinct.1 (here ▸ handler)

private theorem upsertKey_error {c : Call} {key : String} {db : Database} {payload : Bytes}
    {handlerIds : List String} {e : SqlxError} (prepared : Prepared c payload handlerIds)
    (keyed : c.ctx.idempotencyKey = some key) (unused : Unused c.eventId db)
    (failed : upsertKey c key db = .error e) : e = characterNotInRepertoire := by
  by_cases texts : (storable c.ctx.tenantId && storable key) = true
  · cases found : db.key? c.ctx.tenantId key with
    | some row =>
      have valid : (⟨c.ctx.tenantId, key, c.eventId, c.now⟩ : DispatchKeyRow).violated = none :=
        violated_eq_none (keyRow_checks prepared keyed)
      simp [upsertKey, texts, valid, found] at failed
    | none =>
      have free : reservable c db key = true := by
        simp only [Bool.and_eq_true] at texts
        simpa [reservable, texts, found] using unused.keys
      obtain ⟨db', done⟩ := upsertKey_reservable prepared keyed free
      rw [done] at failed
      cases failed
  · simp only [upsertKey, texts] at failed
    exact (Except.error.inj failed).symm

private theorem headersSize_violated {c : Call} {payload : Bytes} {handlerIds : List String}
    {constraint : String} (prepared : Prepared c payload handlerIds)
    (found : (eventRow c payload).violated = some constraint) :
    constraint = "events_headers_size" := by
  obtain ⟨check, listed, broken⟩ := violated_some found
  have last : check = .headersSize := by
    by_contra other
    rw [eventRow_checks prepared check other] at broken
    cases broken
  subst last
  simpa [eventChecks] using listed

theorem insertDeliveries_total {db : Database} {eventId : Uuid} {handlerIds : List String}
    (now : Timestamp) (distinct : handlerIds.Nodup)
    (bytes : ∀ h ∈ handlerIds, between1 128 h = true)
    (parent : ∃ e ∈ db.events.rows, e.id = eventId)
    (childless : ∀ d ∈ db.handlerDeliveries.rows, d.eventId ≠ eventId) :
    ∃ db', db.insertDeliveries eventId handlerIds now = .ok db' := by
  have valid : (Database.queuedRows eventId now db.nextDeliveryId handlerIds).findSome?
      HandlerDelivery.violated = none := by
    rw [List.findSome?_eq_none_iff]
    intro d mem
    obtain ⟨-, handler, -, -, shape⟩ := Database.queuedRows_spec mem
    rw [shape]
    exact violated_eq_none (queuedRow_checks (bytes _ handler))
  have apart : (db.handlerDeliveries.rows ++
      Database.queuedRows eventId now db.nextDeliveryId handlerIds).Pairwise
        HandlerDelivery.Apart := by
    refine List.pairwise_append.mpr ⟨db.handlerDeliveries.unique, queuedRows_apart distinct, ?_⟩
    intro old stored new mem
    obtain ⟨event, -, low, -, -⟩ := Database.queuedRows_spec mem
    have below := db.deliveryIds old stored
    constructor
    · omega
    · intro same
      have here : old.eventId = new.eventId := congrArg HandlerEnvelope.eventId same
      exact childless old stored (here.trans event)
  obtain ⟨table, inserted⟩ := Table.insertAll_isSome apart
  simp only [Database.insertDeliveries, valid]
  split
  · next refused =>
    rw [inserted] at refused
    cases refused
  · exact ⟨_, dif_pos parent⟩

private theorem insertStatement_error {c : Call} {payload : Bytes} {handlerIds : List String}
    {db : Database} {e : SqlxError} (prepared : Prepared c payload handlerIds)
    (distinct : handlerIds.Nodup) (bytes : ∀ h ∈ handlerIds, between1 128 h = true)
    (unused : ∀ ev ∈ db.events.rows, ev.id ≠ c.eventId)
    (failed : insertStatement c payload handlerIds db = .error e) :
    e = characterNotInRepertoire ∨ e = untranslatableCharacter ∨
      e = checkViolation "events_headers_size" := by
  simp only [insertStatement] at failed
  split at failed
  · split at failed
    · next f refused =>
      cases failed
      simp only [Database.insertEvent] at refused
      split at refused
      · next constraint broken =>
        cases refused
        exact .inr (.inr (by rw [headersSize_violated prepared broken]))
      · split at refused
        · next clash =>
          have apart : ∀ ev ∈ db.events.rows, EventRow.Apart ev (eventRow c payload) := unused
          simp [Table.insert, dif_pos apart] at clash
        · cases refused
    · next db1 inserted =>
      split at failed
      · cases failed
      · obtain ⟨events, -, deliveries, -, -⟩ := insertEvent_ok inserted
        have parent : ∃ ev ∈ db1.events.rows, ev.id = c.eventId :=
          ⟨eventRow c payload, by rw [events]; simp, rfl⟩
        have childless : ∀ d ∈ db1.handlerDeliveries.rows, d.eventId ≠ c.eventId := by
          intro d stored same
          rw [deliveries] at stored
          obtain ⟨ev, known, ids⟩ := db.deliveryEvent d stored
          exact unused ev known (ids.trans same)
        obtain ⟨db2, done⟩ := insertDeliveries_total c.now distinct bytes parent childless
        rw [done] at failed
        cases failed
  · cases failed
    exact (textError_cases _).imp_right .inl

private theorem dispatch_effect {c : Call} {db : Database}
    (built : ∃ b : OutboxBuilder, b.build = .ok c.outbox) (unused : Unused c.eventId db) :
    Effect c db (dispatch c db) := by
  obtain ⟨registered, distinct, bytes⟩ := registered_ids built
  have cases := dispatch_cases c db
  generalize dispatch c db = result at cases
  cases cases with
  | unreserved result reserving =>
    cases reserving with
    | rejected e failed => exact .inl (prepare_error failed)
    | unreserved e payload handlerIds key prepared keyed cause =>
      refine .inr (.inl ⟨e, ?_, rfl⟩)
      rcases cause with fault | failed
      · exact .inl fault
      · exact .inr (.inr (.inl (upsertKey_error prepared keyed unused failed)))
    | duplicate payload handlerIds key row passed keyed reached found =>
      exact ⟨rfl, key, row, keyed, found, rfl⟩
  | uninserted e payload handlerIds db1 passed reserves inserting =>
    have prepared := prepare_ok passed
    rw [← prepared.handlerIds] at distinct bytes
    cases inserting with
    | oversized large => exact .inl rfl
    | uninserted f cause =>
      refine .inr (.inl ⟨f, ?_, rfl⟩)
      rcases cause with fault | failed
      · exact .inr (.inl fault)
      · have free : ∀ ev ∈ db1.events.rows, ev.id ≠ c.eventId := by
          rw [reserves.events]
          exact unused.events
        exact .inr (.inr (insertStatement_error prepared distinct bytes free failed))
  | noHandlers payload db1 db2 passed reserves inserts =>
    have prepared := prepare_ok passed
    rw [← prepared.handlerIds] at registered
    refine ⟨rfl, registered, List.nodup_nil, ⟨payload, prepared.toVec, ?_, ?_⟩, ?_, ?_, ?_⟩
    · rw [inserts.events, reserves.events]
    · exact checked_of_prepared prepared (by simp) _
    · rw [inserts.keys, reserves.keys]
    · rw [inserts.deliveries, reserves.deliveries, reserves.nextId]
    · simp [inserts.jobs, reserves.jobs]
  | unpushed e payload handlerIds db1 db2 passed reserves inserts fault =>
    exact .inr (.inr ⟨e, fault, rfl⟩)
  | dispatched payload handlerIds db1 db2 passed some reserves inserts =>
    have prepared := prepare_ok passed
    rw [← prepared.handlerIds] at registered distinct bytes
    refine ⟨rfl, handlerIds, ⟨registered, distinct, ⟨payload, prepared.toVec, ?_, ?_⟩, ?_, ?_, ?_⟩,
      rfl, List.length_pos_of_ne_nil some⟩
    · exact inserts.events.trans (by rw [reserves.events])
    · exact checked_of_prepared prepared bytes _
    · exact (congrArg Table.rows inserts.keys).trans reserves.keys
    · exact inserts.deliveries.trans (by rw [reserves.deliveries, reserves.nextId])
    · simp [Database.pushJobs, inserts.jobs, reserves.jobs]

/-- All event ids in these tables come from `ids`. -/
structure Issued (ids : List Uuid) (db : Database) : Prop where
  events : ∀ e ∈ db.events.rows, e.id ∈ ids
  keys : ∀ k ∈ db.dispatchKeys.rows, k.eventId ∈ ids

theorem Issued.unused {ids : List Uuid} {db : Database} (issued : Issued ids db) {eventId : Uuid}
    (fresh : eventId ∉ ids) : Unused eventId db := by
  refine ⟨?_, ?_⟩
  · intro e stored same
    exact fresh (same ▸ issued.events e stored)
  · intro k stored same
    exact fresh (same ▸ issued.keys k stored)

theorem Issued.mono {ids ids' : List Uuid} {db : Database} (issued : Issued ids db)
    (more : ids ⊆ ids') : Issued ids' db :=
  ⟨fun e stored => more (issued.events e stored), fun k stored => more (issued.keys k stored)⟩

private theorem issued_reserves {ids : List Uuid} {c : Call} {db db' : Database}
    (own : c.eventId ∈ ids) (reserves : Reserves c db db') (issued : Issued ids db) :
    Issued ids db' := by
  refine ⟨by rw [reserves.events]; exact issued.events, ?_⟩
  intro k stored
  rw [reserves.keys] at stored
  rcases List.mem_append.mp stored with old | new
  · exact issued.keys k old
  · obtain ⟨key, -, rfl⟩ := Option.map_eq_some_iff.mp (Option.mem_toList.mp new)
    exact own

private theorem issued_inserts {ids : List Uuid} {c : Call} {payload : Bytes}
    {handlerIds : List String} {db db' : Database} (own : c.eventId ∈ ids)
    (inserts : Inserts c payload handlerIds db db') (issued : Issued ids db) : Issued ids db' := by
  refine ⟨?_, by rw [inserts.keys]; exact issued.keys⟩
  intro e stored
  rw [inserts.events] at stored
  rcases List.mem_append.mp stored with old | new
  · exact issued.events e old
  · rw [List.mem_singleton.mp new]
    exact own

private theorem covers_issued {ids : List Uuid} {cs : List Call} (own : ∀ c ∈ cs, c.eventId ∈ ids) :
    Covers cs fun db db' => Issued ids db → Issued ids db' where
  refl _ issued := issued
  trans first second issued := second (first issued)
  reserves c mem := issued_reserves (own c mem)
  inserts c mem := issued_inserts (own c mem)
  pushes _ _ issued := ⟨issued.events, issued.keys⟩

theorem issued_dispatch {ids : List Uuid} {db : Database} (issued : Issued ids db) (c : Call) :
    Issued (ids ++ [c.eventId]) (dispatch c db).1 := by
  have own : ∀ d ∈ [c], d.eventId ∈ ids ++ [c.eventId] := by simp
  exact (covers_issued own).dispatch (List.mem_singleton_self c) db
    (issued.mono (List.subset_append_left _ _))

theorem issued_dispatchAll {ids : List Uuid} {db : Database} (issued : Issued ids db)
    (cs : List Call) : Issued (ids ++ cs.map Call.eventId) (dispatchAll cs db).1 := by
  have own : ∀ c ∈ cs, c.eventId ∈ ids ++ cs.map Call.eventId :=
    fun c mem => List.mem_append_right _ (List.mem_map_of_mem mem)
  exact (covers_issued own).dispatchAll db (issued.mono (List.subset_append_left _ _))

/-- One job for every delivery, in the same order, and an event for every key. -/
structure Consistent (db : Database) : Prop where
  paired : db.handlerDeliveries.rows.map HandlerDelivery.envelope = db.jobs.map Job.envelope
  keys : db.KeysReferEvents

private theorem consistent_empty : Consistent Database.empty :=
  ⟨rfl, by intro k stored; cases stored⟩

private theorem consistent_adds {c : Call} {db db' : Database} {handlerIds : List String}
    (consistent : Consistent db) (adds : Adds c db db' handlerIds) : Consistent db' := by
  obtain ⟨payload, -, events, -⟩ := adds.rows
  constructor
  · rw [adds.deliveries, adds.jobs, List.map_append, List.map_append, consistent.paired,
      Database.queuedRows_envelope, List.map_map]
    rfl
  · intro k stored
    rw [adds.keys] at stored
    rw [events]
    rcases List.mem_append.mp stored with old | new
    · obtain ⟨e, known, ids⟩ := consistent.keys k old
      exact ⟨e, List.mem_append_left _ known, ids⟩
    · refine ⟨eventRow c payload, by simp, ?_⟩
      cases keyed : c.ctx.idempotencyKey with
      | none => simp [keyRow, keyed] at new
      | some key =>
        have own : k = ⟨c.ctx.tenantId, key, c.eventId, c.now⟩ := by
          simpa [keyRow, keyed] using new
        simp [own, eventRow]

private theorem consistent_dispatch {c : Call} {db : Database}
    (effect : Effect c db (dispatch c db))
    (ok : (dispatch c db).2.isOk = true) (consistent : Consistent db) :
    Consistent (dispatch c db).1 := by
  generalize dispatch c db = result at effect ok
  obtain ⟨db', outcome⟩ := result
  cases outcome with
  | error e => cases ok
  | ok outcome =>
    cases outcome with
    | dispatched eventId n =>
      obtain ⟨-, handlerIds, adds, -⟩ := effect
      exact consistent_adds consistent adds
    | noHandlers eventId => exact consistent_adds consistent effect.2
    | duplicate eventId =>
      obtain ⟨rfl, -⟩ := effect
      exact consistent

private theorem consistent_dispatchAll {cs : List Call} {ids : List Uuid} {db : Database}
    (built : ∀ c ∈ cs, ∃ b : OutboxBuilder, b.build = .ok c.outbox) (issued : Issued ids db)
    (fresh : (cs.map Call.eventId).Nodup) (apart : ∀ c ∈ cs, c.eventId ∉ ids)
    (consistent : Consistent db) (ok : (dispatchAll cs db).2.all Except.isOk = true) :
    Consistent (dispatchAll cs db).1 := by
  induction cs generalizing ids db with
  | nil => exact consistent
  | cons c cs ih =>
    rw [List.map_cons, List.nodup_cons] at fresh
    simp only [dispatchAll, List.all_cons, Bool.and_eq_true] at ok
    have unused := issued.unused (apart c List.mem_cons_self)
    have effect := dispatch_effect (built c List.mem_cons_self) unused
    refine ih (fun d mem => built d (List.mem_cons_of_mem c mem)) (issued_dispatch issued c)
      fresh.2 ?_ (consistent_dispatch effect ok.1 consistent) ok.2
    intro d mem used
    rcases List.mem_append.mp used with old | new
    · exact apart d (List.mem_cons_of_mem c mem) old
    · exact fresh.1 (List.mem_singleton.mp new ▸ List.mem_map_of_mem mem)

/-- The database after a history of transactions. -/
def committed (txs : List Transaction) : Database :=
  txs.foldl (fun db tx => tx.execute db) Database.empty

/-- The event ids generated in a history, one per call. -/
def idsOf (txs : List Transaction) : List Uuid :=
  (txs.flatMap Transaction.calls).map Call.eventId

def AllBuilt (txs : List Transaction) : Prop :=
  ∀ tx ∈ txs, ∀ c ∈ tx.calls, ∃ b : OutboxBuilder, b.build = .ok c.outbox

theorem committed_concat (txs : List Transaction) (tx : Transaction) :
    committed (txs ++ [tx]) = tx.execute (committed txs) := by
  simp only [committed, List.foldl_append, List.foldl_cons, List.foldl_nil]

private theorem idsOf_concat (txs : List Transaction) (tx : Transaction) :
    idsOf (txs ++ [tx]) = idsOf txs ++ tx.calls.map Call.eventId := by
  simp [idsOf]

theorem committed_invariant {txs : List Transaction} (built : AllBuilt txs)
    (fresh : (idsOf txs).Nodup) :
    Issued (idsOf txs) (committed txs) ∧ Consistent (committed txs) := by
  induction txs using List.reverseRecOn with
  | nil =>
    refine ⟨⟨?_, ?_⟩, consistent_empty⟩
    · intro e stored
      cases stored
    · intro k stored
      cases stored
  | append_singleton txs tx ih =>
    rw [idsOf_concat] at fresh ⊢
    obtain ⟨earlier, own, apart⟩ := List.nodup_append.mp fresh
    obtain ⟨issued, consistent⟩ := ih
      (fun t mem => built t (List.mem_append_left _ mem)) earlier
    rw [committed_concat]
    simp only [Transaction.execute]
    split
    · next commits =>
      simp only [Bool.and_eq_true] at commits
      refine ⟨issued_dispatchAll issued tx.calls, ?_⟩
      refine consistent_dispatchAll (built tx (by simp)) issued own ?_ consistent commits.1.2
      intro c mem used
      exact apart _ used _ (List.mem_map_of_mem mem) rfl
    · exact ⟨issued.mono (List.subset_append_left _ _), consistent⟩

/-- What holds of a whole history of transactions. -/
structure FansOut (txs : List Transaction) : Prop where
  /-- Every call finds the tables its predecessors left and has its effect on them. -/
  effects : ∀ earlier tx later, txs = earlier ++ tx :: later →
    ∀ before c after, tx.calls = before ++ c :: after →
      Effect c (dispatchAll before (committed earlier)).1
        (dispatch c (dispatchAll before (committed earlier)).1)
  /-- COMMIT never trips over the deferred foreign key. -/
  commits : ∀ earlier tx later, txs = earlier ++ tx :: later →
    (dispatchAll tx.calls (committed earlier)).2.all Except.isOk = true →
      (dispatchAll tx.calls (committed earlier)).1.KeysReferEvents
  /-- The jobs and the deliveries of the committed state are the same envelopes, each once. -/
  paired : (committed txs).handlerDeliveries.rows.map HandlerDelivery.envelope =
    (committed txs).jobs.map Job.envelope
  once : ((committed txs).jobs.map Job.envelope).Nodup
  keys : (committed txs).KeysReferEvents

/-- Transactional fan-out, for every history of transactions with fresh event ids. -/
theorem transactional_fan_out {txs : List Transaction} (built : AllBuilt txs)
    (fresh : (idsOf txs).Nodup) : FansOut txs := by
  have found : ∀ earlier tx later, txs = earlier ++ tx :: later →
      (Issued (idsOf earlier) (committed earlier) ∧ Consistent (committed earlier)) ∧
        (idsOf earlier ++ tx.calls.map Call.eventId).Nodup := by
    rintro earlier tx later rfl
    have split : idsOf (earlier ++ tx :: later) =
        (idsOf earlier ++ tx.calls.map Call.eventId) ++ idsOf later := by
      simp [idsOf]
    rw [split] at fresh
    have own := (List.nodup_append.mp fresh).1
    exact ⟨committed_invariant (fun t mem => built t (List.mem_append_left _ mem))
      (List.nodup_append.mp own).1, own⟩
  obtain ⟨-, consistent⟩ := committed_invariant built fresh
  refine ⟨?_, ?_, consistent.paired, ?_, consistent.keys⟩
  · intro earlier tx later eqn before c after calls
    obtain ⟨⟨issued, -⟩, own⟩ := found earlier tx later eqn
    refine dispatch_effect (built tx (by simp [eqn]) c (by simp [calls])) ?_
    refine (issued_dispatchAll issued before).unused ?_
    rw [calls, List.map_append, List.map_cons, ← List.append_assoc] at own
    intro used
    exact (List.nodup_append.mp own).2.2 _ used _ List.mem_cons_self rfl
  · intro earlier tx later eqn ok
    obtain ⟨⟨issued, before⟩, own⟩ := found earlier tx later eqn
    obtain ⟨-, calls, apart⟩ := List.nodup_append.mp own
    refine (consistent_dispatchAll (built tx (by simp [eqn])) issued calls ?_ before ok).keys
    intro c mem used
    exact apart _ used _ (List.mem_map_of_mem mem) rfl
  · rw [← consistent.paired]
    exact List.pairwise_map.mpr ((committed txs).handlerDeliveries.unique.imp fun apart => apart.2)

def sampleBuilder : OutboxBuilder where
  config := none
  pending := [⟨"order.created", "mailer", ⟨fun _ _ _ => .returned .ok⟩, none, none⟩,
    ⟨"order.created", "ledger", ⟨fun _ _ _ => .returned .ok⟩, none, some 4⟩]
  allowNoHandlers := true

def sampleOutbox : Outbox where
  config := OutboxConfig.default
  registry := (Registry.new.add
    ⟨"order.created", "mailer", ⟨fun _ _ _ => .returned .ok⟩, none, none⟩).add
    ⟨"order.created", "ledger", ⟨fun _ _ _ => .returned .ok⟩, none, some 4⟩
  allowNoHandlers := true

def sampleCall (eventType : String) (key : Option String) (eventId : Uuid) : Call where
  outbox := sampleOutbox
  ctx := ⟨"t1", "orders", key, none⟩
  event := ⟨eventType, none, .ok [123, 125]⟩
  eventId := eventId
  now := 0
  faults := .none

/-- A keyed dispatch commits; its repetition and an unhandled event follow; a last
transaction rolls back. -/
def sampleHistory : List Transaction :=
  [⟨[sampleCall "order.created" (some "order:42") 1#128], true⟩,
   ⟨[sampleCall "order.created" (some "order:42") 2#128, sampleCall "audit" none 3#128], true⟩,
   ⟨[sampleCall "order.created" none 4#128], false⟩]

theorem transactional_fan_out_sample :
    FansOut sampleHistory ∧ (committed sampleHistory).jobs.map Job.envelope =
      [⟨1#128, "mailer"⟩, ⟨1#128, "ledger"⟩] := by
  have built : AllBuilt sampleHistory := by
    intro tx mem c call
    have own : c.outbox = sampleOutbox := by
      simp only [sampleHistory, List.mem_cons, List.not_mem_nil, or_false] at mem
      rcases mem with rfl | rfl | rfl <;> simp at call
      · rw [call]; rfl
      · rcases call with rfl | rfl <;> rfl
      · rw [call]; rfl
    exact ⟨sampleBuilder, by rw [own]; rfl⟩
  exact ⟨transactional_fan_out built (by decide), by decide⟩

end RustEvents.Dispatch.Fanout
