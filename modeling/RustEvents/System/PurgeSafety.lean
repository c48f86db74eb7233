/- module: RustEvents/System/PurgeSafety
   layer: system
   source: src/purge.rs, tests/purge_events_safety.rs
   digest: Whatever happens between a purge's snapshot and its DELETE, no open delivery is removed. -/

import RustEvents.System.Absorbing

set_option autoImplicit false
set_option relaxedAutoImplicit false

namespace RustEvents.System.PurgeSafety

open RustEvents.Foundation.LabelledRuns (Machine)
open RustEvents.Foundation.IndexedTable (Table)
open RustEvents.Model.Schema
open RustEvents.Model.Dispatch
open RustEvents.Model.Runtime
open RustEvents.Model.Purge
open RustEvents.Dispatch.Effects
open RustEvents.Dispatch.Fanout (Issued)
open RustEvents.Worker.Statements
open RustEvents.Worker.Steps
open RustEvents.System.Lifecycle
open RustEvents.System.Absorbing (issued_step)

/-- A step that removes finished work only: an event goes when all its deliveries are
terminal, and a delivery that is queued, running or awaiting its retry stays. -/
structure SparesOpenWork (s : SystemState) (_ : SystemLabel) (t : SystemState) : Prop where
  events : ∀ e ∈ s.db.events.rows, e ∉ t.db.events.rows → active s.db e.id = false
  deliveries : ∀ d ∈ s.db.handlerDeliveries.rows, d.status.isTerminal = false →
    ∃ d' ∈ t.db.handlerDeliveries.rows, d'.id = d.id ∧ d'.envelope = d.envelope

/-- What a purge may delete at any later moment. An id that was handed out is never
given to another row. -/
def Harmless (s : SystemState) : Victims → Prop
  | .terminalDeliveries ids => ∀ id ∈ ids, id < s.db.nextDeliveryId ∧
      ∀ d ∈ s.db.handlerDeliveries.rows, d.id = id → d.status.isTerminal = true
  | .dispatchKeys _ => True
  | .events ids => ∀ eventId ∈ ids, eventId ∈ s.used ∧ active s.db eventId = false

/-- Tables that have lost no event, and whose new deliveries have taken new ids. -/
structure Appends (db db' : Database) : Prop where
  events : ∃ new, db'.events.rows = db.events.rows ++ new
  rows : ∃ new, db'.handlerDeliveries.rows = db.handlerDeliveries.rows ++ new ∧
    ∀ d ∈ new, db.nextDeliveryId ≤ d.id
  next : db.nextDeliveryId ≤ db'.nextDeliveryId

private theorem Appends.refl (db : Database) : Appends db db :=
  ⟨⟨[], by simp⟩, ⟨[], by simp, by simp⟩, Nat.le_refl _⟩

private theorem Appends.trans {db db' db'' : Database} (first : Appends db db')
    (second : Appends db' db'') : Appends db db'' := by
  obtain ⟨⟨es, events⟩, ⟨ds, rows, high⟩, next⟩ := first
  obtain ⟨⟨es', events'⟩, ⟨ds', rows', high'⟩, next'⟩ := second
  refine ⟨⟨es ++ es', by rw [events', events, List.append_assoc]⟩,
    ⟨ds ++ ds', by rw [rows', rows, List.append_assoc], ?_⟩, Nat.le_trans next next'⟩
  intro d mem
  rcases List.mem_append.mp mem with old | new
  · exact high d old
  · exact Nat.le_trans next (high' d new)

private theorem appends_reserves {c : Call} {db db' : Database} (reserves : Reserves c db db') :
    Appends db db' :=
  ⟨⟨[], by rw [reserves.events, List.append_nil]⟩,
    ⟨[], by rw [reserves.deliveries, List.append_nil], by simp⟩, Nat.le_of_eq reserves.nextId.symm⟩

private theorem appends_inserts {c : Call} {payload : Bytes} {handlerIds : List String}
    {db db' : Database} (inserts : Inserts c payload handlerIds db db') : Appends db db' := by
  refine ⟨⟨_, inserts.events⟩, ⟨_, inserts.deliveries, ?_⟩, by rw [inserts.nextId]; exact Nat.le_add_right _ _⟩
  intro d mem
  exact (Database.queuedRows_spec mem).2.2.1

private theorem covers_appends (cs : List Call) : Covers cs Appends where
  refl := .refl
  trans := .trans
  reserves _ _ := appends_reserves
  inserts _ _ := appends_inserts
  pushes db _ := ⟨(Appends.refl db).events, (Appends.refl db).rows, (Appends.refl db).next⟩

theorem appends_execute (tx : Transaction) (db : Database) : Appends db (tx.execute db) :=
  execute_covered (covers_appends tx.calls) db

theorem work_keeps {s t : WorkerState} {a : WorkerLabel} (step : Step s a t) {d : HandlerDelivery}
    (stored : d ∈ s.db.handlerDeliveries.rows) :
    ∃ d' ∈ t.db.handlerDeliveries.rows, d'.id = d.id ∧ d'.envelope = d.envelope := by
  have before : s.db.delivery? d.envelope = some d := delivery?_of_mem stored
  rcases row_cases step d.envelope with same |
    ⟨i, inv, now, reply, r, -, -, -, -, -, found, -, after⟩ |
    ⟨i, inv, now, reply, mark, verdict, r, -, -, -, -, found, -, after⟩
  · exact ⟨d, (delivery?_mem (same.trans before)).1, rfl, rfl⟩
  · cases Option.some.inj (found.symm.trans before)
    exact ⟨_, (delivery?_mem after).1, SetClause.id_apply _ _, SetClause.envelope_apply _ _⟩
  · cases Option.some.inj (found.symm.trans before)
    exact ⟨_, (delivery?_mem after).1, SetClause.id_apply _ _, SetClause.envelope_apply _ _⟩

theorem work_origin {s t : WorkerState} {a : WorkerLabel} (step : Step s a t) {d : HandlerDelivery}
    (stored : d ∈ t.db.handlerDeliveries.rows) :
    ∃ d' ∈ s.db.handlerDeliveries.rows, d'.id = d.id ∧ (d'.status.isTerminal = true → d' = d) := by
  have after : t.db.delivery? d.envelope = some d := delivery?_of_mem stored
  rcases row_cases step d.envelope with same |
    ⟨i, inv, now, reply, r, -, -, -, -, -, found, live, moved⟩ |
    ⟨i, inv, now, reply, mark, verdict, r, -, -, -, -, found, held, moved⟩
  · exact ⟨d, (delivery?_mem (same.symm.trans after)).1, rfl, fun _ => rfl⟩
  · cases Option.some.inj (moved.symm.trans after)
    refine ⟨r, (delivery?_mem found).1, (SetClause.id_apply _ _).symm, ?_⟩
    intro terminal
    rw [live] at terminal
    cases terminal
  · cases Option.some.inj (moved.symm.trans after)
    refine ⟨r, (delivery?_mem found).1, (SetClause.id_apply _ _).symm, ?_⟩
    intro terminal
    rw [(holds_running held).1] at terminal
    cases terminal

theorem delete_subset {victims : Victims} {db : Database} {d : HandlerDelivery}
    (stored : d ∈ (victims.delete db).handlerDeliveries.rows) :
    d ∈ db.handlerDeliveries.rows := by
  cases victims with
  | terminalDeliveries ids => exact (Table.mem_delete.mp stored).1
  | dispatchKeys rows => exact stored
  | events ids => exact (Table.mem_delete.mp stored).1

theorem delete_nextId (victims : Victims) (db : Database) :
    (victims.delete db).nextDeliveryId = db.nextDeliveryId := by
  cases victims <;> rfl

section Stability

variable {s t : SystemState} {victims : Victims}

private theorem harmless_deliveries {ids : List ℕ} (harmless : Harmless s (.terminalDeliveries ids))
    (next : s.db.nextDeliveryId ≤ t.db.nextDeliveryId)
    (origin : ∀ d ∈ t.db.handlerDeliveries.rows, s.db.nextDeliveryId ≤ d.id ∨
      ∃ d' ∈ s.db.handlerDeliveries.rows, d'.id = d.id ∧
        (d'.status.isTerminal = true → d' = d)) : Harmless t (.terminalDeliveries ids) := by
  intro id mem
  obtain ⟨low, terminal⟩ := harmless id mem
  refine ⟨Nat.lt_of_lt_of_le low next, ?_⟩
  rintro d stored rfl
  rcases origin d stored with high | ⟨d', stored', same, kept⟩
  · exact absurd low (Nat.not_lt.mpr high)
  · have closed := terminal d' stored' same
    rw [← kept closed]
    exact closed

private theorem harmless_transact (harmless : Harmless s victims) {tx : Transaction}
    (fresh : ∀ eventId ∈ s.used, eventId ∉ tx.calls.map Call.eventId) :
    Harmless (s.transacted tx) victims := by
  cases victims with
  | dispatchKeys rows => trivial
  | events ids =>
    intro eventId mem
    obtain ⟨used, quiet⟩ := harmless eventId mem
    exact ⟨List.mem_append_left _ used,
      ((grows_execute tx s.db).active_eq (fresh eventId used)).trans quiet⟩
  | terminalDeliveries ids =>
    obtain ⟨-, ⟨new, rows, high⟩, next⟩ := appends_execute tx s.db
    refine harmless_deliveries harmless next ?_
    intro d stored
    change d ∈ (tx.execute s.db).handlerDeliveries.rows at stored
    rw [rows] at stored
    rcases List.mem_append.mp stored with old | young
    · exact .inr ⟨d, old, rfl, fun _ => rfl⟩
    · exact .inl (high d young)

private theorem harmless_work (harmless : Harmless s victims) {a : WorkerLabel} {w : WorkerState}
    (step : Step s.workers a w) : Harmless { s with workers := w } victims := by
  cases victims with
  | dispatchKeys rows => trivial
  | events ids =>
    intro eventId mem
    obtain ⟨used, quiet⟩ := harmless eventId mem
    refine ⟨used, Bool.eq_false_iff.mpr ?_⟩
    intro live
    exact Bool.eq_false_iff.mp quiet (work_active step live)
  | terminalDeliveries ids =>
    refine harmless_deliveries harmless (Nat.le_of_eq (step_frame step).nextDeliveryId.symm) ?_
    intro d stored
    exact .inr (work_origin step stored)

private theorem harmless_delete (harmless : Harmless s victims) (p : ℕ) (call : PurgeCall)
    (gone : Victims) (reply : Reply) : Harmless (s.deleted p call gone reply) victims := by
  have shrinks : ∀ d ∈ (s.deleted p call gone reply).db.handlerDeliveries.rows,
      d ∈ s.db.handlerDeliveries.rows := by
    intro d stored
    change d ∈ (reply.after s.db gone.statement).handlerDeliveries.rows at stored
    rcases after_delete gone s.db reply with same | done
    · exact same ▸ stored
    · rw [done] at stored
      exact delete_subset stored
  have next : (s.deleted p call gone reply).db.nextDeliveryId = s.db.nextDeliveryId := by
    change (reply.after s.db gone.statement).nextDeliveryId = _
    rcases after_delete gone s.db reply with same | done
    · rw [same]
    · rw [done, delete_nextId]
  cases victims with
  | dispatchKeys rows => trivial
  | events ids =>
    intro eventId mem
    obtain ⟨used, quiet⟩ := harmless eventId mem
    refine ⟨used, Bool.eq_false_iff.mpr ?_⟩
    intro live
    obtain ⟨d, stored, facts⟩ := active_iff.mp live
    exact Bool.eq_false_iff.mp quiet (active_iff.mpr ⟨d, shrinks d stored, facts⟩)
  | terminalDeliveries ids =>
    refine harmless_deliveries harmless (Nat.le_of_eq next.symm) ?_
    intro d stored
    exact .inr ⟨d, shrinks d stored, rfl, fun _ => rfl⟩

/-- What is harmless to delete stays harmless, whatever the system does. -/
theorem harmless_step (harmless : Harmless s victims) {a : SystemLabel}
    (taken : system.step s a = some t) : Harmless t victims := by
  cases systemStep_sound taken with
  | transact tx nodup fresh => exact harmless_transact harmless fresh
  | work a w step => exact harmless_work harmless (step_sound step)
  | purge kind cutoff => cases victims <;> exact harmless
  | select p chosen call found kind selected => cases victims <;> exact harmless
  | delete p reply call gone found phase => exact harmless_delete harmless p call gone reply

end Stability

private theorem eligibleDeliveries_mem {cutoff stamp : Timestamp} {db : Database} {id : ℕ}
    (found : (stamp, id) ∈ eligibleDeliveries cutoff db) :
    ∃ d ∈ db.handlerDeliveries.rows, d.id = id ∧ d.status.isTerminal = true := by
  obtain ⟨d, stored, chosen⟩ := List.mem_filterMap.mp found
  split at chosen
  · next terminal =>
    obtain ⟨finishedAt, -, pair⟩ := Option.map_eq_some_iff.mp chosen
    exact ⟨d, stored, congrArg Prod.snd pair, terminal⟩
  · cases chosen

private theorem eligibleEvents_mem {cutoff stamp : Timestamp} {db : Database} {eventId : Uuid}
    (found : (stamp, eventId) ∈ eligibleEvents cutoff db) :
    ∃ e ∈ db.events.rows, e.id = eventId ∧ active db eventId = false := by
  simp only [eligibleEvents, List.mem_map, List.mem_filter, Bool.and_eq_true] at found
  obtain ⟨e, ⟨stored, -, quiet⟩, pair⟩ := found
  cases pair
  exact ⟨e, stored, rfl, by simpa using quiet⟩

private theorem harmless_selected {s : SystemState} {cutoff : Timestamp} {victims : Victims}
    (issued : Issued s.used s.db) (chosen : victims.selected cutoff s.db = true) :
    Harmless s victims := by
  cases victims with
  | dispatchKeys rows => trivial
  | events ids =>
    intro eventId mem
    obtain ⟨stamp, candidate⟩ := isChunk_mem chosen mem
    obtain ⟨e, stored, rfl, quiet⟩ := eligibleEvents_mem candidate
    exact ⟨issued.events e stored, quiet⟩
  | terminalDeliveries ids =>
    intro id mem
    obtain ⟨stamp, candidate⟩ := isChunk_mem chosen mem
    obtain ⟨d, stored, rfl, terminal⟩ := eligibleDeliveries_mem candidate
    refine ⟨s.db.deliveryIds d stored, ?_⟩
    intro d' stored' same
    rw [Table.eq_of_key deliveries_separates_id stored' stored same]
    exact terminal

/-- Every pending DELETE is harmless. -/
structure Guarded (s : SystemState) : Prop where
  issued : Issued s.used s.db
  pending : ∀ call ∈ s.purges, ∀ victims, call.phase = .deleting victims → Harmless s victims

theorem guarded_start : Guarded SystemState.start := by
  refine ⟨?_, ?_⟩
  · constructor <;> intro row stored <;> cases stored
  · intro call mem
    cases mem

theorem guarded_step {s t : SystemState} {a : SystemLabel} (inv : Guarded s)
    (taken : system.step s a = some t) : Guarded t := by
  refine ⟨issued_step inv.issued taken, ?_⟩
  have old : ∀ call ∈ s.purges, ∀ victims, call.phase = .deleting victims → Harmless t victims :=
    fun call mem victims phase => harmless_step (inv.pending call mem victims phase) taken
  cases systemStep_sound taken with
  | transact tx nodup fresh => exact old
  | work a w step => exact old
  | purge kind cutoff =>
    intro call mem victims phase
    rcases List.mem_append.mp mem with before | new
    · exact old call before victims phase
    · cases List.mem_singleton.mp new
      cases phase
  | select p chosen call found kind selected =>
    intro call' mem victims phase
    rcases List.mem_or_eq_of_mem_set mem with before | rfl
    · exact old call' before victims phase
    · cases phase
      exact harmless_step (harmless_selected inv.issued selected) taken
  | delete p reply call gone found phase =>
    intro call' mem victims deleting
    rcases List.mem_or_eq_of_mem_set mem with before | rfl
    · exact old call' before victims deleting
    · exact absurd deleting (afterDelete_idle _ _ _)

theorem delete_spares {s : SystemState} {victims : Victims} (harmless : Harmless s victims) :
    (∀ e ∈ s.db.events.rows, e ∉ (victims.delete s.db).events.rows → active s.db e.id = false) ∧
      ∀ d ∈ s.db.handlerDeliveries.rows, d.status.isTerminal = false →
        d ∈ (victims.delete s.db).handlerDeliveries.rows := by
  cases victims with
  | dispatchKeys rows => exact ⟨fun e stored gone => absurd stored gone, fun d stored _ => stored⟩
  | events ids =>
    constructor
    · intro e stored gone
      by_contra live
      refine gone (Table.mem_delete.mpr ⟨stored, decide_eq_false ?_⟩)
      intro chosen
      exact live (harmless e.id chosen).2
    · intro d stored live
      refine Table.mem_delete.mpr ⟨stored, decide_eq_false ?_⟩
      intro chosen
      have quiet := (harmless d.eventId chosen).2
      rw [active_iff.mpr ⟨d, stored, rfl, live⟩] at quiet
      cases quiet
  | terminalDeliveries ids =>
    refine ⟨fun e stored gone => absurd stored gone, ?_⟩
    intro d stored live
    refine Table.mem_delete.mpr ⟨stored, decide_eq_false ?_⟩
    intro chosen
    have terminal := (harmless d.id chosen).2 d stored rfl
    rw [live] at terminal
    cases terminal

private theorem spares_step {s t : SystemState} {a : SystemLabel} (inv : Guarded s)
    (taken : system.step s a = some t) : SparesOpenWork s a t := by
  cases systemStep_sound taken with
  | transact tx nodup fresh =>
    obtain ⟨⟨es, events⟩, ⟨ds, rows, -⟩, -⟩ := appends_execute tx s.db
    refine ⟨?_, ?_⟩
    · intro e stored gone
      refine absurd ?_ gone
      change e ∈ (tx.execute s.db).events.rows
      rw [events]
      exact List.mem_append_left _ stored
    · intro d stored live
      refine ⟨d, ?_, rfl, rfl⟩
      change d ∈ (tx.execute s.db).handlerDeliveries.rows
      rw [rows]
      exact List.mem_append_left _ stored
  | work a w step =>
    have inner := step_sound step
    refine ⟨?_, fun d stored _ => work_keeps inner stored⟩
    intro e stored gone
    refine absurd ?_ gone
    change e ∈ w.db.events.rows
    rw [(step_frame inner).events]
    exact stored
  | purge kind cutoff =>
    exact ⟨fun e stored gone => absurd stored gone, fun d stored _ => ⟨d, stored, rfl, rfl⟩⟩
  | select p victims call found kind chosen =>
    exact ⟨fun e stored gone => absurd stored gone, fun d stored _ => ⟨d, stored, rfl, rfl⟩⟩
  | delete p reply call victims found phase =>
    have after : (s.deleted p call victims reply).db = reply.after s.db victims.statement := rfl
    rcases after_delete victims s.db reply with same | done
    · rw [same] at after
      exact ⟨fun e stored gone => absurd (after ▸ stored) gone,
        fun d stored _ => ⟨d, after ▸ stored, rfl, rfl⟩⟩
    · rw [done] at after
      obtain ⟨events, deliveries⟩ :=
        delete_spares (inv.pending call (List.mem_of_getElem? found) victims phase)
      refine ⟨?_, ?_⟩
      · rw [after]
        exact events
      · rw [after]
        exact fun d stored live => ⟨d, deliveries d stored live, rfl, rfl⟩

/-- In every run, with any number of purge calls, chunks and cutoffs, no step removes an
event that has open deliveries, and no step removes an open delivery. -/
theorem purge_spares_open_work (as : List SystemLabel) :
    system.Along SparesOpenWork SystemState.start as :=
  Machine.along_of_invariant
    (fun _ _ _ inv taken => ⟨guarded_step inv taken, spares_step inv taken⟩) guarded_start as

end RustEvents.System.PurgeSafety
