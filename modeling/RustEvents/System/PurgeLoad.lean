/- module: RustEvents/System/PurgeLoad
   layer: system
   source: src/purge.rs (the three loops), tests/purge_events_safety.rs
   digest: A purge call beside dispatches, workers and other purges: what it takes, and that it ends. -/

import RustEvents.Foundation.ContestedSweeps
import RustEvents.Purge.Sweeps
import RustEvents.System.Chronicle

set_option autoImplicit false
set_option relaxedAutoImplicit false

namespace RustEvents.System.PurgeLoad

open RustEvents.Foundation.LabelledRuns (Machine)
open RustEvents.Foundation.IndexedTable (Table)
open RustEvents.Foundation.ContestedSweeps
open RustEvents.Model.Text (purgeChunkSize)
open RustEvents.Model.Errors
open RustEvents.Model.Schema
open RustEvents.Model.Dispatch
open RustEvents.Model.Runtime
open RustEvents.Model.Purge
open RustEvents.Dispatch.Effects
open RustEvents.Dispatch.Fanout (Issued sampleCall)
open RustEvents.Purge.Sweeps
open RustEvents.Worker.Statements
open RustEvents.Worker.Steps
open RustEvents.System.Lifecycle
open RustEvents.System.Absorbing (issued_step)
open RustEvents.System.PurgeSafety
open RustEvents.System.Chronicle (delete_events delete_keys)

/-- The rows that a call with this cutoff may ever take; an event waits for its deliveries. -/
def agedCount (cutoff : Timestamp) (db : Database) : PurgeKind → ℕ
  | .terminalDeliveries => db.handlerDeliveries.rows.countP (dueDelivery cutoff)
  | .dispatchKeys => db.dispatchKeys.rows.countP (dueKey cutoff)
  | .events => db.events.rows.countP (·.createdAt < cutoff)

/-- Nothing that was due in `db` is left in `db'`. -/
def Cleared (cutoff : Timestamp) (db db' : Database) : PurgeKind → Prop
  | .terminalDeliveries => ∀ hd ∈ db.handlerDeliveries.rows, dueDelivery cutoff hd = true →
      hd ∉ db'.handlerDeliveries.rows
  | .dispatchKeys => ∀ k ∈ db.dispatchKeys.rows, dueKey cutoff k = true → k ∉ db'.dispatchKeys.rows
  | .events => ∀ e ∈ db.events.rows, dueEvent cutoff db e = true → e ∉ db'.events.rows

/-- No transaction or mark with a `now()` from before the cutoff. -/
def stampedFrom (cutoff : Timestamp) : SystemLabel → Bool
  | .transact tx => tx.calls.all fun c => cutoff ≤ c.now
  | .work (.mark _ now _) => cutoff ≤ now
  | _ => true

/-- A purge of the first kind removes rows that one of the second kind is after. -/
def reaches : PurgeKind → PurgeKind → Bool
  | .events, _ => true
  | taker, kind => taker = kind

/-- The steps of call `p`. -/
def turnOf (p : ℕ) : SystemLabel → Bool
  | .select q _ => q = p
  | .delete q _ => q = p
  | _ => false

/-- A DELETE of another call that may take rows from call `p`. -/
def rival (p : ℕ) (kind : PurgeKind) (s : SystemState) : SystemLabel → Bool
  | .delete q _ => q ≠ p && (s.purges[q]?).any fun call => reaches call.kind kind
  | _ => false

/-- What a call that began in `s` has done once `bs` has happened. -/
structure UnderLoad (kind : PurgeKind) (cutoff : Timestamp) (s : SystemState)
    (bs : List SystemLabel) (t : SystemState) (p : ℕ) (call : PurgeCall) : Prop where
  counted : call.total + agedCount cutoff t.db kind ≤ agedCount cutoff s.db kind
  bounded : bs.countP (turnOf p) ≤ 2 * (agedCount cutoff s.db kind / purgeChunkSize + 1)
  proceeds : (∃ result, call.phase = .returned result) ∨
    ∃ a u, turnOf p a = true ∧ system.step t a = some u
  complete : system.Along (fun u a _ => rival p kind u a = false) s bs →
    ∀ n, call.phase = .returned (.ok n) →
      n + agedCount cutoff t.db kind = agedCount cutoff s.db kind ∧ Cleared cutoff s.db t.db kind

section Entering

/-- What a transaction adds: new ids, and stamps that are not older than the cutoff. -/
structure Enters (ids : List Uuid) (cutoff : Timestamp) (db db' : Database) : Prop where
  events : ∃ new, db'.events.rows = db.events.rows ++ new ∧
    ∀ e ∈ new, e.id ∈ ids ∧ cutoff ≤ e.createdAt
  keys : ∃ new, db'.dispatchKeys.rows = db.dispatchKeys.rows ++ new ∧
    ∀ k ∈ new, k.eventId ∈ ids ∧ cutoff ≤ k.createdAt
  deliveries : ∃ new, db'.handlerDeliveries.rows = db.handlerDeliveries.rows ++ new ∧
    ∀ d ∈ new, db.nextDeliveryId ≤ d.id ∧ d.status = .queued
  next : db.nextDeliveryId ≤ db'.nextDeliveryId

variable {ids : List Uuid} {cutoff : Timestamp} {db db' db'' : Database}

private theorem Enters.refl (ids : List Uuid) (cutoff : Timestamp) (db : Database) :
    Enters ids cutoff db db :=
  ⟨⟨[], by simp, by simp⟩, ⟨[], by simp, by simp⟩, ⟨[], by simp, by simp⟩, Nat.le_refl _⟩

private theorem Enters.trans (first : Enters ids cutoff db db')
    (second : Enters ids cutoff db' db'') : Enters ids cutoff db db'' := by
  obtain ⟨⟨es, events, ownE⟩, ⟨ks, keys, ownK⟩, ⟨ds, rows, high⟩, next⟩ := first
  obtain ⟨⟨es', events', ownE'⟩, ⟨ks', keys', ownK'⟩, ⟨ds', rows', high'⟩, next'⟩ := second
  refine ⟨⟨es ++ es', by rw [events', events, List.append_assoc], ?_⟩,
    ⟨ks ++ ks', by rw [keys', keys, List.append_assoc], ?_⟩,
    ⟨ds ++ ds', by rw [rows', rows, List.append_assoc], ?_⟩, Nat.le_trans next next'⟩
  · intro e mem
    exact (List.mem_append.mp mem).elim (ownE e) (ownE' e)
  · intro k mem
    exact (List.mem_append.mp mem).elim (ownK k) (ownK' k)
  · intro d mem
    rcases List.mem_append.mp mem with old | new
    · exact high d old
    · exact ⟨Nat.le_trans next (high' d new).1, (high' d new).2⟩

private theorem enters_reserves {c : Call} (own : c.eventId ∈ ids) (young : cutoff ≤ c.now)
    (reserves : Reserves c db db') : Enters ids cutoff db db' := by
  refine ⟨⟨[], by rw [reserves.events, List.append_nil], by simp⟩,
    ⟨(keyRow c).toList, reserves.keys, ?_⟩,
    ⟨[], by rw [reserves.deliveries, List.append_nil], by simp⟩, Nat.le_of_eq reserves.nextId.symm⟩
  intro k mem
  obtain ⟨key, -, rfl⟩ := Option.map_eq_some_iff.mp (Option.mem_toList.mp mem)
  exact ⟨own, young⟩

private theorem enters_inserts {c : Call} {payload : Bytes} {handlerIds : List String}
    (own : c.eventId ∈ ids) (young : cutoff ≤ c.now)
    (inserts : Inserts c payload handlerIds db db') : Enters ids cutoff db db' := by
  refine ⟨⟨_, inserts.events, ?_⟩, ⟨[], by rw [inserts.keys, List.append_nil], by simp⟩,
    ⟨_, inserts.deliveries, ?_⟩, ?_⟩
  · intro e mem
    rw [List.mem_singleton.mp mem]
    exact ⟨own, young⟩
  · intro d mem
    obtain ⟨-, -, low, -, shape⟩ := Database.queuedRows_spec mem
    refine ⟨low, ?_⟩
    rw [shape]
    rfl
  · rw [inserts.nextId]
    exact Nat.le_add_right _ _

private theorem covers_enters {cs : List Call} (young : ∀ c ∈ cs, cutoff ≤ c.now) :
    Covers cs (Enters (cs.map Call.eventId) cutoff) where
  refl := .refl _ _
  trans := .trans
  reserves c mem := enters_reserves (List.mem_map_of_mem mem) (young c mem)
  inserts c mem := enters_inserts (List.mem_map_of_mem mem) (young c mem)
  pushes db items := by
    have same := Enters.refl (cs.map Call.eventId) cutoff db
    exact ⟨same.events, same.keys, same.deliveries, same.next⟩

private theorem enters_execute {tx : Transaction} (young : ∀ c ∈ tx.calls, cutoff ≤ c.now)
    (db : Database) : Enters (tx.calls.map Call.eventId) cutoff db (tx.execute db) :=
  execute_covered (covers_enters young) db

end Entering

section Rows

private theorem mark_young {cutoff now : Timestamp} {mark : Mark} {r : HandlerDelivery}
    (young : cutoff ≤ now) : dueDelivery cutoff ((Mark.set now mark).apply r) = false := by
  have late : ¬ now < cutoff := Int.not_lt.mpr young
  cases mark <;>
    simp [dueDelivery, Mark.set, finishSet, awaitSet, DeliveryStatus.isTerminal, late]

private theorem due_terminal {cutoff : Timestamp} {d : HandlerDelivery}
    (due : dueDelivery cutoff d = true) : d.status.isTerminal = true := by
  simp only [dueDelivery, Bool.and_eq_true] at due
  exact due.1

private theorem work_due {cutoff : Timestamp} {s t : WorkerState} {a : WorkerLabel}
    (step : Step s a t) {d : HandlerDelivery} (due : dueDelivery cutoff d = true)
    (stored : d ∈ s.db.handlerDeliveries.rows) : d ∈ t.db.handlerDeliveries.rows := by
  have found : s.db.delivery? d.envelope = some d := delivery?_of_mem stored
  have closed : (s.db.delivery? d.envelope).all (·.status.isTerminal) = true := by
    rw [found]
    exact due_terminal due
  exact (delivery?_mem ((closed_row step closed).trans found)).1

private theorem work_aged {cutoff : Timestamp} {s t : WorkerState} {a : WorkerLabel}
    (step : Step s a t) (stamped : stampedFrom cutoff (.work a) = true) {d : HandlerDelivery}
    (due : dueDelivery cutoff d = true) (stored : d ∈ t.db.handlerDeliveries.rows) :
    d ∈ s.db.handlerDeliveries.rows := by
  have after : t.db.delivery? d.envelope = some d := delivery?_of_mem stored
  rcases row_cases step d.envelope with same |
    ⟨i, inv, now, reply, r, -, -, -, -, -, -, -, moved⟩ |
    ⟨i, inv, now, reply, mark, verdict, r, rfl, -, -, -, -, -, moved⟩
  · exact (delivery?_mem (same.symm.trans after)).1
  · cases Option.some.inj (moved.symm.trans after)
    cases due_terminal due
  · cases Option.some.inj (moved.symm.trans after)
    rw [mark_young (of_decide_eq_true stamped)] at due
    cases due

end Rows

private theorem deleted_rows {s : SystemState} {p : ℕ} {call : PurgeCall} {victims : Victims}
    {reply : Reply} :
    (s.deleted p call victims reply).db = s.db ∨
      (s.deleted p call victims reply).db = victims.delete s.db :=
  after_delete victims s.db reply

/-- A row of the target that was due in a snapshot is not changed any more, only removed. -/
structure Steady {ρ κ : Type} [DecidableEq κ] {apart : ρ → ρ → Prop} {cutoff : Timestamp}
    {kind : PurgeKind} (T : Target ρ κ apart cutoff kind) (old : ρ → Bool)
    (known : SystemState → κ → Prop) (s t : SystemState) : Prop where
  lasting : ∀ k, known s k → known t k
  aging : ∀ r ∈ (T.table t.db).rows, old r = true → r ∈ (T.table s.db).rows
  origin : ∀ r ∈ (T.table t.db).rows, known s (T.key r) →
    ∃ r' ∈ (T.table s.db).rows, T.key r' = T.key r ∧ (old r' = true → r = r')
  due : ∀ r ∈ (T.table t.db).rows, T.due s.db r = true → T.due t.db r = true

/-- A step without a DELETE that reaches the purges of this kind. -/
def Gentle (kind : PurgeKind) (s : SystemState) (a : SystemLabel) : Prop :=
  ∀ q reply, a = .delete q reply → ∀ call victims, s.purges[q]? = some call →
    call.phase = .deleting victims → reaches victims.kind kind = false

/-- How the rows that a purge is after grow old. The names in `known` have been handed out. -/
structure Aging {ρ κ : Type} [DecidableEq κ] {apart : ρ → ρ → Prop} {cutoff : Timestamp}
    {kind : PurgeKind} (T : Target ρ κ apart cutoff kind) where
  old : ρ → Bool
  known : SystemState → κ → Prop
  old_of_due : ∀ {db r}, T.due db r = true → old r = true
  known_row : ∀ {s : SystemState}, Issued s.used s.db → ∀ r ∈ (T.table s.db).rows,
    known s (T.key r)
  steady : ∀ {s t a}, Issued s.used s.db → system.step s a = some t →
    stampedFrom cutoff a = true → Steady T old known s t
  spares : ∀ {s t a}, system.step s a = some t → Gentle kind s a →
    ∀ r ∈ (T.table s.db).rows, old r = true → r ∈ (T.table t.db).rows
  agedCount_eq : ∀ db, agedCount cutoff db kind = (T.table db).rows.countP old
  cleared : ∀ {db db'}, (∀ r ∈ (T.table db).rows, T.due db r = true →
    r ∉ (T.table db').rows) → Cleared cutoff db db' kind

section Steadiness

variable {ρ κ : Type} [DecidableEq κ] {apart : ρ → ρ → Prop} {cutoff : Timestamp}
  {kind : PurgeKind} {T : Target ρ κ apart cutoff kind} {old : ρ → Bool}
  {known : SystemState → κ → Prop} {s t : SystemState}

private theorem steady_append {new : List ρ} (lasting : ∀ k, known s k → known t k)
    (rows : (T.table t.db).rows = (T.table s.db).rows ++ new)
    (young : ∀ r ∈ new, old r = false ∧ ¬ known s (T.key r))
    (due : ∀ r ∈ (T.table t.db).rows, T.due s.db r = true → T.due t.db r = true) :
    Steady T old known s t := by
  have cases : ∀ r ∈ (T.table t.db).rows, r ∈ (T.table s.db).rows ∨ r ∈ new := by
    intro r stored
    rw [rows] at stored
    exact List.mem_append.mp stored
  refine ⟨lasting, ?_, ?_, due⟩
  · intro r stored aged
    rcases cases r stored with before | fresh
    · exact before
    · rw [(young r fresh).1] at aged
      cases aged
  · intro r stored named
    rcases cases r stored with before | fresh
    · exact ⟨r, before, rfl, fun _ => rfl⟩
    · exact absurd named (young r fresh).2

private theorem steady_within (lasting : ∀ k, known s k → known t k)
    (rows : ∀ r ∈ (T.table t.db).rows, r ∈ (T.table s.db).rows)
    (due : ∀ r ∈ (T.table t.db).rows, T.due s.db r = true → T.due t.db r = true) :
    Steady T old known s t :=
  ⟨lasting, fun r stored _ => rows r stored, fun r stored _ => ⟨r, rows r stored, rfl, fun _ => rfl⟩,
    due⟩

end Steadiness

private theorem entering_unused {s : SystemState} {tx : Transaction}
    (fresh : ∀ eventId ∈ s.used, eventId ∉ tx.calls.map Call.eventId) {eventId : Uuid}
    (own : eventId ∈ tx.calls.map Call.eventId) : eventId ∉ s.used :=
  fun used => fresh eventId used own

private theorem stamped_calls {cutoff : Timestamp} {tx : Transaction}
    (stamped : stampedFrom cutoff (.transact tx) = true) : ∀ c ∈ tx.calls, cutoff ≤ c.now := by
  intro c mem
  exact of_decide_eq_true (List.all_eq_true.mp stamped c mem)

private theorem used_step {s t : SystemState} {a : SystemLabel} (taken : system.step s a = some t)
    {eventId : Uuid} (used : eventId ∈ s.used) : eventId ∈ t.used := by
  cases systemStep_sound taken with
  | transact tx nodup fresh => exact List.mem_append_left _ used
  | work a w step => exact used
  | purge kind cutoff => exact used
  | select p victims call found kind chosen => exact used
  | delete p reply call victims found phase => exact used

private theorem nextId_step {s t : SystemState} {a : SystemLabel}
    (taken : system.step s a = some t) : s.db.nextDeliveryId ≤ t.db.nextDeliveryId := by
  cases systemStep_sound taken with
  | transact tx nodup fresh => exact (appends_execute tx s.db).next
  | work a w step => exact Nat.le_of_eq (step_frame (step_sound step)).nextDeliveryId.symm
  | purge kind cutoff => exact Nat.le_refl _
  | select p victims call found kind chosen => exact Nat.le_refl _
  | delete p reply call victims found phase =>
    change s.db.nextDeliveryId ≤ (reply.after s.db victims.statement).nextDeliveryId
    rcases after_delete victims s.db reply with same | gone
    · rw [same]
    · rw [gone, delete_nextId]

private theorem steady_deliveries {cutoff : Timestamp} {s t : SystemState} {a : SystemLabel}
    (taken : system.step s a = some t) (stamped : stampedFrom cutoff a = true) :
    Steady (deliveryTarget cutoff) (dueDelivery cutoff)
      (fun u id => id < u.db.nextDeliveryId) s t := by
  have lasting : ∀ id, id < s.db.nextDeliveryId → id < t.db.nextDeliveryId :=
    fun id low => Nat.lt_of_lt_of_le low (nextId_step taken)
  cases systemStep_sound taken with
  | transact tx nodup fresh =>
    obtain ⟨new, rows, high⟩ := (enters_execute (stamped_calls stamped) s.db).deliveries
    refine steady_append lasting rows ?_ fun _ _ due => due
    intro d mem
    obtain ⟨low, queued⟩ := high d mem
    refine ⟨?_, Nat.not_lt.mpr low⟩
    simp only [dueDelivery, queued, DeliveryStatus.isTerminal, Bool.false_and]
  | work a w step =>
    have inner := step_sound step
    refine ⟨lasting, ?_, ?_, fun _ _ due => due⟩
    · intro d stored due
      exact work_aged inner stamped due stored
    · intro d stored _
      obtain ⟨d', before, same, kept⟩ := work_origin inner stored
      exact ⟨d', before, same, fun due => (kept (due_terminal due)).symm⟩
  | purge kind cutoff' => exact steady_within lasting (fun _ stored => stored) fun _ _ due => due
  | select p victims call found kind chosen =>
    exact steady_within lasting (fun _ stored => stored) fun _ _ due => due
  | delete p reply call victims found phase =>
    refine steady_within lasting ?_ fun _ _ due => due
    intro d stored
    change d ∈ (s.deleted p call victims reply).db.handlerDeliveries.rows at stored
    rcases deleted_rows with same | gone
    · rw [same] at stored
      exact stored
    · rw [gone] at stored
      exact delete_subset stored

private theorem steady_keys {cutoff : Timestamp} {s t : SystemState} {a : SystemLabel}
    (taken : system.step s a = some t) (stamped : stampedFrom cutoff a = true) :
    Steady (keyTarget cutoff) (dueKey cutoff) (fun u k => k.eventId ∈ u.used) s t := by
  have lasting : ∀ k : DispatchKeyRow, k.eventId ∈ s.used → k.eventId ∈ t.used :=
    fun k used => used_step taken used
  cases systemStep_sound taken with
  | transact tx nodup fresh =>
    obtain ⟨new, rows, young⟩ := (enters_execute (stamped_calls stamped) s.db).keys
    refine steady_append lasting rows ?_ fun _ _ due => due
    intro k mem
    obtain ⟨own, late⟩ := young k mem
    exact ⟨decide_eq_false (Int.not_lt.mpr late), entering_unused fresh own⟩
  | work a w step =>
    refine steady_within lasting ?_ fun _ _ due => due
    intro k stored
    change k ∈ w.db.dispatchKeys.rows at stored
    rw [(step_frame (step_sound step)).dispatchKeys] at stored
    exact stored
  | purge kind cutoff' => exact steady_within lasting (fun _ stored => stored) fun _ _ due => due
  | select p victims call found kind chosen =>
    exact steady_within lasting (fun _ stored => stored) fun _ _ due => due
  | delete p reply call victims found phase =>
    refine steady_within lasting ?_ fun _ _ due => due
    intro k stored
    change k ∈ (s.deleted p call victims reply).db.dispatchKeys.rows at stored
    rcases deleted_rows with same | gone
    · rw [same] at stored
      exact stored
    · rw [gone] at stored
      exact delete_keys stored

private theorem dueEvent_step {cutoff : Timestamp} {s t : SystemState} {a : SystemLabel}
    (issued : Issued s.used s.db) (taken : system.step s a = some t) {e : EventRow}
    (stored : e ∈ s.db.events.rows) (due : dueEvent cutoff s.db e = true) :
    dueEvent cutoff t.db e = true := by
  simp only [dueEvent, Bool.and_eq_true, Bool.not_eq_true'] at due ⊢
  have quiet : Harmless s (.events [e.id]) := by
    intro eventId mem
    rw [List.mem_singleton.mp mem]
    exact ⟨issued.events e stored, due.2⟩
  exact ⟨due.1, (harmless_step quiet taken e.id (List.mem_singleton_self e.id)).2⟩

private theorem steady_events {cutoff : Timestamp} {s t : SystemState} {a : SystemLabel}
    (issued : Issued s.used s.db) (taken : system.step s a = some t)
    (stamped : stampedFrom cutoff a = true) :
    Steady (eventTarget cutoff) (fun e => e.createdAt < cutoff)
      (fun u eventId => eventId ∈ u.used) s t := by
  have lasting : ∀ eventId, eventId ∈ s.used → eventId ∈ t.used :=
    fun eventId used => used_step taken used
  have shrunk : (∀ e ∈ t.db.events.rows, e ∈ s.db.events.rows) →
      Steady (eventTarget cutoff) (fun e => e.createdAt < cutoff)
        (fun u eventId => eventId ∈ u.used) s t := by
    intro rows
    refine steady_within lasting rows ?_
    intro e stored due
    exact dueEvent_step issued taken (rows e stored) due
  cases systemStep_sound taken with
  | transact tx nodup fresh =>
    obtain ⟨new, rows, young⟩ := (enters_execute (stamped_calls stamped) s.db).events
    refine steady_append lasting rows ?_ ?_
    · intro e mem
      obtain ⟨own, late⟩ := young e mem
      exact ⟨decide_eq_false (Int.not_lt.mpr late), entering_unused fresh own⟩
    · intro e stored due
      change e ∈ (tx.execute s.db).events.rows at stored
      rw [rows] at stored
      rcases List.mem_append.mp stored with before | entered
      · exact dueEvent_step issued taken before due
      · have aged : e.createdAt < cutoff := by
          have parts : dueEvent cutoff s.db e = true := due
          simp only [dueEvent, Bool.and_eq_true] at parts
          exact of_decide_eq_true parts.1
        exact absurd aged (Int.not_lt.mpr (young e entered).2)
  | work a w step =>
    refine shrunk ?_
    intro e stored
    change e ∈ w.db.events.rows at stored
    rw [(step_frame (step_sound step)).events] at stored
    exact stored
  | purge kind cutoff' => exact shrunk fun _ stored => stored
  | select p victims call found kind chosen => exact shrunk fun _ stored => stored
  | delete p reply call victims found phase =>
    refine shrunk ?_
    intro e stored
    change e ∈ (s.deleted p call victims reply).db.events.rows at stored
    rcases deleted_rows with same | gone
    · rw [same] at stored
      exact stored
    · rw [gone] at stored
      exact delete_events stored

private theorem gentle_deliveries {cutoff : Timestamp} {s t : SystemState} {a : SystemLabel}
    (taken : system.step s a = some t) (gentle : Gentle .terminalDeliveries s a)
    {d : HandlerDelivery} (stored : d ∈ s.db.handlerDeliveries.rows)
    (due : dueDelivery cutoff d = true) : d ∈ t.db.handlerDeliveries.rows := by
  cases systemStep_sound taken with
  | transact tx nodup fresh =>
    obtain ⟨new, rows, -⟩ := (appends_execute tx s.db).rows
    change d ∈ (tx.execute s.db).handlerDeliveries.rows
    rw [rows]
    exact List.mem_append_left _ stored
  | work a w step => exact work_due (step_sound step) due stored
  | purge kind cutoff' => exact stored
  | select p victims call found kind chosen => exact stored
  | delete p reply call victims found phase =>
    have other := gentle p reply rfl call victims found phase
    rcases deleted_rows with same | gone
    · rw [same]
      exact stored
    · rw [gone]
      cases victims with
      | terminalDeliveries ids => cases other
      | dispatchKeys rows => exact stored
      | events ids => cases other

private theorem gentle_keys {s t : SystemState} {a : SystemLabel}
    (taken : system.step s a = some t) (gentle : Gentle .dispatchKeys s a)
    {k : DispatchKeyRow} (stored : k ∈ s.db.dispatchKeys.rows) : k ∈ t.db.dispatchKeys.rows := by
  cases systemStep_sound taken with
  | transact tx nodup fresh =>
    exact (grows_execute tx s.db).key_stored stored
  | work a w step =>
    change k ∈ w.db.dispatchKeys.rows
    rw [(step_frame (step_sound step)).dispatchKeys]
    exact stored
  | purge kind cutoff' => exact stored
  | select p victims call found kind chosen => exact stored
  | delete p reply call victims found phase =>
    have other := gentle p reply rfl call victims found phase
    rcases deleted_rows with same | gone
    · rw [same]
      exact stored
    · rw [gone]
      cases victims with
      | terminalDeliveries ids => exact stored
      | dispatchKeys rows => cases other
      | events ids => cases other

private theorem gentle_events {s t : SystemState} {a : SystemLabel}
    (taken : system.step s a = some t) (gentle : Gentle .events s a)
    {e : EventRow} (stored : e ∈ s.db.events.rows) : e ∈ t.db.events.rows := by
  cases systemStep_sound taken with
  | transact tx nodup fresh =>
    obtain ⟨new, rows⟩ := (appends_execute tx s.db).events
    change e ∈ (tx.execute s.db).events.rows
    rw [rows]
    exact List.mem_append_left _ stored
  | work a w step =>
    change e ∈ w.db.events.rows
    rw [(step_frame (step_sound step)).events]
    exact stored
  | purge kind cutoff' => exact stored
  | select p victims call found kind chosen => exact stored
  | delete p reply call victims found phase =>
    have other := gentle p reply rfl call victims found phase
    rcases deleted_rows with same | gone
    · rw [same]
      exact stored
    · rw [gone]
      cases victims with
      | terminalDeliveries ids => exact stored
      | dispatchKeys rows => exact stored
      | events ids => cases other

def agingDeliveries (cutoff : Timestamp) : Aging (deliveryTarget cutoff) where
  old := dueDelivery cutoff
  known s id := id < s.db.nextDeliveryId
  old_of_due due := due
  known_row {s} _ d stored := s.db.deliveryIds d stored
  steady _ taken stamped := steady_deliveries taken stamped
  spares taken gentle _ stored due := gentle_deliveries taken gentle stored due
  agedCount_eq _ := rfl
  cleared gone := gone

def agingKeys (cutoff : Timestamp) : Aging (keyTarget cutoff) where
  old := dueKey cutoff
  known s k := k.eventId ∈ s.used
  old_of_due due := due
  known_row issued k stored := issued.keys k stored
  steady _ taken stamped := steady_keys taken stamped
  spares taken gentle _ stored _ := gentle_keys taken gentle stored
  agedCount_eq _ := rfl
  cleared gone := gone

def agingEvents (cutoff : Timestamp) : Aging (eventTarget cutoff) where
  old e := e.createdAt < cutoff
  known s eventId := eventId ∈ s.used
  old_of_due {db e} due := by
    have parts : dueEvent cutoff db e = true := due
    simp only [dueEvent, Bool.and_eq_true] at parts
    exact parts.1
  known_row issued e stored := issued.events e stored
  steady := steady_events
  spares taken gentle _ stored _ := gentle_events taken gentle stored
  agedCount_eq _ := rfl
  cleared gone := gone

namespace Aging

variable {ρ κ : Type} [DecidableEq κ] {apart : ρ → ρ → Prop} {cutoff : Timestamp}
  {kind : PurgeKind} {T : Target ρ κ apart cutoff kind} (A : Aging T)

/-- The names of the rows that the purge is after, as the items of a contested removal. -/
def pool (db : Database) : Pool κ where
  aged := (((T.table db).rows.filter A.old).map T.key).toFinset
  due := (T.victims db).toFinset
  within := by
    intro k mem
    obtain ⟨r, stored, due, same⟩ := T.mem_victims.mp (List.mem_toFinset.mp mem)
    exact List.mem_toFinset.mpr
      (List.mem_map.mpr ⟨r, List.mem_filter.mpr ⟨stored, A.old_of_due due⟩, same⟩)

variable {A}

private theorem mem_aged {db : Database} {k : κ} :
    k ∈ (A.pool db).aged ↔ ∃ r ∈ (T.table db).rows, A.old r = true ∧ T.key r = k := by
  simp only [pool, List.mem_toFinset, List.mem_map, List.mem_filter, and_assoc]

private theorem mem_due {db : Database} {k : κ} :
    k ∈ (A.pool db).due ↔ ∃ r ∈ (T.table db).rows, T.due db r = true ∧ T.key r = k := by
  simp only [pool, List.mem_toFinset, T.mem_victims]

private theorem card_aged (db : Database) : (A.pool db).aged.card = agedCount cutoff db kind := by
  have nodup : (((T.table db).rows.filter A.old).map T.key).Nodup :=
    (Table.keys_nodup T.separates (T.table db)).sublist (List.filter_sublist.map T.key)
  rw [A.agedCount_eq, List.countP_eq_length_filter]
  exact (List.toFinset_card_of_nodup nodup).trans (List.length_map _)

private theorem card_due (db : Database) : (A.pool db).due.card = (T.victims db).length :=
  List.toFinset_card_of_nodup (T.victims_nodup db)

private theorem drifts {s t : SystemState} (steady : Steady T A.old A.known s t) :
    Drifts (A.pool s.db) (A.pool t.db) := by
  refine ⟨?_, ?_⟩
  · intro k mem
    obtain ⟨r, stored, aged, same⟩ := mem_aged.mp mem
    exact mem_aged.mpr ⟨r, steady.aging r stored aged, aged, same⟩
  · intro k mem
    obtain ⟨due, aged⟩ := Finset.mem_inter.mp mem
    obtain ⟨r, before, isDue, same⟩ := mem_due.mp due
    obtain ⟨r', stored, old, same'⟩ := mem_aged.mp aged
    have equal : r = r' := Table.eq_of_key T.separates before (steady.aging r' stored old)
      (same.trans same'.symm)
    subst equal
    exact mem_due.mpr ⟨r, stored, steady.due r stored isDue, same⟩

private theorem spared {s t : SystemState} {a : SystemLabel} (taken : system.step s a = some t)
    (gentle : Gentle kind s a) : (A.pool s.db).aged ⊆ (A.pool t.db).aged := by
  intro k mem
  obtain ⟨r, stored, aged, same⟩ := mem_aged.mp mem
  exact mem_aged.mpr ⟨r, A.spares taken gentle r stored aged, aged, same⟩

/-- A pending DELETE hits only rows that the call is after. -/
def Aimed (A : Aging T) (s : SystemState) (ks : List κ) : Prop :=
  ∀ k ∈ ks, A.known s k ∧ ∀ r ∈ (T.table s.db).rows, T.key r = k → A.old r = true

private theorem aimed_step {s t : SystemState} {ks : List κ} (aimed : A.Aimed s ks)
    (steady : Steady T A.old A.known s t) : A.Aimed t ks := by
  intro k mem
  obtain ⟨named, rows⟩ := aimed k mem
  refine ⟨steady.lasting k named, ?_⟩
  rintro r stored rfl
  obtain ⟨r', before, same, kept⟩ := steady.origin r stored named
  have aged := rows r' before same
  rw [kept aged]
  exact aged

private theorem aimed_chosen {s : SystemState} {ks : List κ} (issued : Issued s.used s.db)
    (chosen : ∀ k ∈ ks, k ∈ T.victims s.db) : A.Aimed s ks := by
  intro k mem
  obtain ⟨r, stored, due, rfl⟩ := T.mem_victims.mp (chosen k mem)
  refine ⟨A.known_row issued r stored, ?_⟩
  intro r' stored' same
  rw [Table.eq_of_key T.separates stored' stored same]
  exact A.old_of_due due

private theorem pool_delete {s : SystemState} {ks : List κ} (aimed : A.Aimed s ks) :
    (A.pool ((T.wrap ks).delete s.db)).aged = (A.pool s.db).aged \ ks.toFinset ∧
      (T.wrap ks).rowsAffected s.db = ((A.pool s.db).aged ∩ ks.toFinset).card := by
  -- The DELETE takes its victims out of the pool, those that are still there.
  constructor
  · ext k
    rw [Finset.mem_sdiff, mem_aged, mem_aged, List.mem_toFinset, T.delete, T.table_remove]
    simp only [Table.mem_delete, decide_eq_false_iff_not]
    constructor
    · rintro ⟨r, ⟨stored, kept⟩, aged, rfl⟩
      exact ⟨⟨r, stored, aged, rfl⟩, kept⟩
    · rintro ⟨⟨r, stored, aged, rfl⟩, kept⟩
      exact ⟨r, ⟨stored, kept⟩, aged, rfl⟩
  · have hits : (A.pool s.db).aged ∩ ks.toFinset =
        (((T.table s.db).rows.filter fun r => T.key r ∈ ks).map T.key).toFinset := by
      ext k
      rw [Finset.mem_inter, mem_aged, List.mem_toFinset, List.mem_toFinset, List.mem_map]
      simp only [List.mem_filter, decide_eq_true_eq]
      constructor
      · rintro ⟨⟨r, stored, aged, rfl⟩, mem⟩
        exact ⟨r, ⟨stored, mem⟩, rfl⟩
      · rintro ⟨r, ⟨stored, mem⟩, rfl⟩
        exact ⟨⟨r, stored, (aimed (T.key r) mem).2 r stored rfl, rfl⟩, mem⟩
    have nodup : (((T.table s.db).rows.filter fun r => T.key r ∈ ks).map T.key).Nodup :=
      (Table.keys_nodup T.separates (T.table s.db)).sublist (List.filter_sublist.map T.key)
    rw [T.affected, hits, List.toFinset_card_of_nodup nodup, List.length_map,
      List.countP_eq_length_filter]

end Aging

/-- The victims that wait for their DELETE are of the kind of their call. -/
def KindsAgree (s : SystemState) : Prop :=
  ∀ (q : ℕ) (call : PurgeCall) (victims : Victims), s.purges[q]? = some call →
    call.phase = .deleting victims → victims.kind = call.kind

private theorem kindsAgree_start : KindsAgree SystemState.start := by
  intro q call victims found
  cases found

private theorem kindsAgree_step {s t : SystemState} {a : SystemLabel} (agree : KindsAgree s)
    (taken : system.step s a = some t) : KindsAgree t := by
  intro q call' victims' found' phase'
  have old : s.purges[q]? = some call' → victims'.kind = call'.kind :=
    fun before => agree q call' victims' before phase'
  cases systemStep_sound taken with
  | transact tx nodup fresh => exact old found'
  | work a w step => exact old found'
  | purge kind cutoff =>
    rcases List.mem_append.mp (List.mem_of_getElem? found') with before | new
    · obtain ⟨i, low, same⟩ := List.getElem_of_mem before
      exact agree i call' victims' (List.getElem?_eq_some_iff.mpr ⟨low, same⟩) phase'
    · cases List.mem_singleton.mp new
      cases phase'
  | select p victims call found kind chosen =>
    simp only [List.getElem?_set] at found'
    split at found'
    · split at found'
      · cases found'
        cases phase'
        exact kind
      · cases found'
    · exact old found'
  | delete p reply call victims found phase =>
    simp only [SystemState.deleted, List.getElem?_set] at found'
    split at found'
    · split at found'
      · cases found'
        exact absurd phase' (afterDelete_idle _ _ _)
      · cases found'
    · exact old found'

private theorem other_turn {s t : SystemState} {a : SystemLabel} {p : ℕ} {call : PurgeCall}
    (taken : system.step s a = some t) (other : turnOf p a = false)
    (found : s.purges[p]? = some call) : t.purges[p]? = some call := by
  cases systemStep_sound taken with
  | transact tx nodup fresh => exact found
  | work a w step => exact found
  | purge kind cutoff =>
    have low := (List.getElem?_eq_some_iff.mp found).1
    exact (List.getElem?_append_left low).trans found
  | select q victims call' found' kind chosen =>
    have apart : q ≠ p := of_decide_eq_false other
    exact (List.getElem?_set_ne apart).trans found
  | delete q reply call' victims found' phase =>
    have apart : q ≠ p := of_decide_eq_false other
    exact (List.getElem?_set_ne apart).trans found

private theorem gentle_of_lone {s : SystemState} {a : SystemLabel} {p : ℕ} {kind : PurgeKind}
    (agree : KindsAgree s) (other : turnOf p a = false) (lone : rival p kind s a = false) :
    Gentle kind s a := by
  rintro q reply rfl call victims found phase
  have apart : q ≠ p := of_decide_eq_false other
  have spared : reaches call.kind kind = false := by
    simpa [rival, apart, found] using lone
  rw [agree q call victims found phase]
  exact spared

section Engagement

variable {ρ κ : Type} [DecidableEq κ] {apart : ρ → ρ → Prop} {cutoff : Timestamp}
  {kind : PurgeKind} {T : Target ρ κ apart cutoff kind} {A : Aging T} {alone : Prop}
  {begun : Pool κ} {p n : ℕ} {s t : SystemState} {a : SystemLabel} {call : PurgeCall}
  {turn : Turn κ}

/-- Where the loop of a call stands, as the contested removal sees it. -/
inductive Faces (A : Aging T) (s : SystemState) (call : PurgeCall) : Turn κ → Prop
  | selecting (phase : call.phase = .selecting) : Faces A s call .selecting
  | removing (ks : List κ) (phase : call.phase = .deleting (T.wrap ks)) (aimed : A.Aimed s ks) :
      Faces A s call (.removing ks.toFinset)
  | complete (phase : call.phase = .returned (.ok call.total)) : Faces A s call (.ended true)
  | failed (e : SqlxError) (phase : call.phase = .returned (.error e)) :
      Faces A s call (.ended false)

private theorem faces_step (faces : Faces A s call turn) (steady : Steady T A.old A.known s t) :
    Faces A t call turn := by
  cases faces with
  | selecting phase => exact .selecting phase
  | removing ks phase aimed => exact .removing ks phase (Aging.aimed_step aimed steady)
  | complete phase => exact .complete phase
  | failed e phase => exact .failed e phase

/-- Call `p` in a state of the system. -/
structure Facing (A : Aging T) (p : ℕ) (s : SystemState) (call : PurgeCall) (turn : Turn κ) :
    Prop where
  issued : Issued s.used s.db
  agree : KindsAgree s
  found : s.purges[p]? = some call
  kind : call.kind = kind
  cutoff : call.cutoff = cutoff
  faces : Faces A s call turn

/-- Call `p` in a state, as a stage of the contested removal. -/
def standing (A : Aging T) (s : SystemState) (call : PurgeCall) (n : ℕ) (turn : Turn κ) :
    Removal κ := ⟨A.pool s.db, call.total, n, turn⟩

private theorem facing_other (facing : Facing A p s call turn) (taken : system.step s a = some t)
    (stamped : stampedFrom cutoff a = true) (other : turnOf p a = false)
    (lone : alone → rival p kind s a = false) :
    Facing A p t call turn ∧
      Moves purgeChunkSize alone (standing A s call n turn) (standing A t call n turn) := by
  have steady := A.steady facing.issued taken stamped
  constructor
  · exact ⟨issued_step facing.issued taken, kindsAgree_step facing.agree taken,
      other_turn taken other facing.found, facing.kind, facing.cutoff,
      faces_step facing.faces steady⟩
  · refine .drift (A.pool t.db) (Aging.drifts steady) ?_
    intro one
    exact Aging.spared taken (gentle_of_lone facing.agree other (lone one))

private theorem select_step {victims : Victims} (found : s.purges[p]? = some call)
    (taken : system.step s (.select p victims) = some t) :
    call.phase = .selecting ∧ victims.kind = call.kind ∧
      victims.selected call.cutoff s.db = true ∧
      t = { s with purges := s.purges.set p { call with phase := .deleting victims } } := by
  have step := (Machine.restrict_step.mp taken).2
  change s.step (.select p victims) = some t at step
  simp only [SystemState.step, found] at step
  split at step
  · next idle =>
    split at step
    · next may =>
      simp only [Bool.and_eq_true, decide_eq_true_eq] at may
      exact ⟨idle, may.1, may.2, (Option.some.inj step).symm⟩
    · cases step
  · cases step

private theorem facing_select {victims : Victims} (facing : Facing A p s call turn)
    (taken : system.step s (.select p victims) = some t) :
    ∃ call' turn', Facing A p t call' turn' ∧
      Moves purgeChunkSize alone (standing A s call n turn) (standing A t call' (n + 1) turn') := by
  have issued := issued_step facing.issued taken
  have agree := kindsAgree_step facing.agree taken
  obtain ⟨idle, kinds, chosen, rfl⟩ := select_step facing.found taken
  have begins : turn = .selecting := by
    cases facing.faces with
    | selecting phase => rfl
    | removing ks phase aimed => cases idle.symm.trans phase
    | complete phase => cases idle.symm.trans phase
    | failed e phase => cases idle.symm.trans phase
  obtain ⟨ks, rfl⟩ := (T.kind_iff victims).mp (kinds.trans facing.kind)
  rw [facing.cutoff, T.selected] at chosen
  obtain ⟨distinct, size, members⟩ := chunk_facts chosen
  simp only [List.map_map, Function.comp_def, List.length_map] at size members
  have low := (List.getElem?_eq_some_iff.mp facing.found).1
  have steady := A.steady facing.issued taken rfl
  have aimed := Aging.aimed_step (Aging.aimed_chosen facing.issued members) steady
  refine ⟨{ call with phase := .deleting (T.wrap ks) }, .removing ks.toFinset,
    ⟨issued, agree, List.getElem?_set_self low, facing.kind, facing.cutoff,
      .removing ks rfl aimed⟩, ?_⟩
  refine .choose ks.toFinset begins ?_ ?_
  · intro k mem
    exact List.mem_toFinset.mpr (members k (List.mem_toFinset.mp mem))
  · rw [List.toFinset_card_of_nodup distinct, size]
    change _ = min purgeChunkSize (A.pool s.db).due.card
    rw [Aging.card_due, Target.victims, List.length_map]

private theorem delete_step {reply : Reply} (found : s.purges[p]? = some call)
    (taken : system.step s (.delete p reply) = some t) :
    ∃ victims, call.phase = .deleting victims ∧ t = s.deleted p call victims reply := by
  have step := (Machine.restrict_step.mp taken).2
  change s.step (.delete p reply) = some t at step
  simp only [SystemState.step, found] at step
  split at step
  · next victims pending => exact ⟨victims, pending, (Option.some.inj step).symm⟩
  · cases step

private theorem facing_delete {reply : Reply} (facing : Facing A p s call turn)
    (taken : system.step s (.delete p reply) = some t) :
    ∃ call' turn', Facing A p t call' turn' ∧
      Moves purgeChunkSize alone (standing A s call n turn) (standing A t call' (n + 1) turn') := by
  have issued := issued_step facing.issued taken
  have agree := kindsAgree_step facing.agree taken
  have drifts : Drifts (A.pool s.db) (A.pool t.db) :=
    Aging.drifts (A.steady facing.issued taken rfl)
  obtain ⟨victims, pending, rfl⟩ := delete_step facing.found taken
  have low := (List.getElem?_eq_some_iff.mp facing.found).1
  have found (call' : PurgeCall) : (s.purges.set p call')[p]? = some call' :=
    List.getElem?_set_self low
  cases facing.faces with
  | selecting phase => cases pending.symm.trans phase
  | complete phase => cases pending.symm.trans phase
  | failed e phase => cases pending.symm.trans phase
  | removing ks phase aimed =>
    cases pending.symm.trans phase
    obtain ⟨gone, count⟩ := Aging.pool_delete aimed
    cases reply with
    | failed e =>
      exact ⟨call.afterDelete (.error e), .ended false,
        ⟨issued, agree, found _, facing.kind, facing.cutoff, .failed e rfl⟩,
        .lose ks.toFinset _ rfl drifts⟩
    | lost e =>
      exact ⟨call.afterDelete (.error e), .ended false,
        ⟨issued, agree, found _, facing.kind, facing.cutoff, .failed e rfl⟩,
        .lose ks.toFinset _ rfl drifts⟩
    | answered =>
      have moves : Moves purgeChunkSize alone (standing A s call n (.removing ks.toFinset))
          ⟨A.pool ((T.wrap ks).delete s.db), call.total + (T.wrap ks).rowsAffected s.db, n + 1,
            if (T.wrap ks).rowsAffected s.db < purgeChunkSize then .ended true
            else .selecting⟩ := by
        rw [count]
        exact .take ks.toFinset _ rfl drifts gone
      by_cases short : (T.wrap ks).rowsAffected s.db < purgeChunkSize
      · rw [if_pos short] at moves
        refine ⟨call.afterDelete (.ok ((T.wrap ks).rowsAffected s.db)), .ended true,
          ⟨issued, agree, found _, facing.kind, facing.cutoff, .complete ?_⟩, moves⟩
        simp only [PurgeCall.afterDelete, if_pos short]
      · rw [if_neg short] at moves
        refine ⟨call.afterDelete (.ok ((T.wrap ks).rowsAffected s.db)), .selecting,
          ⟨issued, agree, found _, facing.kind, facing.cutoff, .selecting ?_⟩, moves⟩
        simp only [PurgeCall.afterDelete, if_neg short]

/-- One step of the system, whoever takes it, is one move of the contested removal. -/
private theorem facing_step (facing : Facing A p s call turn) (taken : system.step s a = some t)
    (stamped : stampedFrom cutoff a = true) (lone : alone → rival p kind s a = false) :
    ∃ call' turn', Facing A p t call' turn' ∧
      Moves purgeChunkSize alone (standing A s call n turn)
        (standing A t call' (n + if turnOf p a then 1 else 0) turn') := by
  cases own : turnOf p a with
  | false =>
    obtain ⟨next, moves⟩ := facing_other facing taken stamped own lone
    exact ⟨call, turn, next, moves⟩
  | true =>
    cases a with
    | transact tx => cases own
    | work a => cases own
    | purge kind cutoff => cases own
    | select q victims =>
      cases of_decide_eq_true own
      exact facing_select facing taken
    | delete q reply =>
      cases of_decide_eq_true own
      exact facing_delete facing taken

private theorem facing_run {bs : List SystemLabel} (facing : Facing A p s call turn)
    (ran : (system.restrict fun _ a => stampedFrom cutoff a).run s bs = some t)
    (lone : alone → system.Along (fun u a _ => rival p kind u a = false) s bs) :
    ∃ call' turn', Facing A p t call' turn' ∧
      Relation.ReflTransGen (Moves purgeChunkSize alone) (standing A s call n turn)
        (standing A t call' (n + bs.countP (turnOf p)) turn') := by
  induction bs generalizing s call turn n with
  | nil =>
    cases Option.some.inj ran
    exact ⟨call, turn, facing, .refl⟩
  | cons a bs ih =>
    obtain ⟨u, step, rest⟩ := Machine.run_cons.mp ran
    obtain ⟨stamped, taken⟩ := Machine.restrict_step.mp step
    obtain ⟨call', turn', next, move⟩ :=
      facing_step (n := n) facing taken stamped fun one => (lone one u taken).1
    obtain ⟨last, turn'', final, moves⟩ := ih next rest fun one => (lone one u taken).2
    refine ⟨last, turn'', final, ?_⟩
    have count : n + (a :: bs).countP (turnOf p) =
        (n + if turnOf p a then 1 else 0) + bs.countP (turnOf p) := by
      rw [List.countP_cons]
      omega
    rw [count]
    exact .head move moves

private theorem facing_proceeds (facing : Facing A p s call turn) :
    (∃ result, call.phase = .returned result) ∨
      ∃ a u, turnOf p a = true ∧ system.step s a = some u := by
  cases facing.faces with
  | complete phase => exact .inl ⟨_, phase⟩
  | failed e phase => exact .inl ⟨_, phase⟩
  | removing ks phase aimed =>
    refine .inr ⟨.delete p .answered, s.deleted p call (T.wrap ks) .answered,
      decide_eq_true rfl, Machine.restrict_step.mpr ⟨rfl, ?_⟩⟩
    change s.step (.delete p .answered) = _
    simp only [SystemState.step, facing.found, phase]
  | selecting phase =>
    have distinct : (((T.table s.db).rows.filter (T.due s.db)).map
        fun r => (T.stamp r, T.key r)).map Prod.snd |>.Nodup := by
      rw [List.map_map]
      exact T.victims_nodup s.db
    obtain ⟨ks, chunk⟩ := exists_chunk purgeChunkSize distinct
    have guard : ((T.wrap ks).kind = call.kind && (T.wrap ks).selected call.cutoff s.db) = true := by
      rw [Bool.and_eq_true, decide_eq_true_eq]
      refine ⟨((T.kind_iff _).mpr ⟨ks, rfl⟩).trans facing.kind.symm, ?_⟩
      rw [facing.cutoff, T.selected]
      exact chunk
    refine .inr ⟨.select p (T.wrap ks),
      { s with purges := s.purges.set p { call with phase := .deleting (T.wrap ks) } },
      decide_eq_true rfl, Machine.restrict_step.mpr ⟨rfl, ?_⟩⟩
    change s.step (.select p (T.wrap ks)) = _
    simp only [SystemState.step, facing.found, phase]
    exact if_pos guard

end Engagement

private theorem cases_aging (cutoff : Timestamp) (kind : PurgeKind) {P : Prop}
    (use : ∀ (ρ κ : Type) (_ : DecidableEq κ) (apart : ρ → ρ → Prop)
      (T : Target ρ κ apart cutoff kind), Aging T → P) : P := by
  cases kind with
  | terminalDeliveries => exact use _ _ _ _ _ (agingDeliveries cutoff)
  | dispatchKeys => exact use _ _ _ _ _ (agingKeys cutoff)
  | events => exact use _ _ _ _ _ (agingEvents cutoff)

private theorem kindsAgree_run {as : List SystemLabel} {s : SystemState}
    (reached : system.run SystemState.start as = some s) : KindsAgree s :=
  Machine.run_invariant (fun _ _ _ => kindsAgree_step) kindsAgree_start reached

private theorem issued_run {as : List SystemLabel} {s : SystemState}
    (reached : system.run SystemState.start as = some s) : Issued s.used s.db :=
  (Machine.run_invariant (fun _ _ _ => guarded_step) guarded_start reached).issued

/-- A purge call under any load: however dispatches, workers and other purges interleave with
its chunks, it takes no more rows than were old enough when it began and comes to its end;
unless another purge took rows from it, it leaves nothing of what was due. -/
theorem purge_under_load {as bs : List SystemLabel} {s u t : SystemState} {kind : PurgeKind}
    {cutoff : Timestamp} (reached : system.run SystemState.start as = some s)
    (opened : system.step s (.purge kind cutoff) = some u)
    (ran : (system.restrict fun _ a => stampedFrom cutoff a).run u bs = some t) :
    ∃ call, t.purges[s.purges.length]? = some call ∧
      UnderLoad kind cutoff u bs t s.purges.length call := by
  refine cases_aging cutoff kind fun ρ κ _ apart T A => ?_
  have agree := kindsAgree_step (kindsAgree_run reached) opened
  have issued := issued_step (issued_run reached) opened
  cases systemStep_sound opened
  set u : SystemState := { s with purges := s.purges ++ [PurgeCall.begin kind cutoff] } with begun
  have found : u.purges[s.purges.length]? = some (PurgeCall.begin kind cutoff) := by
    simp [begun]
  have facing : Facing A s.purges.length u (PurgeCall.begin kind cutoff) .selecting :=
    ⟨issued, agree, found, rfl, rfl, .selecting rfl⟩
  have simulated : ∃ call turn, Facing A s.purges.length t call turn ∧
      Relation.ReflTransGen (Moves purgeChunkSize
          (system.Along (fun v a _ => rival s.purges.length kind v a = false) u bs))
        (.start (A.pool u.db))
        (standing A t call (0 + bs.countP (turnOf s.purges.length)) turn) :=
    facing_run facing ran id
  obtain ⟨call, turn, final, moves⟩ := simulated
  have advanced := advanced_run moves
  have bounded := advanced.bounded (by decide)
  have counted := advanced.counted
  rw [Aging.card_aged] at bounded counted
  change call.total + (A.pool t.db).aged.card ≤ _ at counted
  rw [Aging.card_aged] at counted
  change 0 + bs.countP _ ≤ _ at bounded
  rw [Nat.zero_add] at bounded
  refine ⟨call, final.found, counted, bounded, facing_proceeds final, ?_⟩
  intro lone n returned
  have complete : turn = .ended true ∧ n = call.total := by
    cases final.faces with
    | selecting phase => cases phase.symm.trans returned
    | removing ks phase aimed => cases phase.symm.trans returned
    | failed e phase => cases phase.symm.trans returned
    | complete phase =>
      cases phase.symm.trans returned
      exact ⟨rfl, rfl⟩
  obtain ⟨rfl, rfl⟩ := complete
  have exactly : call.total + (A.pool t.db).aged.card = (A.pool u.db).aged.card :=
    advanced.exact lone (by intro lost; cases lost)
  have cleared : (A.pool u.db).due ∩ (A.pool t.db).aged = ∅ := advanced.cleared lone rfl
  rw [Aging.card_aged, Aging.card_aged] at exactly
  refine ⟨exactly, A.cleared ?_⟩
  intro r stored due left
  have mem : T.key r ∈ (A.pool u.db).due ∩ (A.pool t.db).aged :=
    Finset.mem_inter.mpr ⟨Aging.mem_due.mpr ⟨r, stored, due, rfl⟩,
      Aging.mem_aged.mpr ⟨r, left, A.old_of_due due, rfl⟩⟩
  rw [cleared] at mem
  exact Finset.notMem_empty _ mem

/-- The key of the first call is old; while it is being purged, another call stores one. -/
def loadedStart : List SystemLabel :=
  [.transact ⟨[sampleCall "order.created" (some "order:42") 1#128], true⟩]

def loadedTurns : List SystemLabel :=
  [.select 0 (.dispatchKeys [⟨"t1", "order:42", 1#128, 0⟩]),
   .transact ⟨[{ sampleCall "order.created" (some "order:43") 2#128 with now := 20 }], true⟩,
   .delete 0 .answered]

theorem purge_under_load_turns : ∃ u t call, t.purges[0]? = some call ∧
    UnderLoad .dispatchKeys 10 u loadedTurns t 0 call ∧
      t.db.dispatchKeys.rows = [⟨"t1", "order:43", 2#128, 20⟩] := by
  have runs : ((system.run SystemState.start loadedStart).bind fun s =>
      (system.step s (.purge .dispatchKeys 10)).bind fun u =>
        ((system.restrict fun _ a => stampedFrom 10 a).run u loadedTurns).filter fun t =>
          s.purges.length = 0 ∧
            t.db.dispatchKeys.rows = [⟨"t1", "order:43", 2#128, 20⟩]).isSome = true := by
    decide
  obtain ⟨t, ended⟩ := Option.isSome_iff_exists.mp runs
  obtain ⟨s, reached, rest⟩ := Option.bind_eq_some_iff.mp ended
  obtain ⟨u, opened, last⟩ := Option.bind_eq_some_iff.mp rest
  obtain ⟨ran, facts⟩ := Option.filter_eq_some_iff.mp last
  obtain ⟨none, rows⟩ := of_decide_eq_true facts
  obtain ⟨call, found, load⟩ := purge_under_load reached opened ran
  rw [none] at found load
  exact ⟨u, t, call, found, load, rows⟩

end RustEvents.System.PurgeLoad
