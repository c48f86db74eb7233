/- module: RustEvents/System/Lifecycle
   layer: system
   source: src/outbox.rs, src/runtime.rs, src/purge.rs
   digest: Transactions, handle_envelope invocations and purge calls interleaved over one database. -/

import RustEvents.Dispatch.Fanout
import RustEvents.Worker.Steps
import RustEvents.Model.Purge

set_option autoImplicit false
set_option relaxedAutoImplicit false

namespace RustEvents.System.Lifecycle

open RustEvents.Foundation.LabelledRuns (Machine)
open RustEvents.Foundation.IndexedTable (Table)
open RustEvents.Model.Schema
open RustEvents.Model.Dispatch
open RustEvents.Model.Runtime (Reply)
open RustEvents.Model.Purge
open RustEvents.Dispatch.Effects
open RustEvents.Worker.Statements (delivery?_mem delivery?_of_mem)
open RustEvents.Worker.Steps

/-- The transaction ends in COMMIT. -/
def commitsOn (tx : Transaction) (db : Database) : Bool :=
  tx.commits && (dispatchAll tx.calls db).2.all Except.isOk &&
    decide (dispatchAll tx.calls db).1.KeysReferEvents

theorem execute_eq (tx : Transaction) (db : Database) :
    tx.execute db = if commitsOn tx db then (dispatchAll tx.calls db).1 else db := rfl

theorem execute_covered {R : Database → Database → Prop} {tx : Transaction}
    (covers : Covers tx.calls R) (db : Database) : R db (tx.execute db) := by
  rw [execute_eq]
  split
  · exact covers.dispatchAll db
  · exact covers.refl db

/-- The events that a list of calls creates under a key. -/
def keyedEvents : List Call → Database → List (Uuid × String × String)
  | [], _ => []
  | c :: cs, db =>
    (match (dispatch c db).2, c.key with
      | .ok outcome, some key => if outcome.creates then [(outcome.eventId, key)] else []
      | _, _ => []) ++ keyedEvents cs (dispatch c db).1

/-- `used` are the event ids generated so far, `dispatched` the committed events with the
tenant and key they were dispatched as. -/
structure SystemState where
  workers : WorkerState
  purges : List PurgeCall
  used : List Uuid
  dispatched : List (Uuid × String × String)

def SystemState.start : SystemState := ⟨WorkerState.start Database.empty, [], [], []⟩

/-- A transaction keeps its key rows locked until it ends, so that other sessions see it
happen as a whole when it commits. -/
inductive SystemLabel where
  | transact (tx : Transaction)
  | work (a : WorkerLabel)
  | purge (kind : PurgeKind) (cutoff : Timestamp)
  | select (p : ℕ) (victims : Victims)
  | delete (p : ℕ) (reply : Reply)

namespace SystemState

variable (s : SystemState)

def db : Database := s.workers.db

def transacted (tx : Transaction) : SystemState :=
  { s with
    workers := { s.workers with db := tx.execute s.db }
    used := s.used ++ tx.calls.map Call.eventId
    dispatched :=
      if commitsOn tx s.db then keyedEvents tx.calls s.db ++ s.dispatched else s.dispatched }

def deleted (p : ℕ) (call : PurgeCall) (victims : Victims) (reply : Reply) : SystemState :=
  { s with
    workers := { s.workers with db := reply.after s.db victims.statement }
    purges := s.purges.set p (call.afterDelete (reply.answer s.db victims.statement)) }

def step : SystemLabel → Option SystemState
  | .transact tx => some (s.transacted tx)
  | .work a => (worker.step s.workers a).map fun w => { s with workers := w }
  | .purge kind cutoff => some { s with purges := s.purges ++ [PurgeCall.begin kind cutoff] }
  | .select p victims =>
    match s.purges[p]? with
    | some call =>
      match call.phase with
      | .selecting =>
        if victims.kind = call.kind && victims.selected call.cutoff s.db then
          some { s with purges := s.purges.set p { call with phase := .deleting victims } }
        else none
      | _ => none
    | none => none
  | .delete p reply =>
    match s.purges[p]? with
    | some call =>
      match call.phase with
      | .deleting victims => some (s.deleted p call victims reply)
      | _ => none
    | none => none

/-- `Uuid::now_v7` never returns an id twice. -/
def freshIds : SystemLabel → Bool
  | .transact tx => (s.used ++ tx.calls.map Call.eventId).Nodup
  | _ => true

end SystemState

/-- Everything that happens to the outbox tables, with fresh event ids. -/
def system : Machine SystemState SystemLabel :=
  (Machine.mk SystemState.step).restrict SystemState.freshIds

/-- Everything a step of the system can do. -/
inductive SystemStep (s : SystemState) : SystemLabel → SystemState → Prop where
  | transact (tx : Transaction) (nodup : (tx.calls.map Call.eventId).Nodup)
      (fresh : ∀ eventId ∈ s.used, eventId ∉ tx.calls.map Call.eventId) :
      SystemStep s (.transact tx) (s.transacted tx)
  | work (a : WorkerLabel) (w : WorkerState) (taken : worker.step s.workers a = some w) :
      SystemStep s (.work a) { s with workers := w }
  | purge (kind : PurgeKind) (cutoff : Timestamp) :
      SystemStep s (.purge kind cutoff)
        { s with purges := s.purges ++ [PurgeCall.begin kind cutoff] }
  | select (p : ℕ) (victims : Victims) (call : PurgeCall) (found : s.purges[p]? = some call)
      (kind : victims.kind = call.kind) (chosen : victims.selected call.cutoff s.db = true) :
      SystemStep s (.select p victims)
        { s with purges := s.purges.set p { call with phase := .deleting victims } }
  | delete (p : ℕ) (reply : Reply) (call : PurgeCall) (victims : Victims)
      (found : s.purges[p]? = some call) (phase : call.phase = .deleting victims) :
      SystemStep s (.delete p reply) (s.deleted p call victims reply)

theorem systemStep_sound {s t : SystemState} {a : SystemLabel} (taken : system.step s a = some t) :
    SystemStep s a t := by
  obtain ⟨fresh, step⟩ := Machine.restrict_step.mp taken
  change s.step a = some t at step
  cases a with
  | transact tx =>
    cases step
    have nodup : (s.used ++ tx.calls.map Call.eventId).Nodup := of_decide_eq_true fresh
    obtain ⟨-, own, apart⟩ := List.nodup_append.mp nodup
    exact .transact tx own fun eventId used new => apart eventId used eventId new rfl
  | work a =>
    obtain ⟨w, inner, rfl⟩ := Option.map_eq_some_iff.mp step
    exact .work a w inner
  | purge kind cutoff =>
    cases step
    exact .purge kind cutoff
  | select p victims =>
    simp only [SystemState.step] at step
    split at step
    · next call found =>
      split at step
      · split at step
        · next may =>
          cases step
          simp only [Bool.and_eq_true, decide_eq_true_eq] at may
          exact .select p victims call found may.1 may.2
        · cases step
      · cases step
    · cases step
  | delete p reply =>
    simp only [SystemState.step] at step
    split at step
    · next call found =>
      split at step
      · next victims phase =>
        cases step
        exact .delete p reply call victims found phase
      · cases step
    · cases step

theorem after_delete (victims : Victims) (db : Database) (reply : Reply) :
    reply.after db victims.statement = db ∨
      reply.after db victims.statement = victims.delete db := by
  cases reply with
  | answered => exact .inr rfl
  | failed e => exact .inl rfl
  | lost e => exact .inr rfl

/-- Tables that have only gained rows under the given event ids. -/
structure Grows (ids : List Uuid) (db db' : Database) : Prop where
  deliveries : ∃ new, db'.handlerDeliveries.rows = db.handlerDeliveries.rows ++ new ∧
    ∀ d ∈ new, d.eventId ∈ ids
  keys : ∃ new, db'.dispatchKeys.rows = db.dispatchKeys.rows ++ new ∧ ∀ k ∈ new, k.eventId ∈ ids

namespace Grows

variable {ids : List Uuid} {db db' db'' : Database}

private theorem refl (ids : List Uuid) (db : Database) : Grows ids db db :=
  ⟨⟨[], by simp, by simp⟩, ⟨[], by simp, by simp⟩⟩

private theorem trans (first : Grows ids db db') (second : Grows ids db' db'') :
    Grows ids db db'' := by
  obtain ⟨⟨ds, deliveries, own⟩, ⟨ks, keys, own'⟩⟩ := first
  obtain ⟨⟨ds', deliveries', next⟩, ⟨ks', keys', next'⟩⟩ := second
  refine ⟨⟨ds ++ ds', by rw [deliveries', deliveries, List.append_assoc], ?_⟩,
    ⟨ks ++ ks', by rw [keys', keys, List.append_assoc], ?_⟩⟩
  · intro d mem
    exact (List.mem_append.mp mem).elim (own d) (next d)
  · intro k mem
    exact (List.mem_append.mp mem).elim (own' k) (next' k)

theorem key_stored (grows : Grows ids db db') {k : DispatchKeyRow}
    (stored : k ∈ db.dispatchKeys.rows) : k ∈ db'.dispatchKeys.rows := by
  obtain ⟨new, rows, -⟩ := grows.keys
  rw [rows]
  exact List.mem_append_left _ stored

theorem delivery? (grows : Grows ids db db') {env : HandlerEnvelope} (other : env.eventId ∉ ids) :
    db'.delivery? env = db.delivery? env := by
  obtain ⟨new, rows, own⟩ := grows.deliveries
  have missing : new.find? (fun r => r.envelope = env) = none := by
    rw [List.find?_eq_none]
    intro d mem same
    exact other (of_decide_eq_true same ▸ own d mem)
  simp only [Database.delivery?, Table.find, rows, List.find?_append, missing, Option.or_none]

theorem active_eq (grows : Grows ids db db') {eventId : Uuid} (other : eventId ∉ ids) :
    active db' eventId = active db eventId := by
  obtain ⟨new, rows, own⟩ := grows.deliveries
  have quiet : new.any (fun hd => hd.eventId = eventId && !hd.status.isTerminal) = false := by
    rw [List.any_eq_false]
    intro d mem hit
    simp only [Bool.and_eq_true, decide_eq_true_eq] at hit
    exact other (hit.1 ▸ own d mem)
  simp only [active, rows, List.any_append, quiet, Bool.or_false]

end Grows

private theorem grows_reserves {c : Call} {ids : List Uuid} {db db' : Database}
    (own : c.eventId ∈ ids) (reserves : Reserves c db db') : Grows ids db db' := by
  refine ⟨⟨[], by rw [reserves.deliveries, List.append_nil], by simp⟩,
    ⟨(keyRow c).toList, reserves.keys, ?_⟩⟩
  intro k mem
  obtain ⟨key, -, rfl⟩ := Option.map_eq_some_iff.mp (Option.mem_toList.mp mem)
  exact own

private theorem grows_inserts {c : Call} {payload : Bytes} {handlerIds : List String}
    {ids : List Uuid}
    {db db' : Database} (own : c.eventId ∈ ids) (inserts : Inserts c payload handlerIds db db') :
    Grows ids db db' := by
  refine ⟨⟨_, inserts.deliveries, ?_⟩, ⟨[], by rw [inserts.keys, List.append_nil], by simp⟩⟩
  intro d mem
  exact (Database.queuedRows_spec mem).1 ▸ own

private theorem covers_grows (cs : List Call) : Covers cs (Grows (cs.map Call.eventId)) where
  refl := .refl _
  trans := .trans
  reserves _ mem := grows_reserves (List.mem_map_of_mem mem)
  inserts _ mem := grows_inserts (List.mem_map_of_mem mem)
  pushes db _ := ⟨(Grows.refl _ db).deliveries, (Grows.refl _ db).keys⟩

theorem grows_dispatchAll (cs : List Call) (db : Database) :
    Grows (cs.map Call.eventId) db (dispatchAll cs db).1 :=
  (covers_grows cs).dispatchAll db

theorem grows_execute (tx : Transaction) (db : Database) :
    Grows (tx.calls.map Call.eventId) db (tx.execute db) :=
  execute_covered (covers_grows tx.calls) db

theorem active_of_row {db : Database} {env : HandlerEnvelope} {r : HandlerDelivery}
    (found : db.delivery? env = some r) (live : r.status.isTerminal = false) :
    active db env.eventId = true := by
  obtain ⟨stored, own⟩ := delivery?_mem found
  exact active_iff.mpr ⟨r, stored, own ▸ rfl, live⟩

theorem work_active {s t : WorkerState} {a : WorkerLabel} (step : Step s a t) {e : Uuid}
    (live : active t.db e = true) : active s.db e = true := by
  obtain ⟨d, stored, own, status⟩ := active_iff.mp live
  have after : t.db.delivery? d.envelope = some d := delivery?_of_mem stored
  have event : d.envelope.eventId = e := own
  rw [← event]
  rcases row_cases step d.envelope with same |
    ⟨i, inv, now, reply, r, -, -, -, -, -, found, open_, -⟩ |
    ⟨i, inv, now, reply, mark, verdict, r, -, -, -, -, found, held, -⟩
  · exact active_of_row (same ▸ after) status
  · exact active_of_row found open_
  · exact active_of_row found (by rw [(holds_running held).1]; rfl)

theorem active_deleted {db : Database} {victims : Victims} {e : Uuid}
    (live : active (victims.delete db) e = true) : active db e = true := by
  obtain ⟨d, stored, facts⟩ := active_iff.mp live
  refine active_iff.mpr ⟨d, ?_, facts⟩
  cases victims with
  | terminalDeliveries ids => exact (Table.mem_delete.mp stored).1
  | dispatchKeys rows => exact stored
  | events ids => exact (Table.mem_delete.mp stored).1

end RustEvents.System.Lifecycle
