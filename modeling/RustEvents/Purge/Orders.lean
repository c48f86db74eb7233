/- module: RustEvents/Purge/Orders
   layer: model facts
   source: src/purge.rs (doc comment of purge_events), README.md (Maintenance)
   digest: The three purges commute, so a maintenance job may call them in any order. -/

import RustEvents.Purge.Sweeps

set_option autoImplicit false
set_option relaxedAutoImplicit false

namespace RustEvents.Purge.Orders

open RustEvents.Foundation.LabelledRuns
open RustEvents.Foundation.IndexedTable
open RustEvents.Model.Schema
open RustEvents.Model.Purge
open RustEvents.Purge.Sweeps

/-- One complete purge call, with no other session: what it returns and what it leaves. -/
def Purges (cutoff : Timestamp) (kind : PurgeKind) (db : Database) (n : ℕ) (db' : Database) :
    Prop :=
  ∃ vs s, purging.run ⟨.begin kind cutoff, db⟩ vs = some s ∧
    s.call.phase = .returned (.ok n) ∧ s.db = db'

/-- Complete calls one after the other, each with its result. -/
inductive Maintains (cutoff : Timestamp) :
    List PurgeKind → Database → List (PurgeKind × ℕ) → Database → Prop where
  | done (db : Database) : Maintains cutoff [] db [] db
  | call {kind : PurgeKind} {kinds : List PurgeKind} {db mid db' : Database} {n : ℕ}
      {results : List (PurgeKind × ℕ)} (first : Purges cutoff kind db n mid)
      (rest : Maintains cutoff kinds mid results db') :
      Maintains cutoff (kind :: kinds) db ((kind, n) :: results) db'

private theorem purges_iff {cutoff : Timestamp} {kind : PurgeKind} {db db' : Database} {n : ℕ} :
    Purges cutoff kind db n db' ↔ n = dueCount cutoff db kind ∧ db' = oneShot cutoff db kind := by
  constructor
  · rintro ⟨vs, s, ran, returned, rfl⟩
    have done := completed_run ran
    exact ⟨Except.ok.inj (done.result _ returned), done.tables _ returned⟩
  · rintro ⟨rfl, rfl⟩
    obtain ⟨vs, s, ran, returned⟩ := exists_return cutoff kind db
    exact ⟨vs, s, ran, returned, (completed_run ran).tables _ returned⟩

private theorem active_deleteDeliveries (cutoff : Timestamp) (db : Database) (eventId : Uuid) :
    active (db.deleteDeliveries (dueDelivery cutoff)) eventId = active db eventId := by
  rw [Bool.eq_iff_iff, active_iff, active_iff]
  constructor
  · rintro ⟨hd, stored, own, live⟩
    exact ⟨hd, (Table.mem_delete.mp stored).1, own, live⟩
  · rintro ⟨hd, stored, own, live⟩
    refine ⟨hd, Table.mem_delete.mpr ⟨stored, ?_⟩, own, live⟩
    rw [dueDelivery, live, Bool.false_and]

private theorem dueEvent_oneShot {cutoff : Timestamp} {kind : PurgeKind} (other : kind ≠ .events)
    (db : Database) : dueEvent cutoff (oneShot cutoff db kind) = dueEvent cutoff db := by
  funext e
  cases kind with
  | terminalDeliveries =>
    rw [dueEvent, dueEvent, oneShot, active_deleteDeliveries]
  | dispatchKeys => rfl
  | events => exact absurd rfl other

private theorem events_oneShot {cutoff : Timestamp} {kind : PurgeKind} (other : kind ≠ .events)
    (db : Database) : (oneShot cutoff db kind).events = db.events := by
  cases kind with
  | terminalDeliveries => rfl
  | dispatchKeys => rfl
  | events => exact absurd rfl other

private theorem delete_comm {ρ : Type} {apart : ρ → ρ → Prop} (t : Table ρ apart)
    (hit hit' : ρ → Bool) : (t.delete hit).delete hit' = (t.delete hit').delete hit := by
  rw [Table.delete_delete, Table.delete_delete]
  simp only [Bool.or_comm]

private theorem oneShot_comm (cutoff : Timestamp) (db : Database) (a b : PurgeKind) :
    oneShot cutoff (oneShot cutoff db a) b = oneShot cutoff (oneShot cutoff db b) a := by
  have events : ∀ kind, kind ≠ .events →
      oneShot cutoff (oneShot cutoff db .events) kind =
        oneShot cutoff (oneShot cutoff db kind) .events := by
    intro kind other
    have same : oneShot cutoff (oneShot cutoff db kind) .events =
        (oneShot cutoff db kind).deleteEvents fun id =>
          db.events.rows.any fun e => e.id = id && dueEvent cutoff db e := by
      rw [oneShot, dueEvent_oneShot other, events_oneShot other]
    rw [same]
    cases kind with
    | terminalDeliveries => exact Database.ext_tables rfl rfl (delete_comm _ _ _) rfl rfl
    | dispatchKeys => exact Database.ext_tables rfl (delete_comm _ _ _) rfl rfl rfl
    | events => exact absurd rfl other
  cases a with
  | terminalDeliveries =>
    cases b with
    | terminalDeliveries => rfl
    | dispatchKeys => exact Database.ext_tables rfl rfl rfl rfl rfl
    | events => exact (events .terminalDeliveries (by decide)).symm
  | dispatchKeys =>
    cases b with
    | terminalDeliveries => exact Database.ext_tables rfl rfl rfl rfl rfl
    | dispatchKeys => rfl
    | events => exact (events .dispatchKeys (by decide)).symm
  | events =>
    cases b with
    | terminalDeliveries => exact events .terminalDeliveries (by decide)
    | dispatchKeys => exact events .dispatchKeys (by decide)
    | events => rfl

private theorem maintains_tables {cutoff : Timestamp} {kinds : List PurgeKind} {db db' : Database}
    {results : List (PurgeKind × ℕ)} (calls : Maintains cutoff kinds db results db') :
    db' = kinds.foldl (oneShot cutoff) db ∧ results.map Prod.fst = kinds := by
  induction calls with
  | done db => exact ⟨rfl, rfl⟩
  | call first rest ih =>
    obtain ⟨-, rfl⟩ := purges_iff.mp first
    exact ⟨ih.1, congrArg (List.cons _) ih.2⟩

private theorem exists_maintains (cutoff : Timestamp) (kinds : List PurgeKind) (db : Database) :
    ∃ results db', Maintains cutoff kinds db results db' := by
  induction kinds generalizing db with
  | nil => exact ⟨[], db, .done db⟩
  | cons kind kinds ih =>
    obtain ⟨results, db', rest⟩ := ih (oneShot cutoff db kind)
    exact ⟨_, db', .call (purges_iff.mpr ⟨rfl, rfl⟩) rest⟩

private theorem maintains_count {cutoff : Timestamp} {kinds : List PurgeKind} {db db' : Database}
    {results : List (PurgeKind × ℕ)} (calls : Maintains cutoff kinds db results db')
    (once : kinds.Nodup) {n : ℕ} (reported : (.events, n) ∈ results) :
    n = dueCount cutoff db .events := by
  -- Whatever ran before it, `purge_events` counts the events that were due at the outset.
  induction calls with
  | done db => cases reported
  | @call kind kinds db mid db' m results first rest ih =>
    obtain ⟨rfl, rfl⟩ := purges_iff.mp first
    obtain ⟨fresh, distinct⟩ := List.nodup_cons.mp once
    by_cases own : kind = .events
    · rcases List.mem_cons.mp reported with here | later
      · rw [(Prod.mk.inj here).2, own]
      · have again : PurgeKind.events ∈ results.map Prod.fst := List.mem_map_of_mem later
        rw [(maintains_tables rest).2, ← own] at again
        exact absurd again fresh
    · have later : (.events, n) ∈ results := by
        rcases List.mem_cons.mp reported with here | later
        · exact absurd (Prod.mk.inj here).1.symm own
        · exact later
      rw [ih distinct later, dueCount, dueCount, dueEvent_oneShot own, events_oneShot own]

/-- The three calls of a maintenance job, in any order and with any choice among ties. -/
structure OrderFree (cutoff : Timestamp) (db : Database) : Prop where
  possible : ∀ order : List PurgeKind, order.Perm [.terminalDeliveries, .dispatchKeys, .events] →
    ∃ results db', Maintains cutoff order db results db'
  tables : ∀ order order' : List PurgeKind,
    order.Perm [.terminalDeliveries, .dispatchKeys, .events] →
    order'.Perm [.terminalDeliveries, .dispatchKeys, .events] →
    ∀ results results' final final', Maintains cutoff order db results final →
      Maintains cutoff order' db results' final' → final.events = final'.events ∧
        final.dispatchKeys = final'.dispatchKeys ∧
        final.handlerDeliveries = final'.handlerDeliveries
  count : ∀ order : List PurgeKind, order.Perm [.terminalDeliveries, .dispatchKeys, .events] →
    ∀ results final, Maintains cutoff order db results final →
      (∃ n, (.events, n) ∈ results) ∧
      ∀ n, (.events, n) ∈ results → n = dueCount cutoff db .events

/-- The final tables and the count of `purge_events` are the same in every order. -/
theorem purge_order_irrelevant (cutoff : Timestamp) (db : Database) : OrderFree cutoff db := by
  refine ⟨fun order _ => exists_maintains cutoff order db, ?_, ?_⟩
  · intro order order' perm perm' results results' final final' calls calls'
    have commutes : RightCommutative (oneShot cutoff) := ⟨oneShot_comm cutoff⟩
    have same : final = final' := by
      rw [(maintains_tables calls).1, (maintains_tables calls').1]
      exact (perm.trans perm'.symm).foldl_eq db
    rw [same]
    exact ⟨rfl, rfl, rfl⟩
  · intro order perm results final calls
    have once : order.Nodup := perm.nodup_iff.mpr (by decide)
    refine ⟨?_, fun n => maintains_count calls once⟩
    have called : PurgeKind.events ∈ results.map Prod.fst := by
      rw [(maintains_tables calls).2]
      exact perm.mem_iff.mpr (by decide)
    obtain ⟨⟨kind, n⟩, reported, own⟩ := List.mem_map.mp called
    cases own
    exact ⟨n, reported⟩

end RustEvents.Purge.Orders
