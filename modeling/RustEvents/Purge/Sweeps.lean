/- module: RustEvents/Purge/Sweeps
   layer: model facts
   source: src/purge.rs (the three loops), migrations (ON DELETE CASCADE)
   digest: With no other session, each chunked purge deletes what one DELETE without LIMIT would. -/

import RustEvents.Foundation.ChunkedSweeps
import RustEvents.Model.Purge

set_option autoImplicit false
set_option relaxedAutoImplicit false

namespace RustEvents.Purge.Sweeps

open RustEvents.Foundation.LabelledRuns
open RustEvents.Foundation.IndexedTable
open RustEvents.Foundation.ChunkedSweeps
open RustEvents.Model.Text
open RustEvents.Model.Schema
open RustEvents.Model.Purge

/-- The rows that a call with this cutoff is there to delete. -/
def dueDelivery (cutoff : Timestamp) (hd : HandlerDelivery) : Bool :=
  hd.status.isTerminal && hd.finishedAt.any (· < cutoff)

def dueKey (cutoff : Timestamp) (k : DispatchKeyRow) : Bool := k.createdAt < cutoff

def dueEvent (cutoff : Timestamp) (db : Database) (e : EventRow) : Bool :=
  e.createdAt < cutoff && !active db e.id

/-- The same purge as a single DELETE, without a LIMIT. -/
def oneShot (cutoff : Timestamp) (db : Database) : PurgeKind → Database
  | .terminalDeliveries => db.deleteDeliveries (dueDelivery cutoff)
  | .dispatchKeys => db.deleteKeys (dueKey cutoff)
  | .events =>
      db.deleteEvents fun id => db.events.rows.any fun e => e.id = id && dueEvent cutoff db e

/-- How many rows of its own table the single DELETE affects. -/
def dueCount (cutoff : Timestamp) (db : Database) : PurgeKind → ℕ
  | .terminalDeliveries => db.handlerDeliveries.rows.countP (dueDelivery cutoff)
  | .dispatchKeys => db.dispatchKeys.rows.countP (dueKey cutoff)
  | .events => db.events.rows.countP (dueEvent cutoff db)

/-- What the three purges have in common: the table they read, the column that names a victim,
the sort column, and the rows that are due. -/
structure Target (ρ κ : Type) [DecidableEq κ] (apart : ρ → ρ → Prop) (cutoff : Timestamp)
    (kind : PurgeKind) where
  table : Database → Table ρ apart
  key : ρ → κ
  stamp : ρ → Timestamp
  due : Database → ρ → Bool
  remove : Database → (κ → Bool) → Database
  wrap : List κ → Victims
  separates : Separates apart key
  kind_iff : ∀ v, v.kind = kind ↔ ∃ ks, v = wrap ks
  selected : ∀ db ks, (wrap ks).selected cutoff db =
    isChunk purgeChunkSize (((table db).rows.filter (due db)).map fun r => (stamp r, key r)) ks
  delete : ∀ db ks, (wrap ks).delete db = remove db (· ∈ ks)
  affected : ∀ db ks, (wrap ks).rowsAffected db = (table db).rows.countP (key · ∈ ks)
  table_remove : ∀ db hit, table (remove db hit) = (table db).delete fun r => hit (key r)
  due_remove : ∀ db hit r, hit (key r) = false → due (remove db hit) r = due db r
  remove_none : ∀ db, remove db (fun _ => false) = db
  remove_remove : ∀ db hit hit', remove (remove db hit) hit' =
    remove db fun k => hit k || hit' k
  oneShot_eq : ∀ db, oneShot cutoff db kind =
    remove db fun k => k ∈ ((table db).rows.filter (due db)).map key
  dueCount_eq : ∀ db, dueCount cutoff db kind = (table db).rows.countP (due db)

namespace Target

variable {ρ κ : Type} [DecidableEq κ] {apart : ρ → ρ → Prop} {cutoff : Timestamp}
  {kind : PurgeKind} (T : Target ρ κ apart cutoff kind)

/-- The names of the rows that are due. -/
def victims (db : Database) : List κ := ((T.table db).rows.filter (T.due db)).map T.key

theorem victims_nodup (db : Database) : (T.victims db).Nodup :=
  (Table.keys_nodup T.separates (T.table db)).sublist (List.filter_sublist.map T.key)

theorem mem_victims {db : Database} {k : κ} :
    k ∈ T.victims db ↔ ∃ r ∈ (T.table db).rows, T.due db r = true ∧ T.key r = k := by
  simp only [victims, List.mem_map, List.mem_filter, and_assoc]

private theorem mem_victims_remove {db : Database} {hit : κ → Bool} {k : κ} :
    k ∈ T.victims (T.remove db hit) ↔ k ∈ T.victims db ∧ hit k = false := by
  simp only [mem_victims, T.table_remove, Table.mem_delete]
  constructor
  · rintro ⟨r, ⟨stored, kept⟩, due, rfl⟩
    rw [T.due_remove db hit r kept] at due
    exact ⟨⟨r, stored, due, rfl⟩, kept⟩
  · rintro ⟨⟨r, stored, due, rfl⟩, kept⟩
    refine ⟨r, ⟨stored, kept⟩, ?_, rfl⟩
    rw [T.due_remove db hit r kept]
    exact due

/-- A purge as a sweep of its table. -/
def sweep : Sweep Database κ where
  eligible db := (T.victims db).toFinset
  remove db taken := T.remove db (· ∈ taken)
  remove_empty db := by
    simp only [Finset.notMem_empty, decide_false]
    exact T.remove_none db
  remove_remove db a b := by
    rw [T.remove_remove]
    simp only [Finset.mem_union, Bool.decide_or]
  eligible_remove db taken _ := by
    ext k
    rw [List.mem_toFinset, T.mem_victims_remove, Finset.mem_sdiff, List.mem_toFinset,
      decide_eq_false_iff_not]

private theorem sweep_eq (db : Database) : T.sweep.sweep db = oneShot cutoff db kind := by
  simp only [Sweep.sweep, sweep, List.mem_toFinset]
  exact (T.oneShot_eq db).symm

private theorem card_eligible (db : Database) :
    (T.sweep.eligible db).card = dueCount cutoff db kind := by
  rw [T.dueCount_eq, List.countP_eq_length_filter]
  exact (List.toFinset_card_of_nodup (T.victims_nodup db)).trans (List.length_map _)

end Target

/-- A purge call between two turns: it selects, or it has returned its total. -/
structure Standing (cutoff : Timestamp) (kind : PurgeKind) (s : Purging) : Prop where
  kind : s.call.kind = kind
  cutoff : s.call.cutoff = cutoff
  phase : s.call.phase = .selecting ∨ s.call.phase = .returned (.ok s.call.total)

def hasReturned : PurgePhase → Bool
  | .returned _ => true
  | _ => false

/-- The loop variables, as the sweep sees them. -/
def stage (s : Purging) : Stage Database := ⟨s.db, s.call.total, hasReturned s.call.phase⟩

private theorem standing_begin (cutoff : Timestamp) (kind : PurgeKind) (db : Database) :
    Standing cutoff kind ⟨.begin kind cutoff, db⟩ := ⟨rfl, rfl, .inl rfl⟩

private theorem turn_cases {s t : Purging} {v : Victims} (turn : purging.step s v = some t) :
    s.call.phase = .selecting ∧ v.kind = s.call.kind ∧ v.selected s.call.cutoff s.db = true ∧
      t = ⟨s.call.afterDelete (.ok (v.rowsAffected s.db)), v.delete s.db⟩ := by
  simp only [purging, Purging.turn] at turn
  split at turn
  · next selecting =>
    split at turn
    · next guard => exact ⟨selecting, guard.1, guard.2, (Option.some.inj turn).symm⟩
    · cases turn
  · cases turn

theorem chunk_facts {κ : Type} [DecidableEq κ] {limit : ℕ} {eligible : List (Timestamp × κ)}
    {ks : List κ} (chunk : isChunk limit eligible ks = true) :
    ks.Nodup ∧ ks.length = min limit eligible.length ∧ ∀ k ∈ ks, k ∈ eligible.map Prod.snd := by
  have members : ∀ k ∈ ks, k ∈ eligible.map Prod.snd := by
    intro k mem
    obtain ⟨stamp, found⟩ := isChunk_mem chunk mem
    exact List.mem_map_of_mem found
  simp only [isChunk, Bool.and_eq_true, decide_eq_true_eq] at chunk
  exact ⟨chunk.1.1, chunk.1.2, members⟩

theorem exists_chunk {κ : Type} [DecidableEq κ] (limit : ℕ) {eligible : List (Timestamp × κ)}
    (distinct : (eligible.map Prod.snd).Nodup) : ∃ ks, isChunk limit eligible ks = true := by
  obtain ⟨low, rest, perm, size, order⟩ := exists_lowest Prod.fst limit eligible
  refine ⟨low.map Prod.snd, ?_⟩
  simp only [isChunk, Bool.and_eq_true, decide_eq_true_eq, List.all_eq_true, List.any_eq_true,
    Bool.or_eq_true]
  refine ⟨⟨?_, by rw [List.length_map, size]⟩, ?_⟩
  · have whole := (perm.map Prod.snd).nodup_iff.mpr distinct
    rw [List.map_append] at whole
    exact whole.of_append_left
  · intro k mem
    obtain ⟨candidate, early, rfl⟩ := List.mem_map.mp mem
    refine ⟨candidate, perm.subset (List.mem_append_left rest early), rfl, ?_⟩
    intro other stored
    rcases List.mem_append.mp (perm.symm.subset stored) with chosen | left
    · exact .inl (List.mem_map_of_mem chosen)
    · exact .inr (order candidate early other left)

namespace Target

variable {ρ κ : Type} [DecidableEq κ] {apart : ρ → ρ → Prop} {cutoff : Timestamp}
  {kind : PurgeKind} (T : Target ρ κ apart cutoff kind)

/-- A turn of the loop is a step of the sweep. -/
private theorem simulate {s t : Purging} {v : Victims} (standing : Standing cutoff kind s)
    (turn : purging.step s v = some t) :
    Standing cutoff kind t ∧ ∃ taken,
      (T.sweep.machine purgeChunkSize).step (stage s) taken = some (stage t) := by
  obtain ⟨selecting, kinds, selected, rfl⟩ := turn_cases turn
  obtain ⟨ks, rfl⟩ := (T.kind_iff v).mp (kinds.trans standing.kind)
  rw [standing.cutoff, T.selected] at selected
  obtain ⟨distinct, size, members⟩ := chunk_facts selected
  simp only [List.map_map, Function.comp_def, List.length_map] at size members
  have named : ∀ k ∈ ks, ∃ r ∈ (T.table s.db).rows, T.key r = k := by
    intro k mem
    obtain ⟨r, stored, -, same⟩ := T.mem_victims.mp (members k mem)
    exact ⟨r, stored, same⟩
  have count : (T.wrap ks).rowsAffected s.db = ks.length := by
    rw [T.affected]
    exact Table.countP_keys T.separates _ distinct named
  have card : ks.toFinset.card = ks.length := List.toFinset_card_of_nodup distinct
  have total : (T.sweep.eligible s.db).card = (T.victims s.db).length :=
    List.toFinset_card_of_nodup (T.victims_nodup s.db)
  refine ⟨?_, ks.toFinset, ?_⟩
  · refine ⟨standing.kind, standing.cutoff, ?_⟩
    simp only [PurgeCall.afterDelete]
    split
    · exact .inr rfl
    · exact .inl rfl
  · have guard : (stage s).finished = false ∧ ks.toFinset ⊆ T.sweep.eligible (stage s).current ∧
        ks.toFinset.card = min purgeChunkSize (T.sweep.eligible (stage s).current).card := by
      refine ⟨by simp only [stage, selecting, hasReturned], ?_, ?_⟩
      · intro k mem
        exact List.mem_toFinset.mpr (members k (List.mem_toFinset.mp mem))
      · simp only [stage]
        rw [card, total, size]
        simp only [victims, List.length_map]
    simp only [Sweep.machine, if_pos guard, Option.some.injEq]
    simp only [stage, PurgeCall.afterDelete, count, card, T.delete, sweep, List.mem_toFinset,
      Stage.mk.injEq, true_and]
    split
    · next short => simp [short, hasReturned]
    · next long => simp [long, hasReturned]

private theorem simulates {s t : Purging} {vs : List Victims} (standing : Standing cutoff kind s)
    (ran : purging.run s vs = some t) :
    Standing cutoff kind t ∧ ∃ chunks, chunks.length = vs.length ∧
      (T.sweep.machine purgeChunkSize).run (stage s) chunks = some (stage t) := by
  induction vs generalizing s with
  | nil =>
    cases Option.some.inj ran
    exact ⟨standing, [], rfl, rfl⟩
  | cons v vs ih =>
    obtain ⟨u, turn, rest⟩ := Machine.run_cons.mp ran
    obtain ⟨next, taken, step⟩ := T.simulate standing turn
    obtain ⟨last, chunks, size, run⟩ := ih next rest
    refine ⟨last, taken :: chunks, by simp [size], ?_⟩
    exact Machine.run_cons.mpr ⟨_, step, run⟩

include T in
private theorem proceeds {s : Purging} (standing : Standing cutoff kind s)
    (selecting : s.call.phase = .selecting) : ∃ v t, purging.step s v = some t := by
  have distinct : (((T.table s.db).rows.filter (T.due s.db)).map
      fun r => (T.stamp r, T.key r)).map Prod.snd |>.Nodup := by
    rw [List.map_map]
    exact T.victims_nodup s.db
  obtain ⟨ks, chunk⟩ := exists_chunk purgeChunkSize distinct
  have guard : (T.wrap ks).kind = s.call.kind ∧
      (T.wrap ks).selected s.call.cutoff s.db = true := by
    refine ⟨((T.kind_iff _).mpr ⟨ks, rfl⟩).trans standing.kind.symm, ?_⟩
    rw [standing.cutoff, T.selected]
    exact chunk
  refine ⟨T.wrap ks, ⟨s.call.afterDelete (.ok ((T.wrap ks).rowsAffected s.db)),
    (T.wrap ks).delete s.db⟩, ?_⟩
  simp only [purging, Purging.turn, selecting]
  exact if_pos guard

end Target

private theorem eligibleDeliveries_eq (cutoff : Timestamp) (db : Database) :
    eligibleDeliveries cutoff db = (db.handlerDeliveries.rows.filter (dueDelivery cutoff)).map
      fun hd => (hd.finishedAt.getD 0, hd.id) := by
  rw [← List.filterMap_eq_map, List.filterMap_filter]
  refine List.filterMap_congr fun hd _ => ?_
  simp only [dueDelivery, Function.comp_apply]
  by_cases terminal : hd.status.isTerminal = true
  · obtain none | ⟨finishedAt, some⟩ := Option.eq_none_or_eq_some hd.finishedAt
    · simp [terminal, none]
    · by_cases old : finishedAt < cutoff
      · simp [terminal, some, old]
      · simpa [terminal, some, old] using Int.not_lt.mp old
  · simp [terminal]

private theorem active_deleteEvents {db : Database} {hit : Uuid → Bool} {eventId : Uuid}
    (kept : hit eventId = false) : active (db.deleteEvents hit) eventId = active db eventId := by
  rw [Bool.eq_iff_iff, active_iff, active_iff]
  constructor
  · rintro ⟨hd, stored, own, live⟩
    exact ⟨hd, (Table.mem_delete.mp stored).1, own, live⟩
  · rintro ⟨hd, stored, own, live⟩
    exact ⟨hd, Table.mem_delete.mpr ⟨stored, own ▸ kept⟩, own, live⟩

private theorem any_due {ρ κ : Type} [DecidableEq κ] (key : ρ → κ) (due : ρ → Bool) (k : κ)
    (rows : List ρ) :
    (rows.any fun r => decide (key r = k) && due r) =
      decide (k ∈ (rows.filter due).map key) := by
  rw [Bool.eq_iff_iff]
  simp only [List.any_eq_true, Bool.and_eq_true, decide_eq_true_eq, List.mem_map, List.mem_filter]
  constructor
  · rintro ⟨r, stored, own, isDue⟩
    exact ⟨r, ⟨stored, isDue⟩, own⟩
  · rintro ⟨r, ⟨stored, isDue⟩, own⟩
    exact ⟨r, stored, own, isDue⟩

private theorem named_due {ρ κ : Type} [DecidableEq κ] {apart : ρ → ρ → Prop} {key : ρ → κ}
    (separates : Separates apart key) {t : Table ρ apart} (due : ρ → Bool) {r : ρ}
    (stored : r ∈ t.rows) : decide (key r ∈ (t.rows.filter due).map key) = due r := by
  rw [Bool.eq_iff_iff, decide_eq_true_eq, List.mem_map]
  constructor
  · rintro ⟨r', mem, same⟩
    obtain ⟨stored', isDue⟩ := List.mem_filter.mp mem
    rw [Table.eq_of_key separates stored stored' same.symm]
    exact isDue
  · intro isDue
    exact ⟨r, List.mem_filter.mpr ⟨stored, isDue⟩, rfl⟩

def deliveryTarget (cutoff : Timestamp) :
    Target HandlerDelivery ℕ HandlerDelivery.Apart cutoff .terminalDeliveries where
  table db := db.handlerDeliveries
  key := HandlerDelivery.id
  stamp hd := hd.finishedAt.getD 0
  due _ := dueDelivery cutoff
  remove db hit := db.deleteDeliveries fun hd => hit hd.id
  wrap := .terminalDeliveries
  separates := deliveries_separates_id
  kind_iff v := by cases v <;> simp [Victims.kind]
  selected db ks := by rw [Victims.selected, eligibleDeliveries_eq]
  delete _ _ := rfl
  affected _ _ := rfl
  table_remove _ _ := rfl
  due_remove _ _ _ _ := rfl
  remove_none db := Database.ext_tables rfl rfl (Table.delete_none fun _ _ => rfl) rfl rfl
  remove_remove db hit hit' :=
    Database.ext_tables rfl rfl (Table.delete_delete _ _ _) rfl rfl
  oneShot_eq db := by
    refine Database.ext_tables rfl rfl (Table.delete_congr fun hd stored => ?_) rfl rfl
    exact (named_due deliveries_separates_id (dueDelivery cutoff) stored).symm
  dueCount_eq _ := rfl

def keyTarget (cutoff : Timestamp) :
    Target DispatchKeyRow DispatchKeyRow DispatchKeyRow.Apart cutoff .dispatchKeys where
  table db := db.dispatchKeys
  key := id
  stamp := DispatchKeyRow.createdAt
  due _ := dueKey cutoff
  remove db hit := db.deleteKeys hit
  wrap := .dispatchKeys
  separates a b apart same := apart.1 (congrArg DispatchKeyRow.key same)
  kind_iff v := by cases v <;> simp [Victims.kind]
  selected _ _ := rfl
  delete _ _ := rfl
  affected _ _ := rfl
  table_remove _ _ := rfl
  due_remove _ _ _ _ := rfl
  remove_none db := Database.ext_tables rfl (Table.delete_none fun _ _ => rfl) rfl rfl rfl
  remove_remove db hit hit' :=
    Database.ext_tables rfl (Table.delete_delete _ _ _) rfl rfl rfl
  oneShot_eq db := by
    refine Database.ext_tables rfl (Table.delete_congr fun k stored => ?_) rfl rfl rfl
    simp [stored]
  dueCount_eq _ := rfl

private theorem oneShot_events (cutoff : Timestamp) (db : Database) :
    oneShot cutoff db .events =
      db.deleteEvents (· ∈ (db.events.rows.filter (dueEvent cutoff db)).map EventRow.id) := by
  rw [oneShot]
  congr 1
  funext id
  exact any_due EventRow.id (dueEvent cutoff db) id db.events.rows

def eventTarget (cutoff : Timestamp) :
    Target EventRow Uuid EventRow.Apart cutoff .events where
  table db := db.events
  key := EventRow.id
  stamp := EventRow.createdAt
  due db := dueEvent cutoff db
  remove db hit := db.deleteEvents hit
  wrap := .events
  separates := events_separates_id
  kind_iff v := by cases v <;> simp [Victims.kind]
  selected _ _ := rfl
  delete _ _ := rfl
  affected _ _ := rfl
  table_remove _ _ := rfl
  due_remove db hit e kept := by rw [dueEvent, dueEvent, active_deleteEvents kept]
  remove_none db := Database.ext_tables (Table.delete_none fun _ _ => rfl)
    (Table.delete_none fun _ _ => rfl) (Table.delete_none fun _ _ => rfl) rfl rfl
  remove_remove db hit hit' := Database.ext_tables (Table.delete_delete _ _ _)
    (Table.delete_delete _ _ _) (Table.delete_delete _ _ _) rfl rfl
  oneShot_eq := oneShot_events cutoff
  dueCount_eq _ := rfl

private theorem cases_target (cutoff : Timestamp) (kind : PurgeKind) {P : Prop}
    (use : ∀ (ρ κ : Type) (_ : DecidableEq κ) (apart : ρ → ρ → Prop),
      Target ρ κ apart cutoff kind → P) : P := by
  cases kind with
  | terminalDeliveries => exact use _ _ _ _ (deliveryTarget cutoff)
  | dispatchKeys => exact use _ _ _ _ (keyTarget cutoff)
  | events => exact use _ _ _ _ (eventTarget cutoff)

/-- What a call that runs alone has done after some turns of its loop. -/
structure Completed (cutoff : Timestamp) (kind : PurgeKind) (db : Database) (turns : ℕ)
    (s : Purging) : Prop where
  bounded : turns ≤ dueCount cutoff db kind / purgeChunkSize + 1
  proceeds : (∃ v t, purging.step s v = some t) ∨ s.call.phase = .returned (.ok s.call.total)
  result : ∀ n, s.call.phase = .returned n → n = .ok (dueCount cutoff db kind)
  tables : ∀ n, s.call.phase = .returned n → s.db = oneShot cutoff db kind

theorem completed_run {cutoff : Timestamp} {kind : PurgeKind} {db : Database}
    {vs : List Victims} {s : Purging}
    (ran : purging.run ⟨.begin kind cutoff, db⟩ vs = some s) :
    Completed cutoff kind db vs.length s := by
  refine cases_target cutoff kind fun ρ κ _ apart T => ?_
  obtain ⟨standing, chunks, size, run⟩ := T.simulates (standing_begin cutoff kind db) ran
  have bound := Sweep.run_bounded (by decide) run
  rw [size, T.card_eligible] at bound
  have ends : ∀ n, s.call.phase = .returned n →
      n = .ok (dueCount cutoff db kind) ∧ s.db = oneShot cutoff db kind := by
    intro n returned
    obtain ⟨tables, total⟩ := Sweep.finished_run run (by simp only [stage, returned, hasReturned])
    rw [T.sweep_eq] at tables
    rw [T.card_eligible] at total
    rcases standing.phase with selecting | counted
    · cases returned.symm.trans selecting
    · cases returned.symm.trans counted
      exact ⟨congrArg Except.ok total, tables⟩
  refine ⟨bound, ?_, fun n returned => (ends n returned).1, fun n returned => (ends n returned).2⟩
  rcases standing.phase with selecting | returned
  · exact .inl (T.proceeds standing selecting)
  · exact .inr returned

/-- The rows that a purge leaves: all but the due ones of its own table, and for `purge_events`
all but what the cascade takes with a deleted event. -/
structure Survivors (cutoff : Timestamp) (kind : PurgeKind) (db db' : Database) : Prop where
  events : ∀ e, e ∈ db'.events.rows ↔ e ∈ db.events.rows ∧
    ¬ (kind = .events ∧ dueEvent cutoff db e = true)
  dispatchKeys : ∀ k, k ∈ db'.dispatchKeys.rows ↔ k ∈ db.dispatchKeys.rows ∧
    ¬ (kind = .dispatchKeys ∧ dueKey cutoff k = true) ∧
    ¬ (kind = .events ∧ ∃ e ∈ db.events.rows, e.id = k.eventId ∧ dueEvent cutoff db e = true)
  handlerDeliveries : ∀ d, d ∈ db'.handlerDeliveries.rows ↔ d ∈ db.handlerDeliveries.rows ∧
    ¬ (kind = .terminalDeliveries ∧ dueDelivery cutoff d = true) ∧
    ¬ (kind = .events ∧ ∃ e ∈ db.events.rows, e.id = d.eventId ∧ dueEvent cutoff db e = true)
  jobs : db'.jobs = db.jobs
  nextDeliveryId : db'.nextDeliveryId = db.nextDeliveryId

private theorem survivors_oneShot (cutoff : Timestamp) (kind : PurgeKind) (db : Database) :
    Survivors cutoff kind db (oneShot cutoff db kind) := by
  cases kind with
  | terminalDeliveries =>
    refine ⟨fun e => ?_, fun k => ?_, fun d => ?_, rfl, rfl⟩
    · simp [oneShot, Database.deleteDeliveries]
    · simp [oneShot, Database.deleteDeliveries]
    · simp [oneShot, Database.deleteDeliveries, Table.mem_delete]
  | dispatchKeys =>
    refine ⟨fun e => ?_, fun k => ?_, fun d => ?_, rfl, rfl⟩
    · simp [oneShot, Database.deleteKeys]
    · simp [oneShot, Database.deleteKeys, Table.mem_delete]
    · simp [oneShot, Database.deleteKeys]
  | events =>
    refine ⟨fun e => ?_, fun k => ?_, fun d => ?_, rfl, rfl⟩
    · have own : e ∈ db.events.rows →
          (db.events.rows.any fun e' => e'.id = e.id && dueEvent cutoff db e') =
            dueEvent cutoff db e := by
        intro stored
        rw [any_due EventRow.id]
        exact named_due events_separates_id (dueEvent cutoff db) stored
      simp only [oneShot, Database.deleteEvents, Table.mem_delete, true_and, Bool.not_eq_true]
      exact and_congr_right fun stored => by rw [own stored]
    · simp [oneShot, Database.deleteEvents, Table.mem_delete]
    · simp [oneShot, Database.deleteEvents, Table.mem_delete]

private theorem dueCount_oneShot (cutoff : Timestamp) (kind : PurgeKind) (db : Database) :
    dueCount cutoff (oneShot cutoff db kind) kind = 0 := by
  refine cases_target cutoff kind fun ρ κ _ apart T => ?_
  rw [← T.card_eligible, ← T.sweep_eq, Sweep.eligible_sweep, Finset.card_empty]

theorem exists_return (cutoff : Timestamp) (kind : PurgeKind) (db : Database) :
    ∃ vs s, purging.run ⟨.begin kind cutoff, db⟩ vs = some s ∧
      s.call.phase = .returned (.ok (dueCount cutoff db kind)) := by
  by_contra never
  have endless : ∀ k, ∃ vs s, vs.length = k ∧
      purging.run ⟨.begin kind cutoff, db⟩ vs = some s := by
    intro k
    induction k with
    | zero => exact ⟨[], _, rfl, rfl⟩
    | succ k ih =>
      obtain ⟨vs, s, size, ran⟩ := ih
      rcases (completed_run ran).proceeds with ⟨v, t, turn⟩ | returned
      · refine ⟨vs ++ [v], t, by rw [List.length_append, size]; rfl, ?_⟩
        rw [Machine.run_append, ran]
        exact Machine.run_cons.mpr ⟨t, turn, rfl⟩
      · have total := (completed_run ran).result _ returned
        exact absurd ⟨vs, s, ran, total ▸ returned⟩ never
  obtain ⟨vs, s, size, ran⟩ := endless (dueCount cutoff db kind / purgeChunkSize + 2)
  have bound := (completed_run ran).bounded
  omega

/-- A chunked purge and the single DELETE compared, over every choice that ties leave. -/
structure EqualsOneShot (cutoff : Timestamp) (kind : PurgeKind) (db : Database) : Prop where
  runs : ∀ vs s, purging.run ⟨.begin kind cutoff, db⟩ vs = some s →
    Completed cutoff kind db vs.length s
  returns : ∃ vs s, purging.run ⟨.begin kind cutoff, db⟩ vs = some s ∧
    s.call.phase = .returned (.ok (dueCount cutoff db kind))
  rows : Survivors cutoff kind db (oneShot cutoff db kind)
  again : ∀ vs s, purging.run ⟨.begin kind cutoff, oneShot cutoff db kind⟩ vs = some s →
    ∀ n, s.call.phase = .returned n → n = .ok 0

/-- Every purge on its own, on every database and with every cutoff: its loop ends, deletes
exactly the due rows, and returns their number. -/
theorem chunked_purge_equals_one_shot (cutoff : Timestamp) (kind : PurgeKind) (db : Database) :
    EqualsOneShot cutoff kind db where
  runs _ _ := completed_run
  returns := exists_return cutoff kind db
  rows := survivors_oneShot cutoff kind db
  again vs s ran n returned := by
    have result := (completed_run ran).result n returned
    rwa [dueCount_oneShot] at result

end RustEvents.Purge.Sweeps
