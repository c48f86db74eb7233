/- module: RustEvents/System/Accounts
   layer: system
   source: src/outbox.rs (Outbox::dispatch), src/runtime.rs (mark_*_fenced), src/purge.rs, src/handle.rs (OutboxHandle::shutdown)
   digest: Deliveries as obligations: every run is a run of a ledger, nothing committed is lost, and shutdown reports what is owed. -/

import RustEvents.Foundation.Obligations
import RustEvents.Model.Shutdown
import RustEvents.System.Provenance
import Mathlib.Algebra.GroupWithZero.Nat

set_option autoImplicit false
set_option relaxedAutoImplicit false

namespace RustEvents.System.Accounts

open RustEvents.Foundation.LabelledRuns (Machine)
open RustEvents.Foundation.IndexedTable (Table)
open RustEvents.Foundation.Obligations
open RustEvents.Model.Errors
open RustEvents.Model.Schema
open RustEvents.Model.Dispatch
open RustEvents.Model.Runtime (Reply)
open RustEvents.Model.Purge
open RustEvents.Model.Shutdown
open RustEvents.Worker.Statements
open RustEvents.Worker.Steps
open RustEvents.Worker.Origins
open RustEvents.System.Lifecycle
open RustEvents.System.Absorbing (delivered)
open RustEvents.System.PurgeSafety
open RustEvents.System.Chronicle

/-- The deliveries that these calls owe, in the order of their rows. -/
def owedBy (calls : List Call) : List HandlerEnvelope :=
  calls.flatMap fun c => (fanOut c).map fun h => ⟨c.eventId, h⟩

/-- The deliveries that are open before and terminal after, with the status they end in. -/
def closings (db db' : Database) : List (HandlerEnvelope × DeliveryStatus) :=
  db.handlerDeliveries.rows.filterMap fun d =>
    if d.status.isTerminal then none
    else (db'.delivery? d.envelope).bind fun d' =>
      if d'.status.isTerminal then some (d.envelope, d'.status) else none

/-- What a step posts to the ledger: a commit enters what its calls owe, and any other step
settles the deliveries that it ends. -/
def postings (s : SystemState) (a : SystemLabel) (t : SystemState) :
    List (Posting HandlerEnvelope DeliveryStatus) :=
  match a with
  | .transact _ => (owedBy (persisted s a t)).map .enter
  | _ => (closings s.db t.db).map fun kv => .settle kv.1 kv.2

/-- The tables agree with the ledger: what is owed is exactly what has an open row, and a
terminal row shows the verdict that was posted. -/
structure Backs (db : Database) (L : Ledger HandlerEnvelope DeliveryStatus) : Prop where
  owed : ∀ k, k ∈ L.owed ↔
    ∃ r ∈ db.handlerDeliveries.rows, r.envelope = k ∧ r.status.isTerminal = false
  closed : ∀ r ∈ db.handlerDeliveries.rows, r.status.isTerminal = true →
    (r.envelope, some r.status) ∈ L.entries

private theorem same_row {db : Database} {r r' : HandlerDelivery}
    (stored : r ∈ db.handlerDeliveries.rows) (stored' : r' ∈ db.handlerDeliveries.rows)
    (same : r.envelope = r'.envelope) : r = r' :=
  Table.eq_of_key deliveries_separates_envelope stored stored' same

private theorem mem_closings {db db' : Database} {k : HandlerEnvelope} {status : DeliveryStatus} :
    (k, status) ∈ closings db db' ↔
      ∃ d ∈ db.handlerDeliveries.rows, d.envelope = k ∧ d.status.isTerminal = false ∧
        ∃ d' ∈ db'.handlerDeliveries.rows, d'.envelope = k ∧ d'.status.isTerminal = true ∧
          d'.status = status := by
  unfold closings
  rw [List.mem_filterMap]
  constructor
  · rintro ⟨d, stored, chosen⟩
    split at chosen
    · cases chosen
    · next live =>
      obtain ⟨d', found, ended⟩ := Option.bind_eq_some_iff.mp chosen
      obtain ⟨stored', own⟩ := delivery?_mem found
      split at ended
      · next terminal =>
        cases ended
        exact ⟨d, stored, rfl, by simpa using live, d', stored', own, terminal, rfl⟩
      · cases ended
  · rintro ⟨d, stored, rfl, live, d', stored', own, terminal, rfl⟩
    have found : db'.delivery? d.envelope = some d' := own ▸ delivery?_of_mem stored'
    refine ⟨d, stored, ?_⟩
    rw [if_neg (by rw [live]; exact Bool.false_ne_true), found, Option.bind_some, if_pos terminal]

private theorem closings_nodup (db db' : Database) : ((closings db db').map Prod.fst).Nodup := by
  have within : ((closings db db').map Prod.fst).Sublist
      (db.handlerDeliveries.rows.map HandlerDelivery.envelope) := by
    unfold closings
    generalize db.handlerDeliveries.rows = rows
    induction rows with
    | nil => exact List.Sublist.refl _
    | cons d rows ih =>
      rw [List.filterMap_cons, List.map_cons]
      split
      · exact ih.cons _
      · next kv chosen =>
        have own : kv.1 = d.envelope := by
          split at chosen
          · cases chosen
          · obtain ⟨d', -, ended⟩ := Option.bind_eq_some_iff.mp chosen
            split at ended
            · cases ended
              rfl
            · cases ended
        rw [List.map_cons, own]
        exact ih.cons_cons _
  exact (Table.keys_nodup deliveries_separates_envelope db.handlerDeliveries).sublist within

/-- A change of the tables that creates no delivery, keeps the open ones under their envelopes
and leaves the terminal ones alone is a run of verdicts. -/
private theorem backs_closings {db db' : Database} {L : Ledger HandlerEnvelope DeliveryStatus}
    (backs : Backs db L)
    (keeps : ∀ d ∈ db.handlerDeliveries.rows, d.status.isTerminal = false →
      ∃ d' ∈ db'.handlerDeliveries.rows, d'.envelope = d.envelope)
    (origin : ∀ d' ∈ db'.handlerDeliveries.rows, ∃ d ∈ db.handlerDeliveries.rows,
      d.envelope = d'.envelope ∧ (d.status.isTerminal = true → d = d')) :
    ∃ M, (ledger HandlerEnvelope DeliveryStatus).run L
        ((closings db db').map fun kv => .settle kv.1 kv.2) = some M ∧
      M.keys = L.keys ∧ Backs db' M := by
  have known : ∀ kv ∈ closings db db', kv.1 ∈ L.owed := by
    rintro ⟨k, status⟩ mem
    obtain ⟨d, stored, own, live, -⟩ := mem_closings.mp mem
    exact (backs.owed k).mpr ⟨d, stored, own, live⟩
  obtain ⟨M, run, keys, settles, spares⟩ := settle_run (closings_nodup db db') known
  have untouched : ∀ {k : HandlerEnvelope}, k ∉ (closings db db').map Prod.fst →
      ∀ d' ∈ db'.handlerDeliveries.rows, d'.envelope = k → d'.status.isTerminal = true →
      ∃ d ∈ db.handlerDeliveries.rows, d = d' := by
    intro k absent d' stored' own terminal
    obtain ⟨d, stored, same, kept⟩ := origin d' stored'
    cases live : d.status.isTerminal with
    | true => exact ⟨d, stored, kept live⟩
    | false =>
      exfalso
      apply absent
      have closing := mem_closings.mpr
        ⟨d, stored, same.trans own, live, d', stored', own, terminal, rfl⟩
      exact List.mem_map_of_mem closing
  refine ⟨M, run, keys, ?_, ?_⟩
  · intro k
    by_cases closing : k ∈ (closings db db').map Prod.fst
    · obtain ⟨⟨j, status⟩, mem, rfl⟩ := List.mem_map.mp closing
      constructor
      · intro owed
        have open_ := mem_owed.mp owed
        cases entry_unique open_ (settles (j, status) mem)
      · rintro ⟨r, stored, own, live⟩
        obtain ⟨-, -, -, -, d', stored', own', terminal, -⟩ := mem_closings.mp mem
        rw [same_row stored stored' (own.trans own'.symm), terminal] at live
        cases live
    · rw [mem_owed, spares k none closing, ← mem_owed, backs.owed]
      constructor
      · rintro ⟨r, stored, own, live⟩
        obtain ⟨r', stored', same⟩ := keeps r stored live
        refine ⟨r', stored', same.trans own, ?_⟩
        cases terminal : r'.status.isTerminal with
        | false => rfl
        | true =>
          obtain ⟨d, stored'', rfl⟩ := untouched closing r' stored' (same.trans own) terminal
          rw [same_row stored stored'' same.symm, terminal] at live
          cases live
      · rintro ⟨r', stored', own, live⟩
        obtain ⟨d, stored, same, kept⟩ := origin r' stored'
        refine ⟨d, stored, same.trans own, ?_⟩
        cases terminal : d.status.isTerminal with
        | false => rfl
        | true =>
          rw [kept terminal, live] at terminal
          cases terminal
  · intro r' stored' terminal
    by_cases closing : r'.envelope ∈ (closings db db').map Prod.fst
    · obtain ⟨⟨j, status⟩, mem, own⟩ := List.mem_map.mp closing
      obtain ⟨-, -, -, -, d', stored'', own', -, shown⟩ := mem_closings.mp mem
      have same : r' = d' := same_row stored' stored'' (own.symm.trans own'.symm)
      have posted := settles (j, status) mem
      change j = r'.envelope at own
      rw [← own, same, shown]
      exact posted
    · obtain ⟨d, stored, rfl⟩ := untouched closing r' stored' rfl terminal
      exact (spares _ _ closing).mpr (backs.closed d stored terminal)

private theorem dispatchAll_rows {cs : List Call} {db : Database}
    (ok : (dispatchAll cs db).2.all Except.isOk = true) :
    ∃ new, (dispatchAll cs db).1.handlerDeliveries.rows = db.handlerDeliveries.rows ++ new ∧
      new.map HandlerDelivery.envelope = owedBy (creations cs db) ∧
      ∀ d ∈ new, d.status.isTerminal = false := by
  rw [← List.nil_append (creations cs db)]
  refine creations_tracked (I := fun past db' =>
    ∃ new, db'.handlerDeliveries.rows = db.handlerDeliveries.rows ++ new ∧
      new.map HandlerDelivery.envelope = owedBy past ∧ ∀ d ∈ new, d.status.isTerminal = false)
    ?_ ?_ ok
  · rintro past db' c outcome payload ⟨new, rows, envelopes, live⟩ - - adds
    refine ⟨new ++ Database.queuedRows c.eventId c.now db'.nextDeliveryId (fanOut c), ?_, ?_, ?_⟩
    · rw [adds.deliveries, rows, List.append_assoc]
    · rw [List.map_append, envelopes, Database.queuedRows_envelope]
      simp only [owedBy, List.flatMap_append, List.flatMap_singleton]
    · intro d mem
      rcases List.mem_append.mp mem with earlier | queued
      · exact live d earlier
      · obtain ⟨-, -, -, -, shape⟩ := Database.queuedRows_spec queued
        rw [shape]
        rfl
  · refine ⟨[], (List.append_nil _).symm, rfl, ?_⟩
    intro d mem
    cases mem

private theorem backs_commit {db db' : Database} {L : Ledger HandlerEnvelope DeliveryStatus}
    {new : List HandlerDelivery} (backs : Backs db L)
    (rows : db'.handlerDeliveries.rows = db.handlerDeliveries.rows ++ new)
    (live : ∀ d ∈ new, d.status.isTerminal = false)
    (fresh : ∀ d ∈ new, d.envelope ∉ L.keys) :
    ∃ M, (ledger HandlerEnvelope DeliveryStatus).run L
        ((new.map HandlerDelivery.envelope).map .enter) = some M ∧
      M.keys = L.keys ++ new.map HandlerDelivery.envelope ∧ Backs db' M := by
  have nodup : (new.map HandlerDelivery.envelope).Nodup := by
    have all := Table.keys_nodup deliveries_separates_envelope db'.handlerDeliveries
    rw [rows, List.map_append] at all
    exact (List.nodup_append.mp all).2.1
  have unknown : ∀ k ∈ new.map HandlerDelivery.envelope, k ∉ L.keys := by
    intro k mem
    obtain ⟨d, stored, rfl⟩ := List.mem_map.mp mem
    exact fresh d stored
  obtain ⟨M, run, entries⟩ := enter_run (ν := DeliveryStatus) nodup unknown
  refine ⟨M, run, ?_, ?_, ?_⟩
  · have posted : (List.map (fun k => (k, (none : Option DeliveryStatus)))
        (new.map HandlerDelivery.envelope)).map Prod.fst = new.map HandlerDelivery.envelope := by
      rw [List.map_map]
      exact List.map_id _
    unfold Ledger.keys
    rw [entries, List.map_append, posted]
  · intro k
    rw [mem_owed, entries, List.mem_append, ← mem_owed, backs.owed, rows]
    constructor
    · rintro (⟨r, stored, facts⟩ | entered)
      · exact ⟨r, List.mem_append_left _ stored, facts⟩
      · obtain ⟨j, mem, same⟩ := List.mem_map.mp entered
        cases same
        obtain ⟨d, stored, own⟩ := List.mem_map.mp mem
        exact ⟨d, List.mem_append_right _ stored, own, live d stored⟩
    · rintro ⟨r, stored, rfl, open_⟩
      rcases List.mem_append.mp stored with old | young
      · exact .inl ⟨r, old, rfl, open_⟩
      · right
        exact List.mem_map_of_mem (List.mem_map_of_mem young)
  · intro r stored terminal
    rw [rows] at stored
    rw [entries]
    rcases List.mem_append.mp stored with old | young
    · exact List.mem_append_left _ (backs.closed r old terminal)
    · rw [live r young] at terminal
      cases terminal

/-- The simulation relation between the system and the ledger. -/
structure Matches (s : SystemState) (L : Ledger HandlerEnvelope DeliveryStatus) : Prop where
  guarded : Guarded s
  backs : Backs s.db L
  used : ∀ k ∈ L.keys, k.eventId ∈ s.used

private theorem matches_start : Matches SystemState.start Ledger.empty := by
  refine ⟨guarded_start, ⟨?_, ?_⟩, ?_⟩
  · intro k
    constructor
    · intro owed
      cases owed
    · rintro ⟨r, stored, -⟩
      cases stored
  · intro r stored
    cases stored
  · intro k mem
    cases mem

section Steps

variable {s t : SystemState} {a : SystemLabel} {L : Ledger HandlerEnvelope DeliveryStatus}

/-- The step is a run of the ledger, which the tables agree with afterwards. -/
def Posts (s : SystemState) (a : SystemLabel) (t : SystemState)
    (L : Ledger HandlerEnvelope DeliveryStatus) : Prop :=
  ∃ M, (ledger HandlerEnvelope DeliveryStatus).run L (postings s a t) = some M ∧ Matches t M

private theorem posts_settled (matched : Matches s L) (guarded : Guarded t)
    (keeps : ∀ d ∈ s.db.handlerDeliveries.rows, d.status.isTerminal = false →
      ∃ d' ∈ t.db.handlerDeliveries.rows, d'.envelope = d.envelope)
    (origin : ∀ d' ∈ t.db.handlerDeliveries.rows, ∃ d ∈ s.db.handlerDeliveries.rows,
      d.envelope = d'.envelope ∧ (d.status.isTerminal = true → d = d'))
    (used : t.used = s.used)
    (posted : postings s a t = (closings s.db t.db).map fun kv => .settle kv.1 kv.2) :
    Posts s a t L := by
  -- Steps other than a commit generate no id, and leave the ledger's keys as they are.
  obtain ⟨M, run, keys, backs⟩ := backs_closings matched.backs keeps origin
  refine ⟨M, posted ▸ run, guarded, backs, ?_⟩
  rw [keys, used]
  exact matched.used

private theorem posts_idle (matched : Matches s L) (guarded : Guarded t) (same : t.db = s.db)
    (used : t.used = s.used)
    (posted : postings s a t = (closings s.db t.db).map fun kv => .settle kv.1 kv.2) :
    Posts s a t L := by
  refine posts_settled matched guarded ?_ ?_ used posted
  · intro d stored _
    rw [same]
    exact ⟨d, stored, rfl⟩
  · intro d stored
    rw [same] at stored
    exact ⟨d, stored, rfl, fun _ => rfl⟩

private theorem posts_work {b : WorkerLabel} {w : WorkerState} (matched : Matches s L)
    (guarded : Guarded { s with workers := w }) (step : Step s.workers b w) :
    Posts s (.work b) { s with workers := w } L := by
  refine posts_settled matched guarded ?_ ?_ rfl rfl
  · intro d stored _
    obtain ⟨d', stored', -, same⟩ := work_keeps step stored
    exact ⟨d', stored', same⟩
  · intro d' stored'
    obtain ⟨d, stored, same, -⟩ := row_origin step stored'
    refine ⟨d, stored, same, ?_⟩
    intro terminal
    have before : s.workers.db.delivery? d'.envelope = some d := same ▸ delivery?_of_mem stored
    have after : w.db.delivery? d'.envelope = some d' := delivery?_of_mem stored'
    have closed : (s.workers.db.delivery? d'.envelope).all (·.status.isTerminal) = true := by
      rw [before]
      exact terminal
    have left := closed_row step closed
    rw [before, after] at left
    exact (Option.some.inj left).symm

private theorem posts_delete {p : ℕ} {reply : Reply} {call : PurgeCall} {victims : Victims}
    (matched : Matches s L) (guarded : Guarded (s.deleted p call victims reply))
    (found : s.purges[p]? = some call) (phase : call.phase = .deleting victims) :
    Posts s (.delete p reply) (s.deleted p call victims reply) L := by
  rcases after_delete victims s.db reply with same | gone
  · exact posts_idle matched guarded same rfl rfl
  · have harmless := matched.guarded.pending call (List.mem_of_getElem? found) victims phase
    have after : (s.deleted p call victims reply).db = victims.delete s.db := gone
    refine posts_settled matched guarded ?_ ?_ rfl rfl
    · intro d stored live
      rw [after]
      exact ⟨d, (delete_spares harmless).2 d stored live, rfl⟩
    · intro d stored
      rw [after] at stored
      exact ⟨d, delete_subset stored, rfl, fun _ => rfl⟩

private theorem owedBy_event {cs : List Call} {db : Database} {k : HandlerEnvelope}
    (owed : k ∈ owedBy (creations cs db)) : k.eventId ∈ cs.map Call.eventId := by
  obtain ⟨c, created, handler⟩ := List.mem_flatMap.mp owed
  obtain ⟨h, -, rfl⟩ := List.mem_map.mp handler
  exact (creations_ids cs db).subset (List.mem_map_of_mem created)

private theorem posts_commit {tx : Transaction} (matched : Matches s L)
    (guarded : Guarded (s.transacted tx))
    (fresh : ∀ eventId ∈ s.used, eventId ∉ tx.calls.map Call.eventId)
    (commits : commitsOn tx s.db = true) : Posts s (.transact tx) (s.transacted tx) L := by
  obtain ⟨new, rows, envelopes, live⟩ := dispatchAll_rows (commitsOn_ok commits)
  have after : (s.transacted tx).db = (dispatchAll tx.calls s.db).1 := by
    change tx.execute s.db = _
    rw [execute_eq, commits]
    rfl
  have young : ∀ d ∈ new, d.eventId ∈ tx.calls.map Call.eventId := by
    intro d mem
    have owed : d.envelope ∈ owedBy (creations tx.calls s.db) := by
      rw [← envelopes]
      exact List.mem_map_of_mem mem
    exact owedBy_event owed
  have unknown : ∀ d ∈ new, d.envelope ∉ L.keys := by
    intro d mem known
    exact fresh d.eventId (matched.used d.envelope known) (young d mem)
  obtain ⟨M, run, keys, backs⟩ := backs_commit matched.backs rows live unknown
  have posted : postings s (.transact tx) (s.transacted tx) =
      (new.map HandlerDelivery.envelope).map .enter := by
    simp only [postings, persisted, commits, envelopes]
    rfl
  refine ⟨M, ?_, guarded, ?_, ?_⟩
  · rw [posted]
    exact run
  · rw [after]
    exact backs
  · intro k mem
    rw [keys] at mem
    rcases List.mem_append.mp mem with old | entered
    · exact List.mem_append_left _ (matched.used k old)
    · obtain ⟨d, stored, rfl⟩ := List.mem_map.mp entered
      exact List.mem_append_right _ (young d stored)

private theorem posts_rollback {tx : Transaction} (matched : Matches s L)
    (guarded : Guarded (s.transacted tx)) (fails : commitsOn tx s.db = false) :
    Posts s (.transact tx) (s.transacted tx) L := by
  have same : (s.transacted tx).db = s.db := by
    change tx.execute s.db = s.db
    rw [execute_eq, fails]
    rfl
  have silent : postings s (.transact tx) (s.transacted tx) = [] := by
    simp only [postings, persisted, fails]
    rfl
  refine ⟨L, ?_, guarded, ?_, ?_⟩
  · rw [silent]
    rfl
  · rw [same]
    exact matched.backs
  · intro k mem
    exact List.mem_append_left _ (matched.used k mem)

private theorem matches_step (matched : Matches s L) (taken : system.step s a = some t) :
    Posts s a t L := by
  have guarded := guarded_step matched.guarded taken
  cases systemStep_sound taken with
  | purge kind cutoff => exact posts_idle matched guarded rfl rfl rfl
  | select p victims call found kind chosen => exact posts_idle matched guarded rfl rfl rfl
  | work b w step => exact posts_work matched guarded (step_sound step)
  | delete p reply call victims found phase => exact posts_delete matched guarded found phase
  | transact tx nodup fresh =>
    cases commits : commitsOn tx s.db with
    | false => exact posts_rollback matched guarded commits
    | true => exact posts_commit matched guarded fresh commits

end Steps

/-- The ledger of a run. -/
def account (as : List SystemLabel) : List (Posting HandlerEnvelope DeliveryStatus) :=
  system.record postings SystemState.start as

private theorem matches_run {as : List SystemLabel} {s : SystemState}
    (reached : system.run SystemState.start as = some s) :
    ∃ L, (ledger HandlerEnvelope DeliveryStatus).run .empty (account as) = some L ∧
      Matches s L := by
  refine Machine.record_simulates (R := Matches) ?_ matches_start reached
  intro s a t L matched taken
  exact matches_step matched taken

private theorem entered_append (ps qs : List (Posting HandlerEnvelope DeliveryStatus)) :
    entered (ps ++ qs) = entered ps ++ entered qs :=
  List.filterMap_append

private theorem entered_enter (ks : List HandlerEnvelope) :
    entered (ks.map (Posting.enter : _ → Posting HandlerEnvelope DeliveryStatus)) = ks := by
  induction ks with
  | nil => rfl
  | cons k ks ih =>
    rw [List.map_cons]
    change k :: entered _ = k :: ks
    rw [ih]

private theorem entered_settle (kvs : List (HandlerEnvelope × DeliveryStatus)) :
    entered (kvs.map fun kv => .settle kv.1 kv.2) = [] := by
  induction kvs with
  | nil => rfl
  | cons kv kvs ih =>
    rw [List.map_cons]
    exact ih

private theorem entered_postings (s : SystemState) (a : SystemLabel) (t : SystemState) :
    entered (postings s a t) = owedBy (persisted s a t) := by
  cases a with
  | transact tx => exact entered_enter _
  | work a => exact entered_settle _
  | purge kind cutoff => exact entered_settle _
  | select p victims => exact entered_settle _
  | delete p reply => exact entered_settle _

private theorem entered_account (s : SystemState) (as : List SystemLabel) :
    entered (system.record postings s as) = owedBy (system.record persisted s as) := by
  induction as generalizing s with
  | nil => rfl
  | cons a as ih =>
    cases step : system.step s a with
    | none =>
      unfold Machine.record
      rw [step]
      rfl
    | some t =>
      rw [Machine.record_cons step, Machine.record_cons step, entered_append, entered_postings, ih]
      exact List.flatMap_append.symm

/-- The books of a run: the ledger that its postings lead to, and the tables beside it. -/
structure Balanced (as : List SystemLabel) (s : SystemState)
    (L : Ledger HandlerEnvelope DeliveryStatus) : Prop where
  /-- The postings are legal: nothing is entered twice, nothing is settled that is not open. -/
  posted : (ledger HandlerEnvelope DeliveryStatus).run .empty (account as) = some L
  /-- The ledger knows exactly the deliveries of the committed calls. -/
  keys : L.keys = owedBy (chronicle as)
  owed : ∀ k, k ∈ L.owed ↔ ∃ r, s.db.delivery? k = some r ∧ r.status.isTerminal = false
  verdicts : ∀ k v, (k, some v) ∈ L.entries →
    s.db.delivery? k = none ∨ ∃ r, s.db.delivery? k = some r ∧ r.status = v

private theorem balanced_of_matches {as : List SystemLabel} {s : SystemState}
    {L : Ledger HandlerEnvelope DeliveryStatus}
    (posted : (ledger HandlerEnvelope DeliveryStatus).run .empty (account as) = some L)
    (matched : Matches s L) : Balanced as s L := by
  refine ⟨posted, ?_, ?_, ?_⟩
  · rw [keys_run posted]
    exact entered_account SystemState.start as
  · intro k
    rw [matched.backs.owed k]
    constructor
    · rintro ⟨r, stored, rfl, live⟩
      exact ⟨r, delivery?_of_mem stored, live⟩
    · rintro ⟨r, found, live⟩
      exact ⟨r, (delivery?_mem found).1, (delivery?_mem found).2, live⟩
  · intro k v stored
    cases found : s.db.delivery? k with
    | none => exact .inl rfl
    | some r =>
      obtain ⟨row, own⟩ := delivery?_mem found
      refine .inr ⟨r, rfl, ?_⟩
      cases terminal : r.status.isTerminal with
      | false =>
        have open_ := mem_owed.mp ((matched.backs.owed k).mpr ⟨r, row, own, terminal⟩)
        cases entry_unique open_ stored
      | true =>
        have shown := matched.backs.closed r row terminal
        rw [own] at shown
        exact Option.some.inj (entry_unique shown stored)

/-- No delivery is lost and none is counted twice: every run of the system, purges and crashes
included, is a run of the ledger whose obligations are the deliveries of the committed calls.
What is owed has an open row; what was settled has the verdict, or a purge took its row. -/
theorem no_delivery_is_lost {as : List SystemLabel} {s : SystemState}
    (reached : system.run SystemState.start as = some s) : ∃ L, Balanced as s L := by
  obtain ⟨L, posted, matched⟩ := matches_run reached
  exact ⟨L, balanced_of_matches posted matched⟩

theorem no_delivery_is_lost_delivered :
    ∃ s L, system.run SystemState.start delivered = some s ∧ Balanced delivered s L := by
  have runs : (system.run SystemState.start delivered).isSome = true := by decide
  obtain ⟨s, reached⟩ := Option.isSome_iff_exists.mp runs
  obtain ⟨L, balanced⟩ := no_delivery_is_lost reached
  exact ⟨s, L, reached, balanced⟩

/-- What the application has been told of the calls that a step commits. -/
def outcomes (s : SystemState) : SystemLabel → SystemState → List DispatchOutcome
  | .transact tx, _ =>
    if commitsOn tx s.db then (dispatchAll tx.calls s.db).2.filterMap Except.toOption else []
  | _, _ => []

private theorem owedBy_length (calls : List Call) :
    (owedBy calls).length = (calls.map fun c => (fanOut c).length).sum := by
  unfold owedBy
  rw [List.length_flatMap]
  simp only [List.length_map]

private theorem promised_owed {cs : List Call} {db : Database}
    (ok : (dispatchAll cs db).2.all Except.isOk = true) :
    (((dispatchAll cs db).2.filterMap Except.toOption).map promised).sum =
      (owedBy (creations cs db)).length := by
  rw [owedBy_length]
  induction cs generalizing db with
  | nil => rfl
  | cons c cs ih =>
    simp only [Model.Dispatch.dispatchAll, List.all_cons, Bool.and_eq_true] at ok
    obtain ⟨first, rest⟩ := ok
    have later := ih rest
    cases result : (dispatch c db).2 with
    | error e =>
      rw [result] at first
      cases first
    | ok outcome =>
      have told : (((dispatchAll (c :: cs) db).2.filterMap Except.toOption).map promised).sum =
          promised outcome + (((dispatchAll cs (dispatch c db).1).2.filterMap
            Except.toOption).map promised).sum := by
        simp only [Model.Dispatch.dispatchAll, result, List.filterMap_cons, Except.toOption,
          List.map_cons, List.sum_cons]
      rw [told, later]
      rcases dispatch_ok result with ⟨quiet, zero, -⟩ | ⟨creates, -, count, -⟩
      · rw [zero, Nat.zero_add]
        simp only [creations, result, quiet]
        rfl
      · rw [count]
        simp only [creations, result, creates]
        rfl

private theorem promised_account (s : SystemState) (as : List SystemLabel) :
    ((system.record outcomes s as).map promised).sum =
      (owedBy (system.record persisted s as)).length := by
  induction as generalizing s with
  | nil => rfl
  | cons a as ih =>
    cases step : system.step s a with
    | none =>
      unfold Machine.record
      rw [step]
      rfl
    | some t =>
      have here : ((outcomes s a t).map promised).sum = (owedBy (persisted s a t)).length := by
        cases a with
        | transact tx =>
          simp only [outcomes, persisted]
          split
          · next commits => exact promised_owed (commitsOn_ok commits)
          · rfl
        | work a => rfl
        | purge kind cutoff => rfl
        | select p victims => rfl
        | delete p reply => rfl
      have split : owedBy (persisted s a t ++ system.record persisted t as) =
          owedBy (persisted s a t) ++ owedBy (system.record persisted t as) := List.flatMap_append
      rw [Machine.record_cons step, Machine.record_cons step, List.map_append, List.sum_append,
        split, List.length_append, here, ih]

private theorem pendingCount_owed {db : Database} {L : Ledger HandlerEnvelope DeliveryStatus}
    (backs : Backs db L) : pendingCount db = L.owed.length := by
  have counted : (fun hd : HandlerDelivery =>
      (hd.status = .queued || hd.status = .running || hd.status = .awaitingRetry : Bool)) =
      fun hd => !hd.status.isTerminal := by
    funext hd
    cases hd.status <;> rfl
  have perm : (((db.handlerDeliveries.rows.filter fun hd => !hd.status.isTerminal).map
      HandlerDelivery.envelope)).Perm L.owed := by
    have nodup : ((db.handlerDeliveries.rows.filter fun hd => !hd.status.isTerminal).map
        HandlerDelivery.envelope).Nodup :=
      (Table.keys_nodup deliveries_separates_envelope db.handlerDeliveries).sublist
        (List.filter_sublist.map HandlerDelivery.envelope)
    apply (List.perm_ext_iff_of_nodup nodup (owed_nodup L)).mpr
    intro k
    rw [backs.owed, List.mem_map]
    constructor
    · rintro ⟨r, mem, rfl⟩
      obtain ⟨stored, live⟩ := List.mem_filter.mp mem
      exact ⟨r, stored, rfl, by simpa using live⟩
    · rintro ⟨r, stored, rfl, live⟩
      exact ⟨r, List.mem_filter.mpr ⟨stored, by simp [live]⟩, rfl⟩
  unfold pendingCount
  rw [counted, List.countP_eq_length_filter, ← perm.length_eq, List.length_map]

/-- The answer of the count query is there within the budget. -/
def arrives (budget : Duration) : CountReply → Bool
  | .answered after => after ≤ budget
  | _ => false

private theorem pendingOf_timedCount (budget : Duration) (db : Database) (reply : CountReply) :
    pendingOf (timedCount budget db reply) =
      if arrives budget reply then (pendingCount db).toNat else 0 := by
  cases reply with
  | answered after =>
    simp only [timedCount, arrives, decide_eq_true_eq]
    split <;> rfl
  | failed e after =>
    simp only [timedCount, arrives]
    split <;> rfl
  | hangs => rfl

/-- Shutdown reports what is owed: in every state of every run, `pending_deliveries` is the sum
of the `deliveries` that committed dispatches reported, less the deliveries that have ended,
whenever the count query is answered within its budget. Otherwise it is 0, and only a failed
drain makes the call fail. -/
theorem shutdown_reports_what_is_owed {ε σ : Type} {as : List SystemLabel} {s : SystemState}
    (reached : system.run SystemState.start as = some s) (timeout : Duration) (drain : Drain ε σ)
    (reply : CountReply) :
    ∃ pending, pending + (settled (account as)).length =
        ((system.record outcomes SystemState.start as).map promised).sum ∧
      shutdown timeout drain reply s.db =
        match drain.result with
        | .error e => .error (.pgwq e)
        | .ok stats => .ok (stats, ⟨if arrives (max (timeout - drain.elapsed) 500000000) reply
            then pending else 0⟩) := by
  obtain ⟨L, posted, matched⟩ := matches_run reached
  have balance := owed_balance posted
  have told := promised_account SystemState.start as
  have entered_ := congrArg List.length (entered_account SystemState.start as)
  have none : (Ledger.empty : Ledger HandlerEnvelope DeliveryStatus).owed.length = 0 := rfl
  refine ⟨L.owed.length, ?_, ?_⟩
  · rw [none, Nat.zero_add] at balance
    rw [balance, told, ← entered_]
    rfl
  · unfold shutdown
    cases drain.result with
    | error e => rfl
    | ok stats =>
      have budget : remaining timeout drain.elapsed = max (timeout - drain.elapsed) 500000000 := rfl
      have count := pendingCount_owed matched.backs
      simp only [budget, pendingOf_timedCount, count, Int.toNat_natCast]

theorem shutdown_reports_what_is_owed_delivered :
    ∃ s pending, system.run SystemState.start delivered = some s ∧
      pending + (settled (account delivered)).length =
        ((system.record outcomes SystemState.start delivered).map promised).sum ∧
      shutdown (ε := Unit) 1000000000 ⟨.ok (), 0⟩ (.answered 2000000) s.db =
        .ok ((), ⟨pending⟩) := by
  have runs : (system.run SystemState.start delivered).isSome = true := by decide
  obtain ⟨s, reached⟩ := Option.isSome_iff_exists.mp runs
  obtain ⟨pending, balance, told⟩ := shutdown_reports_what_is_owed (ε := Unit) reached 1000000000
    ⟨.ok (), 0⟩ (.answered 2000000)
  exact ⟨s, pending, reached, balance, told⟩

end RustEvents.System.Accounts
