/- module: RustEvents/Dispatch/Traces
   layer: system
   source: src/outbox.rs (Outbox::dispatch), migrations/20260513000001_v01_outbox_init.sql
   digest: In every interleaving, a transaction has written exactly what its returned calls and the call in progress planned. -/

import RustEvents.Dispatch.Ownership
import RustEvents.Dispatch.Tenants
import Mathlib.Algebra.Order.Group.Multiset

set_option autoImplicit false
set_option relaxedAutoImplicit false

namespace RustEvents.Dispatch.Traces

open RustEvents.Foundation.IndexedTable (Table)
open RustEvents.Foundation.LabelledRuns (Machine)
open RustEvents.Model.Text
open RustEvents.Model.Errors
open RustEvents.Model.Schema
open RustEvents.Model.Builder
open RustEvents.Model.Dispatch
open RustEvents.Dispatch.Effects
open RustEvents.Dispatch.Fanout
open RustEvents.Dispatch.Plans
open RustEvents.Dispatch.Tenants (plan_own)
open RustEvents.Dispatch.Concurrent
open RustEvents.Dispatch.Ownership

/-- One row of the three tables, or one job of the queue. -/
inductive Row where
  | key (k : DispatchKeyRow)
  | event (e : EventRow)
  | delivery (d : HandlerDelivery)
  | job (j : Job)

def Row.eventId : Row → Uuid
  | .key k => k.eventId
  | .event e => e.id
  | .delivery d => d.eventId
  | .job j => j.envelope.eventId

/-- A delivery without its identity value, which depends on who inserted first. -/
def unnumbered (d : HandlerDelivery) : Row := .delivery { d with id := 0 }

def bundle (keys : List DispatchKeyRow) (events : List EventRow)
    (deliveries : List HandlerDelivery) (jobs : List Job) : Multiset Row :=
  ↑(keys.map Row.key) + ↑(events.map Row.event) + ↑(deliveries.map unnumbered) +
    ↑(jobs.map Row.job)

/-- The contents of a database, in no order. -/
def rowsOf (db : Database) : Multiset Row :=
  bundle db.dispatchKeys.rows db.events.rows db.handlerDeliveries.rows db.jobs

/-- The rows that a plan appends. -/
def planRows (c : Call) (p : Plan) : Multiset Row :=
  bundle p.keys p.events (Database.queuedRows c.eventId c.now 0 p.handlers) p.jobs

private theorem bundle_append (keys keys' : List DispatchKeyRow) (events events' : List EventRow)
    (deliveries deliveries' : List HandlerDelivery) (jobs jobs' : List Job) :
    bundle (keys ++ keys') (events ++ events') (deliveries ++ deliveries') (jobs ++ jobs') =
      bundle keys events deliveries jobs + bundle keys' events' deliveries' jobs' := by
  unfold bundle
  simp only [List.map_append, ← Multiset.coe_add]
  ac_rfl

private theorem unnumbered_queued (eventId : Uuid) (now : Timestamp) (m n : ℕ) (hs : List String) :
    (Database.queuedRows eventId now m hs).map unnumbered =
      (Database.queuedRows eventId now n hs).map unnumbered := by
  induction hs generalizing m n with
  | nil => rfl
  | cons h hs ih =>
    have rest := ih (m + 1) (n + 1)
    change unnumbered _ :: _ = unnumbered _ :: _
    rw [rest]
    rfl

theorem mem_bundle {keys : List DispatchKeyRow} {events : List EventRow}
    {deliveries : List HandlerDelivery} {jobs : List Job} {r : Row} :
    r ∈ bundle keys events deliveries jobs ↔
      (∃ k ∈ keys, .key k = r) ∨ (∃ e ∈ events, .event e = r) ∨
        (∃ d ∈ deliveries, unnumbered d = r) ∨ ∃ j ∈ jobs, .job j = r := by
  unfold bundle
  simp only [Multiset.mem_add, Multiset.mem_coe, List.mem_map, or_assoc]

theorem key_mem {db : Database} {k : DispatchKeyRow} :
    Row.key k ∈ rowsOf db ↔ k ∈ db.dispatchKeys.rows := by
  unfold rowsOf
  rw [mem_bundle]
  constructor
  · rintro (⟨k', stored, same⟩ | ⟨e, -, wrong⟩ | ⟨d, -, wrong⟩ | ⟨j, -, wrong⟩)
    · cases same
      exact stored
    · cases wrong
    · cases wrong
    · cases wrong
  · intro stored
    exact .inl ⟨k, stored, rfl⟩

theorem event_mem {db : Database} {e : EventRow} :
    Row.event e ∈ rowsOf db ↔ e ∈ db.events.rows := by
  unfold rowsOf
  rw [mem_bundle]
  constructor
  · rintro (⟨k, -, wrong⟩ | ⟨e', stored, same⟩ | ⟨d, -, wrong⟩ | ⟨j, -, wrong⟩)
    · cases wrong
    · cases same
      exact stored
    · cases wrong
    · cases wrong
  · intro stored
    exact .inr (.inl ⟨e, stored, rfl⟩)

theorem bundle_filter (keep : Uuid → Bool) (keys : List DispatchKeyRow) (events : List EventRow)
    (deliveries : List HandlerDelivery) (jobs : List Job) :
    ((bundle keys events deliveries jobs).filter fun r => keep r.eventId) =
      bundle (keys.filter fun k => keep k.eventId) (events.filter fun e => keep e.id)
        (deliveries.filter fun d => keep d.eventId)
        (jobs.filter fun j => keep j.envelope.eventId) := by
  unfold bundle
  simp only [Multiset.filter_add, Multiset.filter_coe, List.filter_map, Bool.decide_eq_true]
  rfl

private theorem rowsOf_retract (hit : Uuid → Bool) (db : Database) :
    rowsOf (retract hit db) = (rowsOf db).filter fun r => !hit r.eventId :=
  (bundle_filter (fun eventId => !hit eventId) _ _ _ _).symm

theorem rowsOf_appended {c : Call} {p : Plan} {db db' : Database} (appended : Appended c p db db') :
    rowsOf db' = rowsOf db + planRows c p := by
  unfold rowsOf planRows
  rw [appended.keys, appended.events, appended.deliveries, appended.jobs, bundle_append]
  unfold bundle
  rw [unnumbered_queued c.eventId c.now db.nextDeliveryId 0]

private theorem rowsOf_reserves {c : Call} {db db' : Database} (reserves : Reserves c db db') :
    rowsOf db' = rowsOf db + bundle (keyRow c).toList [] [] [] := by
  unfold rowsOf
  rw [← bundle_append, reserves.keys, reserves.events, reserves.deliveries, reserves.jobs]
  simp only [List.append_nil]

private theorem rowsOf_inserts {c : Call} {payload : Bytes} {handlerIds : List String}
    {db db' : Database} (inserts : Inserts c payload handlerIds db db') :
    rowsOf db' = rowsOf db + bundle [] [eventRow c payload]
      (Database.queuedRows c.eventId c.now 0 handlerIds) [] := by
  unfold rowsOf
  rw [inserts.keys, inserts.events, inserts.deliveries, inserts.jobs]
  have split := bundle_append db.dispatchKeys.rows [] db.events.rows [eventRow c payload]
    db.handlerDeliveries.rows (Database.queuedRows c.eventId c.now db.nextDeliveryId handlerIds)
    db.jobs []
  rw [List.append_nil, List.append_nil] at split
  rw [split]
  unfold bundle
  rw [unnumbered_queued c.eventId c.now db.nextDeliveryId 0]

private theorem rowsOf_pushed (db : Database) (jobs : List Job) :
    rowsOf (db.pushJobs jobs) = rowsOf db + bundle [] [] [] jobs := by
  have split := bundle_append db.dispatchKeys.rows [] db.events.rows [] db.handlerDeliveries.rows []
    db.jobs jobs
  rw [List.append_nil, List.append_nil, List.append_nil] at split
  exact split

theorem planRows_eventId {c : Call} {known : Option Uuid} {r : Row}
    (mem : r ∈ planRows c (plan c known)) : r.eventId = c.eventId := by
  have own := plan_own c known
  rcases mem_bundle.mp mem with ⟨k, stored, rfl⟩ | ⟨e, stored, rfl⟩ | ⟨d, stored, rfl⟩ |
    ⟨j, stored, rfl⟩
  · exact (own.keys k stored).1
  · exact (own.events e stored).1
  · exact (Database.queuedRows_spec stored).1
  · exact own.jobs j stored

/-- The event that a returned call named in place of its own. -/
def Entry.named (x : Entry) : Option Uuid :=
  match x.result with
  | .ok (.duplicate eventId) => some eventId
  | _ => none

/-- The rows of a returned call. -/
def Entry.rows (x : Entry) : Multiset Row := planRows x.call (plan x.call (Entry.named x))

/-- The rows of the returned calls of a transaction. -/
def written (t : ℕ) : List Entry → Multiset Row
  | [] => 0
  | x :: older => (if x.tx = t then Entry.rows x else 0) + written t older

/-- What the last statement of a call is going to do. -/
def pushPlan (c : Call) (payload : Bytes) (handlerIds : List String) : Plan :=
  match c.faults.push with
  | some e => ⟨.error (.pgwqPush e), (keyRow c).toList, [eventRow c payload], handlerIds, []⟩
  | none => ⟨.ok (.dispatched c.eventId handlerIds.length), (keyRow c).toList,
      [eventRow c payload], handlerIds, handlerIds.map (jobFor c)⟩

/-- The rows that a call in progress has left so far. -/
def Progress.rows : Progress → Multiset Row
  | .idle => 0
  | .reserving _ => 0
  | .inserting c _ _ => bundle (keyRow c).toList [] [] []
  | .pushing c handlerIds => bundle (keyRow c).toList
      ((prepare c).toOption.toList.map fun passed => eventRow c passed.1)
      (Database.queuedRows c.eventId c.now 0 handlerIds) []

/-- A call in progress is about to do the rest of its plan. -/
def Progress.Planned : Progress → Prop
  | .idle => True
  | .reserving _ => True
  | .inserting c payload handlerIds => prepare c = .ok (payload, handlerIds) ∧
      plan c none = writePlan c payload handlerIds (keyRow c).toList
  | .pushing c handlerIds => ∃ payload, prepare c = .ok (payload, handlerIds) ∧
      plan c none = pushPlan c payload handlerIds

/-- Where the key row stood that a returned call met: an earlier call of the same transaction
had written it, or a committed transaction. -/
def Source (s : Server) (x : Entry) (older : List Entry) : Prop :=
  ∀ eventId, x.result = .ok (.duplicate eventId) → ∃ k : DispatchKeyRow,
    x.call.key = some k.key ∧ k.eventId = eventId ∧ (Row.key k ∈ written x.tx older ∨
      Row.key k ∈ rowsOf s.heap ∧ ∃ u, (eventId, u) ∈ s.owners ∧ s.status u = some .committed)

def Sourced (s : Server) : List Entry → Prop
  | [] => True
  | x :: older => Source s x older ∧ Sourced s older

structure Traced (s : Server) : Prop where
  owned : ∀ r ∈ rowsOf s.heap, ∃ t, (r.eventId, t) ∈ s.owners
  told : ∀ x ∈ s.log, x.result = (plan x.call (Entry.named x)).result
  planned : ∀ (t : ℕ) (tx : TxState), s.txs[t]? = some tx → Progress.Planned tx.progress
  rows : ∀ (t : ℕ) (tx : TxState), s.txs[t]? = some tx → tx.status ≠ .rolledBack →
    ((rowsOf s.heap).filter fun r => s.owns t r.eventId) =
      written t s.log + Progress.rows tx.progress
  sourced : Sourced s s.log

theorem traced_start : Traced Server.start := by
  refine ⟨?_, ?_, ?_, ?_, trivial⟩
  · intro r mem
    cases Multiset.notMem_zero r mem
  · intro x mem
    cases mem
  · intro t tx found
    cases found
  · intro t tx found
    cases found

theorem mem_written {t : ℕ} {log : List Entry} {r : Row} (mem : r ∈ written t log) :
    ∃ x ∈ log, x.tx = t ∧ r ∈ Entry.rows x := by
  induction log with
  | nil => cases Multiset.notMem_zero r mem
  | cons x older ih =>
    rcases Multiset.mem_add.mp mem with here | later
    · by_cases own : x.tx = t
      · rw [if_pos own] at here
        exact ⟨x, List.mem_cons_self, own, here⟩
      · rw [if_neg own] at here
        cases Multiset.notMem_zero r here
    · obtain ⟨y, logged, own, row⟩ := ih later
      exact ⟨y, List.mem_cons_of_mem x logged, own, row⟩

private theorem written_foreign {t : ℕ} {log : List Entry} (foreign : ∀ x ∈ log, x.tx ≠ t) :
    written t log = 0 := by
  induction log with
  | nil => rfl
  | cons x older ih =>
    have later := ih fun y logged => foreign y (List.mem_cons_of_mem x logged)
    unfold written
    rw [if_neg (foreign x List.mem_cons_self), later]
    rfl

theorem written_own {t : ℕ} {x : Entry} (own : x.tx = t) (log : List Entry) :
    written t (x :: log) = Entry.rows x + written t log := by
  change (if x.tx = t then Entry.rows x else 0) + written t log = _
  rw [if_pos own]

theorem written_other {t : ℕ} {x : Entry} (other : x.tx ≠ t) (log : List Entry) :
    written t (x :: log) = written t log := by
  change (if x.tx = t then Entry.rows x else 0) + written t log = _
  rw [if_neg other, Multiset.zero_add]

private theorem Sourced.mono {s s' : Server} {log : List Entry} (sourced : Sourced s log)
    (keeps : ∀ k u, Row.key k ∈ rowsOf s.heap → (k.eventId, u) ∈ s.owners →
      s.status u = some .committed → Row.key k ∈ rowsOf s'.heap ∧ (k.eventId, u) ∈ s'.owners ∧
        s'.status u = some .committed) : Sourced s' log := by
  induction log with
  | nil => trivial
  | cons x older ih =>
    obtain ⟨here, later⟩ := sourced
    refine ⟨?_, ih later⟩
    intro eventId result
    obtain ⟨k, keyed, same, place⟩ := here eventId result
    refine ⟨k, keyed, same, ?_⟩
    rcases place with earlier | ⟨row, u, own, committed⟩
    · exact .inl earlier
    · subst same
      obtain ⟨row', own', committed'⟩ := keeps k u row own committed
      exact .inr ⟨row', u, own', committed'⟩

private theorem unused_reserving {s : Server} (inv : Inv s) (traced : Traced s) {t : ℕ} {c : Call}
    (stage : s.txs[t]? = some ⟨.active, .reserving c⟩) : Unused c.eventId s.heap := by
  have pend := inv.pending t _ c stage rfl
  have free : ∀ r ∈ rowsOf s.heap, r.eventId ≠ c.eventId := by
    intro r mem same
    have own : s.owns t r.eventId = true := by
      unfold Server.owns
      rw [decide_eq_true_eq, same]
      exact pend.own
    have mine : r ∈ (rowsOf s.heap).filter fun r => s.owns t r.eventId :=
      Multiset.mem_filter.mpr ⟨mem, own⟩
    rw [traced.rows t _ stage (by simp)] at mine
    change r ∈ written t s.log + 0 at mine
    rw [add_zero] at mine
    obtain ⟨x, logged, -, row⟩ := mem_written mine
    exact pend.unlogged x logged ((planRows_eventId row).symm.trans same)
  refine ⟨?_, ?_⟩
  · intro e stored
    exact free (.event e) (event_mem.mpr stored)
  · intro k stored
    exact free (.key k) (key_mem.mpr stored)

private theorem unused_inserting {s : Server} (inv : Inv s) (traced : Traced s) {t : ℕ} {c : Call}
    {payload : Bytes} {handlerIds : List String}
    (stage : s.txs[t]? = some ⟨.active, .inserting c payload handlerIds⟩) :
    ∀ e ∈ s.heap.events.rows, e.id ≠ c.eventId := by
  have pend := inv.pending t _ c stage rfl
  intro e stored same
  have own : s.owns t (Row.event e).eventId = true := by
    unfold Server.owns
    rw [decide_eq_true_eq]
    change (e.id, t) ∈ s.owners
    rw [same]
    exact pend.own
  have mine : Row.event e ∈ (rowsOf s.heap).filter fun r => s.owns t r.eventId :=
    Multiset.mem_filter.mpr ⟨event_mem.mpr stored, own⟩
  rw [traced.rows t _ stage (by simp)] at mine
  rcases Multiset.mem_add.mp mine with returned | progress
  · obtain ⟨x, logged, -, row⟩ := mem_written returned
    exact pend.unlogged x logged ((planRows_eventId row).symm.trans same)
  · rcases mem_bundle.mp progress with ⟨k, -, wrong⟩ | ⟨e', none, -⟩ | ⟨d, none, -⟩ | ⟨j, none, -⟩
    · cases wrong
    · cases none
    · cases none
    · cases none

private theorem traced_moves {s s' : Server} {t : ℕ} {p : Progress} (new : Multiset Row)
    (more : List Entry) (p' : Progress) (inv : Inv s) (traced : Traced s)
    (stage : s.txs[t]? = some ⟨.active, p⟩) (owners : s'.owners = s.owners)
    (txs : s'.txs = s.setProgress t p')
    (gains : rowsOf s'.heap = rowsOf s.heap + new) (own : ∀ r ∈ new, (r.eventId, t) ∈ s.owners)
    (log : s'.log = more ++ s.log) (mine : ∀ x ∈ more, x.tx = t)
    (told : ∀ x ∈ more, x.result = (plan x.call (Entry.named x)).result)
    (planned : Progress.Planned p')
    (balance : written t (more ++ s.log) + Progress.rows p' =
      written t s.log + Progress.rows p + new)
    (sourced : Sourced s (more ++ s.log)) : Traced s' := by
  have get : ∀ u, s'.txs[u]? = if t = u then some ⟨.active, p'⟩ else s.txs[u]? := by
    intro u
    rw [txs]
    exact get_set stage _ u
  have status : ∀ u, s'.status u = s.status u := status_progress stage txs
  have owns : ∀ u r, s'.owns u r = s.owns u r := by
    intro u r
    unfold Server.owns
    rw [owners]
  refine ⟨?_, ?_, ?_, ?_, ?_⟩
  · intro r mem
    rw [gains] at mem
    rw [owners]
    rcases Multiset.mem_add.mp mem with old | fresh
    · exact traced.owned r old
    · exact ⟨t, own r fresh⟩
  · intro x mem
    rw [log] at mem
    rcases List.mem_append.mp mem with fresh | old
    · exact told x fresh
    · exact traced.told x old
  · intro u tx found
    rw [get] at found
    by_cases same : t = u
    · rw [if_pos same] at found
      cases Option.some.inj found
      exact planned
    · rw [if_neg same] at found
      exact traced.planned u tx found
  · intro u tx found live
    rw [get] at found
    rw [gains, Multiset.filter_add, log]
    simp only [owns]
    by_cases same : t = u
    · subst same
      rw [if_pos rfl] at found
      cases Option.some.inj found
      have old := traced.rows t _ stage (by simp)
      have all : new.filter (fun r => s.owns t r.eventId) = new := by
        rw [Multiset.filter_eq_self]
        intro r mem
        exact decide_eq_true (own r mem)
      rw [old, all]
      exact balance.symm
    · rw [if_neg same] at found
      have old := traced.rows u tx found live
      have none : new.filter (fun r => s.owns u r.eventId) = 0 := by
        rw [Multiset.filter_eq_nil]
        intro r mem theirs
        exact same (owner_unique inv (own r mem) (of_decide_eq_true theirs))
      have foreign : written u (more ++ s.log) = written u s.log := by
        clear balance sourced log told
        induction more with
        | nil => rfl
        | cons x more ih =>
          have apart : x.tx ≠ u := fun here => same ((mine x List.mem_cons_self).symm.trans here)
          rw [List.cons_append, written_other apart]
          exact ih fun y later => mine y (List.mem_cons_of_mem x later)
      rw [old, none, foreign, add_zero]
  · rw [log]
    apply sourced.mono
    intro k u row owned committed
    refine ⟨?_, ?_, ?_⟩
    · rw [gains]
      exact Multiset.mem_add.mpr (.inl row)
    · rw [owners]
      exact owned
    · rw [status]
      exact committed

private theorem traced_answer {s : Server} {t : ℕ} {c : Call} {p : Progress} {heap : Database}
    {locks : List ((String × String) × ℕ)} {result : Except DispatchError DispatchOutcome}
    (new : Multiset Row) (inv : Inv s) (traced : Traced s)
    (stage : s.txs[t]? = some ⟨.active, p⟩) (gains : rowsOf heap = rowsOf s.heap + new)
    (own : ∀ r ∈ new, (r.eventId, t) ∈ s.owners)
    (told : result = (plan c (Entry.named ⟨t, c, result⟩)).result)
    (rows : Entry.rows ⟨t, c, result⟩ = Progress.rows p + new)
    (source : Source s ⟨t, c, result⟩ s.log) : Traced (s.answer t c heap locks result) := by
  refine traced_moves new [⟨t, c, result⟩] .idle inv traced stage rfl rfl gains own rfl ?_ ?_
    trivial ?_ ⟨source, traced.sourced⟩
  · intro x mem
    rw [List.mem_singleton.mp mem]
  · intro x mem
    rw [List.mem_singleton.mp mem]
    exact told
  · have first := written_own (x := ⟨t, c, result⟩) rfl s.log
    rw [List.singleton_append, first, rows]
    change Progress.rows p + new + written t s.log + 0 = _
    rw [add_zero]
    ac_rfl

private theorem keyPlan_named {c : Call} {known : Option Uuid} {t : ℕ}
    {result : Except DispatchError DispatchOutcome} (planned : keyPlan c known = .error result) :
    keyPlan c (Entry.named ⟨t, c, result⟩) = .error result := by
  unfold keyPlan at planned ⊢
  split at planned
  · cases planned
  · split at planned
    · exact planned
    · split at planned
      · next texts =>
        rw [if_pos texts]
        split at planned
        · cases planned
          rfl
        · cases planned
      · next texts =>
        rw [if_neg texts]
        exact planned

private theorem keyPlan_granted {c : Call} {known : Option Uuid} {keys : List DispatchKeyRow}
    (planned : keyPlan c known = .ok keys) : keyPlan c none = .ok keys := by
  unfold keyPlan at planned ⊢
  split at planned
  · exact planned
  · split at planned
    · cases planned
    · split at planned
      · next texts =>
        rw [if_pos texts]
        split at planned
        · cases planned
        · exact planned
      · cases planned

private theorem keyPlan_duplicate {c : Call} {known : Option Uuid} {eventId : Uuid}
    (planned : keyPlan c known = .error (.ok (.duplicate eventId))) : known = some eventId := by
  unfold keyPlan at planned
  split at planned
  · cases planned
  · split at planned
    · cases planned
    · split at planned
      · split at planned
        · cases planned
          rfl
        · cases planned
      · cases planned

theorem plan_stopped {c : Call} {payload : Bytes} {handlerIds : List String} {k : Option Uuid}
    {result : Except DispatchError DispatchOutcome}
    (passed : prepare c = .ok (payload, handlerIds)) (planned : keyPlan c k = .error result) :
    plan c k = .stop [] result := by
  unfold plan
  simp only [passed, planned]

theorem plan_granted {c : Call} {payload : Bytes} {handlerIds : List String} {k : Option Uuid}
    {keys : List DispatchKeyRow} (passed : prepare c = .ok (payload, handlerIds))
    (planned : keyPlan c k = .ok keys) : plan c k = writePlan c payload handlerIds keys := by
  unfold plan
  simp only [passed, planned]

private theorem met_source {s : Server} (inv : Inv s) (traced : Traced s) {t : ℕ} {c : Call}
    {eventId : Uuid} {payload : Bytes} {handlerIds : List String}
    (stage : s.txs[t]? = some ⟨.active, .reserving c⟩) (free : s.blocked t c = false)
    (passed : prepare c = .ok (payload, handlerIds))
    (planned : keyPlan c (known c s.heap) = .error (.ok (.duplicate eventId))) :
    Source s ⟨t, c, .ok (.duplicate eventId)⟩ s.log := by
  have met := keyPlan_duplicate planned
  unfold known at met
  obtain ⟨key, keyed, stored⟩ := Option.bind_eq_some_iff.mp met
  obtain ⟨k, found, ids⟩ := Option.map_eq_some_iff.mp stored
  obtain ⟨row, same⟩ := Table.find_mem found
  have reached : c.faults.reserve = none := by
    unfold keyPlan at planned
    simp only [keyed] at planned
    split at planned
    · cases planned
    · next reached => exact reached
  have settled := met_key_settled inv (by rw [passed]; rfl) reached keyed free row same
  intro eventId' result
  cases result
  refine ⟨k, ?_, ids, ?_⟩
  · change c.key = some k.key
    rw [same]
    unfold Call.key
    rw [keyed]
    rfl
  · obtain ⟨u, own, who⟩ := settled
    rw [ids] at own
    rcases who with mine | committed
    · subst mine
      refine .inl ?_
      have owned : Row.key k ∈ (rowsOf s.heap).filter fun r => s.owns u r.eventId := by
        refine Multiset.mem_filter.mpr ⟨key_mem.mpr row, ?_⟩
        unfold Server.owns
        rw [decide_eq_true_eq]
        change (k.eventId, u) ∈ s.owners
        rw [ids]
        exact own
      rw [traced.rows u _ stage (by simp)] at owned
      change Row.key k ∈ written u s.log + 0 at owned
      rwa [add_zero] at owned
    · exact .inr ⟨key_mem.mpr row, u, own, committed⟩

private theorem traced_reserved {s : Server} (inv : Inv s) (traced : Traced s) {t : ℕ} {c : Call}
    (stage : s.txs[t]? = some ⟨.active, .reserving c⟩) (free : s.blocked t c = false) :
    Traced (s.reserved t c) := by
  have pend := inv.pending t _ c stage rfl
  have unused := unused_reserving inv traced stage
  -- A call that returns from its first statement has written nothing.
  have returns : ∀ result locks, plan c (Entry.named ⟨t, c, result⟩) = .stop [] result →
      Source s ⟨t, c, result⟩ s.log → Traced (s.answer t c s.heap locks result) := by
    intro result locks stops source
    refine traced_answer 0 inv traced stage (add_zero _).symm ?_ ?_ ?_ source
    · intro r mem
      cases Multiset.notMem_zero r mem
    · rw [stops]
      rfl
    · unfold Entry.rows
      rw [stops]
      rfl
  have errs : ∀ e : DispatchError, Source s ⟨t, c, .error e⟩ s.log := by
    intro e eventId wrong
    cases wrong
  cases passed : prepare c with
  | error e =>
    have step : reserveStep c s.heap = (s.heap, .returned (.error e)) := by
      unfold reserveStep
      rw [passed]
    have stops : plan c none = .stop [] (.error e) := by
      unfold plan
      rw [passed]
    unfold Server.reserved
    rw [step]
    exact returns _ _ stops (errs e)
  | ok result =>
    obtain ⟨payload, handlerIds⟩ := result
    rcases reserve_planned passed unused with ⟨result, planned, step⟩ |
      ⟨db, planned, step, reserves⟩
    · have stops : plan c (Entry.named ⟨t, c, result⟩) = .stop [] result :=
        plan_stopped passed (keyPlan_named planned)
      cases result with
      | error e =>
        unfold Server.reserved
        rw [step]
        exact returns _ _ stops (errs e)
      | ok outcome =>
        have source : Source s ⟨t, c, .ok outcome⟩ s.log := by
          cases outcome with
          | duplicate eventId => exact met_source inv traced stage free passed planned
          | dispatched eventId n =>
            intro eventId wrong
            cases wrong
          | noHandlers eventId =>
            intro eventId wrong
            cases wrong
        unfold Server.reserved
        rw [step]
        exact returns _ _ stops source
    · unfold Server.reserved
      rw [step]
      have plans : plan c none = writePlan c payload handlerIds (keyRow c).toList :=
        plan_granted passed (keyPlan_granted planned)
      refine traced_moves _ [] (.inserting c payload handlerIds) inv traced stage rfl rfl
        (rowsOf_reserves reserves) ?_ rfl ?_ ?_ ⟨passed, plans⟩ ?_ traced.sourced
      · intro r mem
        rcases mem_bundle.mp mem with ⟨k, stored, rfl⟩ | ⟨e, none, -⟩ | ⟨d, none, -⟩ | ⟨j, none, -⟩
        · obtain ⟨key, -, rfl⟩ := Option.map_eq_some_iff.mp (Option.mem_toList.mp stored)
          exact pend.own
        · cases none
        · cases none
        · cases none
      · intro x none
        cases none
      · intro x none
        cases none
      · change written t s.log + _ = written t s.log + 0 + _
        rw [add_zero]
        rfl

theorem writePlan_cases (c : Call) (payload : Bytes) (handlerIds : List String)
    (keys : List DispatchKeyRow) :
    (∃ e, writePlan c payload handlerIds keys = .stop keys (.error e)) ∨
    writePlan c payload handlerIds keys =
      ⟨.ok (.noHandlers c.eventId), keys, [eventRow c payload], [], []⟩ ∨
    (∃ e, writePlan c payload handlerIds keys =
      ⟨.error (.pgwqPush e), keys, [eventRow c payload], handlerIds, []⟩) ∨
    writePlan c payload handlerIds keys = ⟨.ok (.dispatched c.eventId handlerIds.length), keys,
      [eventRow c payload], handlerIds, handlerIds.map (jobFor c)⟩ := by
  -- How a call can end once its key is reserved.
  unfold writePlan
  split
  · exact .inl ⟨_, rfl⟩
  · split
    · exact .inl ⟨_, rfl⟩
    · split
      · exact .inl ⟨_, rfl⟩
      · split
        · exact .inr (.inl rfl)
        · split
          · exact .inr (.inr (.inl ⟨_, rfl⟩))
          · exact .inr (.inr (.inr rfl))

private theorem insert_planned {c : Call} {db : Database} (payload : Bytes)
    (handlerIds : List String) (unused : ∀ e ∈ db.events.rows, e.id ≠ c.eventId) :
    (∃ e, insertStep c payload handlerIds db = (db, .returned (.error e)) ∧
      writePlan c payload handlerIds (keyRow c).toList = .stop (keyRow c).toList (.error e)) ∨
    (∃ db2, handlerIds = [] ∧ Inserts c payload handlerIds db db2 ∧
      insertStep c payload handlerIds db = (db2, .returned (.ok (.noHandlers c.eventId))) ∧
      writePlan c payload handlerIds (keyRow c).toList =
        ⟨.ok (.noHandlers c.eventId), (keyRow c).toList, [eventRow c payload], [], []⟩) ∨
    ∃ db2, Inserts c payload handlerIds db db2 ∧
      insertStep c payload handlerIds db = (db2, .pushing handlerIds) ∧
      writePlan c payload handlerIds (keyRow c).toList = pushPlan c payload handlerIds := by
  have second := insertStatement_planned payload handlerIds unused
  by_cases large : maxHeadersBytes < len (headersText c)
  · refine .inl ⟨_, insertStep_oversized large payload handlerIds db, ?_⟩
    unfold writePlan
    rw [if_pos large]
  have step : insertStep c payload handlerIds db = _ := if_neg large
  have plans : writePlan c payload handlerIds (keyRow c).toList = _ := if_neg large
  rw [step, plans]
  cases c.faults.insert with
  | some e => exact .inl ⟨_, rfl, rfl⟩
  | none =>
    cases failure : insertError c payload handlerIds with
    | some e =>
      rw [failure] at second
      have failed : insertStatement c payload handlerIds db = .error e := second
      refine .inl ⟨.ofSqlx e, ?_, rfl⟩
      simp only [failed]
    | none =>
      rw [failure] at second
      obtain ⟨db2, done⟩ := second
      have inserts := insertStatement_ok done
      simp only [done]
      by_cases none : handlerIds = []
      · rw [if_pos none, if_pos none]
        exact .inr (.inl ⟨db2, none, inserts, rfl, rfl⟩)
      · rw [if_neg none, if_neg none]
        exact .inr (.inr ⟨db2, inserts, rfl, rfl⟩)

private theorem own_inserted {c : Call} {payload : Bytes} {handlerIds : List String} {r : Row}
    (mem : r ∈ bundle [] [eventRow c payload]
      (Database.queuedRows c.eventId c.now 0 handlerIds) []) : r.eventId = c.eventId := by
  rcases mem_bundle.mp mem with ⟨k, none, -⟩ | ⟨e, stored, rfl⟩ | ⟨d, stored, rfl⟩ | ⟨j, none, -⟩
  · cases none
  · rw [List.mem_singleton.mp stored]
    rfl
  · exact (Database.queuedRows_spec stored).1
  · cases none

private theorem pushing_rows {c : Call} {payload : Bytes} {handlerIds : List String}
    (passed : prepare c = .ok (payload, handlerIds)) :
    Progress.rows (.pushing c handlerIds) = bundle (keyRow c).toList [eventRow c payload]
      (Database.queuedRows c.eventId c.now 0 handlerIds) [] := by
  change bundle _ ((prepare c).toOption.toList.map _) _ _ = _
  rw [passed]
  rfl

private theorem traced_inserted {s : Server} (inv : Inv s) (traced : Traced s) {t : ℕ} {c : Call}
    {payload : Bytes} {handlerIds : List String}
    (stage : s.txs[t]? = some ⟨.active, .inserting c payload handlerIds⟩) :
    Traced (s.inserted t c payload handlerIds) := by
  have pend := inv.pending t _ c stage rfl
  have unused := unused_inserting inv traced stage
  obtain ⟨passed, plans⟩ : prepare c = .ok (payload, handlerIds) ∧
    plan c none = writePlan c payload handlerIds (keyRow c).toList := traced.planned t _ stage
  have own : ∀ r ∈ bundle [] [eventRow c payload]
      (Database.queuedRows c.eventId c.now 0 handlerIds) [], (r.eventId, t) ∈ s.owners := by
    intro r mem
    rw [own_inserted mem]
    exact pend.own
  have joined := bundle_append (keyRow c).toList [] [] [eventRow c payload] []
    (Database.queuedRows c.eventId c.now 0 handlerIds) [] []
  rw [List.append_nil, List.nil_append, List.nil_append] at joined
  unfold Server.inserted
  rcases insert_planned payload handlerIds unused with ⟨e, step, stops⟩ |
    ⟨db2, none, inserts, step, ends⟩ | ⟨db2, inserts, step, onward⟩
  · rw [step]
    rw [stops] at plans
    refine traced_answer 0 inv traced stage (add_zero _).symm ?_ ?_ ?_ ?_
    · intro r mem
      cases Multiset.notMem_zero r mem
    · exact (congrArg Plan.result plans).symm
    · change planRows c (plan c none) = _
      rw [plans]
      exact (add_zero _).symm
    · intro eventId wrong
      cases wrong
  · rw [step]
    rw [ends] at plans
    refine traced_answer _ inv traced stage (rowsOf_inserts inserts) own ?_ ?_ ?_
    · exact (congrArg Plan.result plans).symm
    · change planRows c (plan c .none) = _
      rw [plans, none]
      rw [none] at joined
      exact joined
    · intro eventId wrong
      cases wrong
  · rw [step]
    rw [onward] at plans
    refine traced_moves _ [] (.pushing c handlerIds) inv traced stage rfl rfl
      (rowsOf_inserts inserts) own rfl ?_ ?_ ⟨payload, passed, plans⟩ ?_ traced.sourced
    · intro x none
      cases none
    · intro x none
      cases none
    · rw [pushing_rows passed, add_assoc]
      exact congrArg (written t s.log + ·) joined

private theorem traced_pushed {s : Server} (inv : Inv s) (traced : Traced s) {t : ℕ} {c : Call}
    {handlerIds : List String} (stage : s.txs[t]? = some ⟨.active, .pushing c handlerIds⟩) :
    Traced (s.pushed t c handlerIds) := by
  have pend := inv.pending t _ c stage rfl
  obtain ⟨payload, passed, plans⟩ : ∃ payload, prepare c = .ok (payload, handlerIds) ∧
    plan c none = pushPlan c payload handlerIds := traced.planned t _ stage
  have before := pushing_rows passed
  unfold Server.pushed pushStep
  unfold pushPlan at plans
  cases fault : c.faults.push with
  | some e =>
    rw [fault] at plans
    refine traced_answer 0 inv traced stage (add_zero _).symm ?_ ?_ ?_ ?_
    · intro r mem
      cases Multiset.notMem_zero r mem
    · exact (congrArg Plan.result plans).symm
    · change planRows c (plan c none) = _
      rw [plans, before]
      exact (add_zero _).symm
    · intro eventId wrong
      cases wrong
  | none =>
    rw [fault] at plans
    refine traced_answer _ inv traced stage (rowsOf_pushed s.heap _) ?_ ?_ ?_ ?_
    · intro r mem
      rcases mem_bundle.mp mem with ⟨k, none, -⟩ | ⟨e, none, -⟩ | ⟨d, none, -⟩ | ⟨j, stored, rfl⟩
      · cases none
      · cases none
      · cases none
      · obtain ⟨h, -, rfl⟩ := List.mem_map.mp stored
        exact pend.own
    · exact (congrArg Plan.result plans).symm
    · change planRows c (plan c .none) = _
      rw [plans, before]
      have joined := bundle_append (keyRow c).toList [] [eventRow c payload] []
        (Database.queuedRows c.eventId c.now 0 handlerIds) [] [] (handlerIds.map (jobFor c))
      rw [List.append_nil, List.append_nil, List.append_nil, List.nil_append] at joined
      exact joined
    · intro eventId wrong
      cases wrong

theorem committed_get {s : Server} {u : ℕ} (committed : s.status u = some .committed) :
    ∃ tx, s.txs[u]? = some tx ∧ tx.status = .committed :=
  Option.map_eq_some_iff.mp committed

private theorem committed_set {s : Server} {t : ℕ} {p : Progress} {tx : TxState} {heap : Database}
    {owners : List (Uuid × ℕ)} {locks : List ((String × String) × ℕ)} {log : List Entry}
    (stage : s.txs[t]? = some ⟨.active, p⟩) {u : ℕ} (committed : s.status u = some .committed) :
    Server.status ⟨heap, s.txs.set t tx, owners, locks, log⟩ u = some .committed := by
  obtain ⟨old, found, done⟩ := committed_get committed
  have apart : t ≠ u := by
    rintro rfl
    rw [stage] at found
    cases Option.some.inj found
    cases done
  change ((s.txs.set t tx)[u]?).map TxState.status = _
  rw [get_set stage, if_neg apart]
  exact committed

private theorem traced_begin {s : Server} (inv : Inv s) (traced : Traced s) :
    Traced { s with txs := s.txs ++ [⟨.active, .idle⟩] } := by
  refine ⟨traced.owned, traced.told, ?_, ?_, ?_⟩
  · intro t tx found
    change (s.txs ++ [_])[t]? = some tx at found
    by_cases known : t < s.txs.length
    · rw [List.getElem?_append_left known] at found
      exact traced.planned t tx found
    · rw [List.getElem?_append_right (Nat.le_of_not_lt known)] at found
      obtain ⟨_, new⟩ := List.getElem?_eq_some_iff.mp found
      rw [List.getElem_singleton] at new
      subst new
      trivial
  · intro t tx found live
    change (s.txs ++ [_])[t]? = some tx at found
    by_cases known : t < s.txs.length
    · rw [List.getElem?_append_left known] at found
      exact traced.rows t tx found live
    · rw [List.getElem?_append_right (Nat.le_of_not_lt known)] at found
      obtain ⟨_, new⟩ := List.getElem?_eq_some_iff.mp found
      rw [List.getElem_singleton] at new
      subst new
      -- Nobody has acted in the new transaction.
      have silent : written t s.log = 0 := by
        apply written_foreign
        intro x logged same
        exact known (same ▸ inv.known _ _ (inv.logged x logged))
      have empty : (rowsOf s.heap).filter (fun r => s.owns t r.eventId) = 0 := by
        rw [Multiset.filter_eq_nil]
        intro r mem owned
        exact known (inv.known _ t (of_decide_eq_true owned))
      change (rowsOf s.heap).filter (fun r => s.owns t r.eventId) = written t s.log + 0
      rw [silent, empty]
      rfl
  · apply traced.sourced.mono
    intro k u row owned committed
    refine ⟨row, owned, ?_⟩
    obtain ⟨tx, found, done⟩ := committed_get committed
    have inside := (List.getElem?_eq_some_iff.mp found).1
    change ((s.txs ++ [_])[u]?).map TxState.status = _
    rw [List.getElem?_append_left inside, found]
    exact congrArg some done

private theorem traced_call {s : Server} (traced : Traced s) {t : ℕ} {c : Call}
    (idle : s.txs[t]? = some ⟨.active, .idle⟩) (fresh : ∀ u, (c.eventId, u) ∉ s.owners) :
    Traced { s with
      txs := s.setProgress t (.reserving c)
      owners := (c.eventId, t) :: s.owners } := by
  have get : ∀ u, (s.setProgress t (.reserving c))[u]? =
      if t = u then some ⟨.active, .reserving c⟩ else s.txs[u]? := get_set idle _
  -- No row carries the fresh id, so everyone owns the rows they did.
  have same : ∀ u, (rowsOf s.heap).filter (fun r => Server.owns { s with
      txs := s.setProgress t (.reserving c)
      owners := (c.eventId, t) :: s.owners } u r.eventId) =
      (rowsOf s.heap).filter fun r => s.owns u r.eventId := by
    intro u
    apply Multiset.filter_congr
    intro r mem
    obtain ⟨v, owned⟩ := traced.owned r mem
    have apart : r.eventId ≠ c.eventId := fun here => fresh v (here ▸ owned)
    unfold Server.owns
    rw [decide_eq_true_eq, decide_eq_true_eq, List.mem_cons]
    constructor
    · rintro (new | old)
      · exact absurd (congrArg Prod.fst new) apart
      · exact old
    · exact .inr
  refine ⟨?_, traced.told, ?_, ?_, ?_⟩
  · intro r mem
    obtain ⟨u, owned⟩ := traced.owned r mem
    exact ⟨u, List.mem_cons_of_mem _ owned⟩
  · intro u tx found
    rw [get] at found
    by_cases here : t = u
    · rw [if_pos here] at found
      cases Option.some.inj found
      trivial
    · rw [if_neg here] at found
      exact traced.planned u tx found
  · intro u tx found live
    rw [get] at found
    rw [same]
    by_cases here : t = u
    · subst here
      rw [if_pos rfl] at found
      cases Option.some.inj found
      have old := traced.rows t _ idle (by simp)
      exact old
    · rw [if_neg here] at found
      exact traced.rows u tx found live
  · apply traced.sourced.mono
    intro k u row owned committed
    exact ⟨row, List.mem_cons_of_mem _ owned, committed_set idle committed⟩

private theorem traced_commit {s : Server} (traced : Traced s) {t : ℕ}
    (idle : s.txs[t]? = some ⟨.active, .idle⟩) :
    Traced { s with txs := s.txs.set t ⟨.committed, .idle⟩ } := by
  have get : ∀ u, (s.txs.set t ⟨.committed, .idle⟩)[u]? =
      if t = u then some ⟨.committed, .idle⟩ else s.txs[u]? := get_set idle _
  refine ⟨traced.owned, traced.told, ?_, ?_, ?_⟩
  · intro u tx found
    rw [get] at found
    by_cases here : t = u
    · rw [if_pos here] at found
      cases Option.some.inj found
      trivial
    · rw [if_neg here] at found
      exact traced.planned u tx found
  · intro u tx found live
    rw [get] at found
    by_cases here : t = u
    · subst here
      rw [if_pos rfl] at found
      cases Option.some.inj found
      have old := traced.rows t _ idle (by simp)
      exact old
    · rw [if_neg here] at found
      exact traced.rows u tx found live
  · apply traced.sourced.mono
    intro k u row owned committed
    exact ⟨row, owned, committed_set idle committed⟩

private theorem traced_rollback {s : Server} (inv : Inv s) (traced : Traced s) {t : ℕ}
    {p : Progress} (stage : s.txs[t]? = some ⟨.active, p⟩) :
    Traced { s with
      heap := retract (s.owns t) s.heap
      txs := s.txs.set t ⟨.rolledBack, .idle⟩ } := by
  have get : ∀ u, (s.txs.set t ⟨.rolledBack, .idle⟩)[u]? =
      if t = u then some ⟨.rolledBack, .idle⟩ else s.txs[u]? := get_set stage _
  refine ⟨?_, traced.told, ?_, ?_, ?_⟩
  · intro r mem
    change r ∈ rowsOf (retract (s.owns t) s.heap) at mem
    rw [rowsOf_retract] at mem
    exact traced.owned r (Multiset.mem_filter.mp mem).1
  · intro u tx found
    rw [get] at found
    by_cases here : t = u
    · rw [if_pos here] at found
      cases Option.some.inj found
      trivial
    · rw [if_neg here] at found
      exact traced.planned u tx found
  · intro u tx found live
    rw [get] at found
    by_cases here : t = u
    · rw [if_pos here] at found
      cases Option.some.inj found
      exact absurd rfl live
    · rw [if_neg here] at found
      have old := traced.rows u tx found live
      change (rowsOf (retract (s.owns t) s.heap)).filter (fun r => s.owns u r.eventId) =
        written u s.log + _
      rw [rowsOf_retract, Multiset.filter_filter, ← old]
      apply Multiset.filter_congr
      intro r mem
      constructor
      · rintro ⟨owned, -⟩
        exact owned
      · intro owned
        refine ⟨owned, ?_⟩
        rw [not_owns inv (of_decide_eq_true owned) here]
        rfl
  · apply traced.sourced.mono
    intro k u row owned committed
    refine ⟨?_, owned, committed_set stage committed⟩
    have apart : t ≠ u := by
      rintro rfl
      obtain ⟨tx, found, done⟩ := committed_get committed
      rw [stage] at found
      cases Option.some.inj found
      cases done
    change Row.key k ∈ rowsOf (retract (s.owns t) s.heap)
    rw [rowsOf_retract]
    refine Multiset.mem_filter.mpr ⟨row, ?_⟩
    change (!s.owns t k.eventId) = true
    rw [not_owns inv owned apart]
    rfl

theorem traced_step {s s' : Server} {a : TxLabel} (inv : Inv s) (traced : Traced s)
    (taken : server.step s a = some s') : Traced s' := by
  cases serverStep_sound taken with
  | begin => exact traced_begin inv traced
  | call t c idle fresh => exact traced_call traced idle fresh
  | reserve t c stage free => exact traced_reserved inv traced stage free
  | insert t c payload handlerIds stage => exact traced_inserted inv traced stage
  | push t c handlerIds stage => exact traced_pushed inv traced stage
  | commit t idle may => exact traced_commit traced idle
  | rollback t progress stage => exact traced_rollback inv traced stage

theorem traced_run {as : List TxLabel} {s : Server}
    (reached : server.run Server.start as = some s) : Inv s ∧ Traced s :=
  Machine.run_invariant (I := fun s => Inv s ∧ Traced s)
    (fun _ _ _ both taken => ⟨inv_step both.1 taken, traced_step both.1 both.2 taken⟩)
    ⟨inv_start, traced_start⟩ reached

end RustEvents.Dispatch.Traces
