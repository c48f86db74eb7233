/- module: RustEvents/System/KeyRetention
   layer: system
   source: src/purge.rs (purge_dispatch_keys), src/runtime.rs (LEFT JOIN outbox.dispatch_keys), src/outbox.rs
   digest: How long an idempotency key stays with the work it was given for. -/

import RustEvents.System.Absorbing

set_option autoImplicit false
set_option relaxedAutoImplicit false

namespace RustEvents.System.KeyRetention

open RustEvents.Foundation.LabelledRuns (Machine)
open RustEvents.Foundation.IndexedTable (Table)
open RustEvents.Model.Schema
open RustEvents.Model.Builder
open RustEvents.Model.Dispatch
open RustEvents.Model.Runtime
open RustEvents.Model.Purge
open RustEvents.Dispatch.Effects
open RustEvents.Dispatch.Fanout (Issued sampleCall)
open RustEvents.Worker.Statements
open RustEvents.Worker.Steps
open RustEvents.Worker.Invocations
open RustEvents.Worker.Superseded (sampleEnv sampleRuntime sampleContext)
open RustEvents.System.Lifecycle
open RustEvents.System.Absorbing (issued_step)

/-- Every handler that runs for a delivery of the event is given the key. -/
def HandlersSee (s : SystemState) (e : Uuid) (key : String × String) : Prop :=
  (e, key) ∈ s.dispatched → ∀ (i : ℕ) (inv : Invocation) (hctx : HandlerContext),
    s.workers.invocations[i]? = some inv → inv.env.eventId = e →
    handlerContext? inv = some hctx → hctx.dispatchIdempotencyKey = some key.2

/-- While the event has a non-terminal delivery, a call with its key is answered
`Duplicate`: in a later transaction, or later in the one that dispatched the event. -/
def Repeats (s : SystemState) (e : Uuid) (key : String × String) : Prop :=
  ∀ (tx : Transaction) (before after : List Call) (c : Call) (o : DispatchOutcome),
    s.freshIds (.transact tx) = true → tx.calls = before ++ c :: after →
    (e, key) ∈ keyedEvents before s.db ++ s.dispatched →
    active (dispatchAll before s.db).1 e = true → c.key = some key →
    (dispatch c (dispatchAll before s.db).1).2 = .ok o → o = .duplicate e

/-- The key outlives the work. -/
structure KeyHeld (s : SystemState) (e : Uuid) (key : String × String) : Prop where
  handlers : HandlersSee s e key
  repeats : Repeats s e key

/-- No chunk of `purge_dispatch_keys` selects the key row of the event while the event has a
non-terminal delivery. -/
def spares (e : Uuid) (s : SystemState) : SystemLabel → Bool
  | .select _ (.dispatchKeys rows) => !active s.db e || rows.all fun k => k.eventId ≠ e
  | _ => true

/-- The row that reserves `key` for the event. -/
def Holds (db : Database) (e : Uuid) (key : String × String) : Prop :=
  ∃ k ∈ db.dispatchKeys.rows, k.key = key ∧ k.eventId = e

theorem Holds.grows {ids : List Uuid} {db db' : Database} {e : Uuid} {key : String × String}
    (holds : Holds db e key) (grows : Grows ids db db') : Holds db' e key := by
  obtain ⟨k, stored, facts⟩ := holds
  exact ⟨k, grows.key_stored stored, facts⟩

theorem dispatch_held {c : Call} {db : Database} {e : Uuid} {key : String × String}
    {o : DispatchOutcome} (held : Holds db e key) (keyed : c.key = some key)
    (ok : (dispatch c db).2 = .ok o) : o = .duplicate e := by
  obtain ⟨k, stored, same, ids⟩ := held
  obtain ⟨text, given, rfl⟩ := Option.map_eq_some_iff.mp keyed
  have found : db.key? c.ctx.tenantId text = some k :=
    (Table.find_eq_some keys_separates_key).mpr ⟨stored, same⟩
  have taken : ∀ {db' : Database}, ¬ Reserves c db db' := by
    intro db' reserves
    have free := (reserves.free text given).2
    simp [reservable, found] at free
  have cases := dispatch_cases c db
  generalize dispatch c db = result at cases ok
  cases cases with
  | unreserved result reserving =>
    subst ok
    cases reserving with
    | duplicate payload handlerIds key row passed given' reached found' =>
      rw [given] at given'
      cases Option.some.inj given'
      rw [found] at found'
      cases Option.some.inj found'
      rw [ids]
  | uninserted e payload handlerIds db1 passed reserves => exact absurd reserves taken
  | noHandlers payload db1 db2 passed reserves => exact absurd reserves taken
  | unpushed e payload handlerIds db1 db2 passed reserves => exact absurd reserves taken
  | dispatched payload handlerIds db1 db2 passed some reserves => exact absurd reserves taken

theorem dispatch_reserves {c : Call} {db : Database} {key : String × String} {o : DispatchOutcome}
    (keyed : c.key = some key) (ok : (dispatch c db).2 = .ok o) (creates : o.creates = true) :
    o.eventId = c.eventId ∧ Holds (dispatch c db).1 c.eventId key := by
  obtain ⟨text, given, rfl⟩ := Option.map_eq_some_iff.mp keyed
  have written : ∀ {db1 db2 : Database}, Reserves c db db1 →
      db2.dispatchKeys.rows = db1.dispatchKeys.rows →
      Holds db2 c.eventId (c.ctx.tenantId, text) := by
    intro db1 db2 reserves same
    refine ⟨⟨c.ctx.tenantId, text, c.eventId, c.now⟩, ?_, rfl, rfl⟩
    rw [same, reserves.keys]
    exact List.mem_append_right _ (by simp [keyRow, given])
  have cases := dispatch_cases c db
  generalize dispatch c db = result at cases ok
  cases cases with
  | unreserved result reserving =>
    subst ok
    cases reserving with
    | duplicate => cases creates
  | uninserted e payload handlerIds db1 passed reserves => cases ok
  | noHandlers payload db1 db2 passed reserves inserts =>
    cases Except.ok.inj ok
    exact ⟨rfl, written reserves (by rw [inserts.keys])⟩
  | unpushed e payload handlerIds db1 db2 passed reserves => cases ok
  | dispatched payload handlerIds db1 db2 passed some reserves inserts =>
    cases Except.ok.inj ok
    exact ⟨rfl, written reserves (by rw [← inserts.keys]; rfl)⟩

theorem keyedEvents_held {cs : List Call} {db : Database} {e : Uuid} {key : String × String}
    (mem : (e, key) ∈ keyedEvents cs db) :
    e ∈ cs.map Call.eventId ∧ Holds (dispatchAll cs db).1 e key := by
  induction cs generalizing db with
  | nil => cases mem
  | cons c cs ih =>
    rcases List.mem_append.mp mem with here | later
    · split at here
      · next o key' ok keyed =>
        split at here
        · next creates =>
          cases List.mem_singleton.mp here
          obtain ⟨own, held⟩ := dispatch_reserves keyed ok creates
          rw [own]
          exact ⟨List.mem_cons_self, held.grows (grows_dispatchAll cs _)⟩
        · cases here
      · cases here
    · obtain ⟨own, held⟩ := ih later
      exact ⟨List.mem_cons_of_mem _ own, held⟩

/-- What keeps the key of one event in place, in runs that spare it. -/
structure Retained (e : Uuid) (s : SystemState) : Prop where
  issued : Issued s.used s.db
  known : ∀ key, (e, key) ∈ s.dispatched → e ∈ s.used
  held : ∀ key, (e, key) ∈ s.dispatched → active s.db e = true → Holds s.db e key
  doomed : ∀ (p : ℕ) (call : PurgeCall) (rows : List DispatchKeyRow) (k : DispatchKeyRow),
    s.purges[p]? = some call → call.phase = .deleting (.dispatchKeys rows) → k ∈ rows →
    k.eventId = e → e ∈ s.used ∧ active s.db e = false
  running : ∀ (i : ℕ) (inv : Invocation), s.workers.invocations[i]? = some inv →
    (handlerContext? inv).isSome = true → inv.env.eventId ∈ s.used
  handlers : ∀ key, HandlersSee s e key

private theorem retained_start (e : Uuid) : Retained e SystemState.start := by
  constructor
  · constructor <;> intro row stored <;> cases stored
  · intro key mem
    cases mem
  · intro key mem
    cases mem
  · intro p call rows k found
    cases found
  · intro i inv found
    cases found
  · intro key mem
    cases mem

private theorem keyOf_held {db : Database} {e : Uuid} {key : String × String}
    (held : Holds db e key) : db.keyOf e = some key.2 := by
  obtain ⟨k, stored, rfl, ids⟩ := held
  have found : db.dispatchKeys.find DispatchKeyRow.eventId e = some k :=
    (Table.find_eq_some keys_separates_eventId).mpr ⟨stored, ids⟩
  rw [Database.keyOf, found]
  rfl

section Steps

variable {e : Uuid} {s : SystemState}

private theorem retained_transact (inv : Retained e s) {tx : Transaction}
    (fresh : ∀ eventId ∈ s.used, eventId ∉ tx.calls.map Call.eventId)
    (issued : Issued (s.transacted tx).used (s.transacted tx).db) :
    Retained e (s.transacted tx) := by
  have grows := grows_execute tx s.db
  have more : ∀ {u : Uuid}, u ∈ s.used → u ∈ (s.transacted tx).used :=
    fun used => List.mem_append_left _ used
  -- A committed event of this transaction is new; its key row is in the tables it leaves.
  have origin : ∀ key, (e, key) ∈ (s.transacted tx).dispatched → (e, key) ∈ s.dispatched ∨
      e ∈ tx.calls.map Call.eventId ∧ Holds (s.transacted tx).db e key := by
    intro key mem
    change (e, key) ∈ (if commitsOn tx s.db then keyedEvents tx.calls s.db ++ s.dispatched
      else s.dispatched) at mem
    change _ ∨ _ ∧ Holds (tx.execute s.db) e key
    rw [execute_eq]
    split at mem
    · next commits =>
      rw [if_pos commits]
      exact (List.mem_append.mp mem).symm.imp_right keyedEvents_held
    · exact .inl mem
  refine ⟨issued, ?_, ?_, ?_, ?_, ?_⟩
  · intro key mem
    rcases origin key mem with old | ⟨own, -⟩
    · exact more (inv.known key old)
    · exact List.mem_append_right _ own
  · intro key mem live
    rcases origin key mem with old | ⟨-, held⟩
    · have same := grows.active_eq (fresh e (inv.known key old))
      exact (inv.held key old (same.symm.trans live)).grows grows
    · exact held
  · intro p call rows k found phase mem ids
    obtain ⟨used, quiet⟩ := inv.doomed p call rows k found phase mem ids
    exact ⟨more used, (grows.active_eq (fresh e used)).trans quiet⟩
  · intro i inv' found runs
    exact more (inv.running i inv' found runs)
  · intro key mem i inv' hctx found ids runs
    rcases origin key mem with old | ⟨own, -⟩
    · exact inv.handlers key old i inv' hctx found ids runs
    · have used := inv.running i inv' found (by rw [runs]; rfl)
      exact absurd own (fresh e (ids ▸ used))

private theorem retained_work (inv : Retained e s) {a : WorkerLabel} {w : WorkerState}
    (step : Step s.workers a w) (issued : Issued s.used w.db) :
    Retained e { s with workers := w } := by
  have keys : w.db.dispatchKeys = s.db.dispatchKeys := (step_frame step).dispatchKeys
  refine ⟨issued, inv.known, ?_, ?_, ?_, ?_⟩
  · intro key mem live
    obtain ⟨k, stored, facts⟩ := inv.held key mem (work_active step live)
    exact ⟨k, keys.symm ▸ stored, facts⟩
  · intro p call rows k found phase mem ids
    obtain ⟨used, quiet⟩ := inv.doomed p call rows k found phase mem ids
    refine ⟨used, Bool.eq_false_iff.mpr ?_⟩
    intro live
    exact Bool.eq_false_iff.mp quiet (work_active step live)
  · intro i inv' found runs
    obtain ⟨hctx, running⟩ := Option.isSome_iff_exists.mp runs
    rcases running_origin step found running with ⟨before, found', own, phase⟩ | ⟨r, row, -, -⟩
    · rw [← own]
      exact inv.running i before found' (by simpa only [handlerContext?, phase] using runs)
    · obtain ⟨stored, own⟩ := delivery?_mem row
      obtain ⟨ev, event, ids⟩ := s.db.deliveryEvent r stored
      have used := inv.issued.events ev event
      rw [ids] at used
      rw [← own]
      exact used
  · intro key mem i inv' hctx found ids runs
    rcases running_origin step found runs with ⟨before, found', own, phase⟩ | ⟨r, row, live, given⟩
    · refine inv.handlers key mem i before hctx found'
        ((congrArg HandlerEnvelope.eventId own).trans ids) ?_
      simpa only [handlerContext?, phase] using runs
    · rw [given, ids]
      refine keyOf_held (inv.held key mem ?_)
      rw [← ids]
      exact active_of_row row live

private theorem retained_purge (inv : Retained e s) (kind : PurgeKind) (cutoff : Timestamp) :
    Retained e { s with purges := s.purges ++ [PurgeCall.begin kind cutoff] } := by
  refine ⟨inv.issued, inv.known, inv.held, ?_, inv.running, inv.handlers⟩
  intro p call rows k found phase mem ids
  rcases List.mem_append.mp (List.mem_of_getElem? found) with old | new
  · obtain ⟨q, found'⟩ := List.getElem?_of_mem old
    exact inv.doomed q call rows k found' phase mem ids
  · cases List.mem_singleton.mp new
    cases phase

private theorem retained_call (inv : Retained e s) {p : ℕ} {call : PurgeCall}
    (harmless : ∀ rows k, call.phase = .deleting (.dispatchKeys rows) → k ∈ rows →
      k.eventId = e → e ∈ s.used ∧ active s.db e = false) :
    Retained e { s with purges := s.purges.set p call } := by
  refine ⟨inv.issued, inv.known, inv.held, ?_, inv.running, inv.handlers⟩
  intro q call' rows k found phase mem ids
  rcases List.mem_or_eq_of_mem_set (List.mem_of_getElem? found) with old | rfl
  · obtain ⟨q', found'⟩ := List.getElem?_of_mem old
    exact inv.doomed q' call' rows k found' phase mem ids
  · exact harmless rows k phase mem ids

private theorem retained_select (inv : Retained e s) {p : ℕ} {victims : Victims} {call : PurgeCall}
    (chosen : victims.selected call.cutoff s.db = true)
    (spared : spares e s (.select p victims) = true) :
    Retained e { s with purges := s.purges.set p { call with phase := .deleting victims } } := by
  refine retained_call inv ?_
  intro rows k phase mem ids
  cases phase
  obtain ⟨stamp, candidate⟩ := isChunk_mem chosen mem
  have used := inv.issued.keys k (eligibleKeys_mem candidate).1
  refine ⟨ids ▸ used, ?_⟩
  simp only [spares, Bool.or_eq_true, Bool.not_eq_true', List.all_eq_true] at spared
  rcases spared with quiet | other
  · exact quiet
  · exact absurd ids (of_decide_eq_true (other k mem))

private theorem held_deleted {db : Database} {victims : Victims} {key : String × String}
    (held : Holds db e key) (live : active (victims.delete db) e = true)
    (safe : ∀ rows k, victims = .dispatchKeys rows → k ∈ rows → k.eventId = e →
      active db e = false) : Holds (victims.delete db) e key := by
  obtain ⟨k, stored, same, ids⟩ := held
  refine ⟨k, ?_, same, ids⟩
  cases victims with
  | terminalDeliveries ids => exact stored
  | dispatchKeys rows =>
    refine Table.mem_delete.mpr ⟨stored, decide_eq_false ?_⟩
    intro mem
    have quiet := safe rows k rfl mem ids
    rw [active_deleted live] at quiet
    cases quiet
  | events gone =>
    -- The cascade takes the deliveries along with the key.
    obtain ⟨d, delivery, own, -⟩ := active_iff.mp live
    have spared := (Table.mem_delete.mp delivery).2
    rw [own] at spared
    exact Table.mem_delete.mpr ⟨stored, by rw [ids]; exact spared⟩

private theorem retained_delete (inv : Retained e s) {p : ℕ} {reply : Reply} {call : PurgeCall}
    {victims : Victims} (found : s.purges[p]? = some call) (phase : call.phase = .deleting victims)
    (issued : Issued (s.deleted p call victims reply).used (s.deleted p call victims reply).db) :
    Retained e (s.deleted p call victims reply) := by
  have moved : Retained e { s with
      purges := s.purges.set p (call.afterDelete (reply.answer s.db victims.statement)) } := by
    refine retained_call inv ?_
    intro rows k deleting
    exact absurd deleting (afterDelete_idle _ _ _)
  have after : (s.deleted p call victims reply).db = reply.after s.db victims.statement := rfl
  rcases after_delete victims s.db reply with same | gone
  · rw [same] at after
    exact ⟨issued, moved.known, by rw [after]; exact moved.held, by rw [after]; exact moved.doomed,
      moved.running, moved.handlers⟩
  · rw [gone] at after
    refine ⟨issued, moved.known, ?_, ?_, moved.running, moved.handlers⟩
    · rw [after]
      intro key mem live
      refine held_deleted (inv.held key mem (active_deleted live)) live ?_
      rintro rows k rfl chosen ids
      exact (inv.doomed p call rows k found phase chosen ids).2
    · rw [after]
      intro q call' rows k found' phase' chosen ids
      obtain ⟨used, quiet⟩ := moved.doomed q call' rows k found' phase' chosen ids
      refine ⟨used, Bool.eq_false_iff.mpr ?_⟩
      intro live
      exact Bool.eq_false_iff.mp quiet (active_deleted live)

private theorem retained_step {t : SystemState} {a : SystemLabel} (inv : Retained e s)
    (spared : spares e s a = true) (taken : system.step s a = some t) : Retained e t := by
  have issued := issued_step inv.issued taken
  cases systemStep_sound taken with
  | transact tx nodup fresh => exact retained_transact inv fresh issued
  | work a w step => exact retained_work inv (step_sound step) issued
  | purge kind cutoff => exact retained_purge inv kind cutoff
  | select p victims call found kind chosen => exact retained_select inv chosen spared
  | delete p reply call victims found phase => exact retained_delete inv found phase issued

private theorem repeats_retained (inv : Retained e s) (key : String × String) :
    Repeats s e key := by
  intro tx before after c o fresh calls dispatched live keyed ok
  have nodup : (s.used ++ tx.calls.map Call.eventId).Nodup := of_decide_eq_true fresh
  have held : Holds (dispatchAll before s.db).1 e key := by
    rcases List.mem_append.mp dispatched with here | earlier
    · exact (keyedEvents_held here).2
    · have other : e ∉ before.map Call.eventId := by
        intro own
        refine (List.nodup_append.mp nodup).2.2 e (inv.known key earlier) e ?_ rfl
        rw [calls, List.map_append]
        exact List.mem_append_left _ own
      have grows := grows_dispatchAll before s.db
      exact (inv.held key earlier ((grows.active_eq other).symm.trans live)).grows grows
  exact dispatch_held held keyed ok

end Steps

/-- In every run whose chunks of `purge_dispatch_keys` spare the key row of the event as long
as it has a non-terminal delivery, the key outlives the work. -/
theorem key_outlives_work {as : List SystemLabel} {s : SystemState} {e : Uuid}
    (spared : system.Along (fun u a _ => spares e u a = true) SystemState.start as)
    (reached : system.run SystemState.start as = some s) (key : String × String) :
    KeyHeld s e key := by
  have inv : Retained e s := Machine.run_invariant_along
    (fun u a v inv met taken => retained_step inv met taken) (retained_start e) spared reached
  exact ⟨inv.handlers key, repeats_retained inv key⟩

/-- A cutoff that is not later than the `created_at` of the event's key row spares it. -/
theorem spares_of_cutoff {e : Uuid} {s t : SystemState} {p : ℕ} {victims : Victims}
    {call : PurgeCall} (found : s.purges[p]? = some call)
    (taken : system.step s (.select p victims) = some t)
    (young : ∀ k ∈ s.db.dispatchKeys.rows, k.eventId = e → call.cutoff ≤ k.createdAt) :
    spares e s (.select p victims) = true := by
  cases systemStep_sound taken with
  | select p victims call' found' kind chosen =>
    rw [found] at found'
    cases Option.some.inj found'
    cases victims with
    | terminalDeliveries ids => rfl
    | events ids => rfl
    | dispatchKeys rows =>
      simp only [spares, Bool.or_eq_true, List.all_eq_true]
      refine .inr fun k mem => decide_eq_true ?_
      intro ids
      obtain ⟨stamp, candidate⟩ := isChunk_mem chosen mem
      obtain ⟨stored, old⟩ := eligibleKeys_mem candidate
      exact absurd (young k stored ids) (Int.not_le.mpr old)

/-- The purge of an hour's keys that finds nothing old enough, and the first attempt after it. -/
def purgedInTime : List SystemLabel :=
  [.transact ⟨[sampleCall "order.created" (some "order:42") 1#128], true⟩,
    .purge .dispatchKeys (-3600000000), .select 0 (.dispatchKeys []), .delete 0 .answered,
    .work (.handOut sampleRuntime sampleEnv (sampleContext 1 101#128)),
    .work (.claim 0 11 .answered)]

theorem key_outlives_work_in_time : ∃ s, system.run SystemState.start purgedInTime = some s ∧
    (1#128, "t1", "order:42") ∈ s.dispatched ∧ active s.db 1#128 = true ∧
    KeyHeld s 1#128 ("t1", "order:42") := by
  have spared : system.check (spares 1#128) SystemState.start purgedInTime = true := by decide
  have runs : (system.run SystemState.start purgedInTime).any (fun s =>
      (1#128, "t1", "order:42") ∈ s.dispatched && active s.db 1#128) = true := by decide
  obtain ⟨s, reached, facts⟩ := (Option.any_eq_true _ _).mp runs
  rw [Bool.and_eq_true] at facts
  exact ⟨s, reached, of_decide_eq_true facts.1, facts.2,
    key_outlives_work (Machine.along_of_check spared) reached _⟩

/-- The same run with a cutoff later than the dispatch. -/
def purgedTooEarly : List SystemLabel :=
  [.transact ⟨[sampleCall "order.created" (some "order:42") 1#128], true⟩,
    .purge .dispatchKeys 10, .select 0 (.dispatchKeys [⟨"t1", "order:42", 1#128, 0⟩]),
    .delete 0 .answered,
    .work (.handOut sampleRuntime sampleEnv (sampleContext 1 101#128)),
    .work (.claim 0 11 .answered)]

/-- The key is forgotten before the work is done: the handler sees none, and a repetition of
the dispatch is a second event. -/
theorem purged_key_forgotten : ∃ s, system.run SystemState.start purgedTooEarly = some s ∧
    (1#128, "t1", "order:42") ∈ s.dispatched ∧ active s.db 1#128 = true ∧
    ¬ HandlersSee s 1#128 ("t1", "order:42") ∧ ¬ Repeats s 1#128 ("t1", "order:42") := by
  have runs : (system.run SystemState.start purgedTooEarly).any (fun s =>
      (1#128, "t1", "order:42") ∈ s.dispatched && active s.db 1#128 &&
      (s.workers.invocations[0]?).any (fun inv => inv.env.eventId = 1#128 &&
        (handlerContext? inv).any fun hctx => hctx.dispatchIdempotencyKey = none) &&
      s.freshIds (.transact ⟨[sampleCall "order.created" (some "order:42") 2#128], true⟩) &&
      (dispatch (sampleCall "order.created" (some "order:42") 2#128) s.db).2.toOption =
        some (.dispatched 2#128 2)) = true := by decide
  obtain ⟨s, reached, facts⟩ := (Option.any_eq_true _ _).mp runs
  simp only [Bool.and_eq_true, decide_eq_true_eq] at facts
  obtain ⟨⟨⟨⟨dispatched, live⟩, first⟩, fresh⟩, again⟩ := facts
  refine ⟨s, reached, dispatched, live, ?_, ?_⟩
  · intro sees
    obtain ⟨inv, found, runs⟩ := (Option.any_eq_true _ _).mp first
    simp only [Bool.and_eq_true, decide_eq_true_eq] at runs
    obtain ⟨hctx, running, none⟩ := (Option.any_eq_true _ _).mp runs.2
    have given := sees dispatched 0 inv hctx found runs.1 running
    rw [of_decide_eq_true none] at given
    cases given
  · intro repeats
    have ok : (dispatch (sampleCall "order.created" (some "order:42") 2#128) s.db).2 =
        .ok (.dispatched 2#128 2) := by
      cases result : (dispatch (sampleCall "order.created" (some "order:42") 2#128) s.db).2 with
      | error e =>
        rw [result] at again
        cases again
      | ok o =>
        rw [result] at again
        exact congrArg Except.ok (Option.some.inj again)
    have duplicate := repeats ⟨_, true⟩ [] [] _ _ fresh rfl dispatched live rfl ok
    cases duplicate

end RustEvents.System.KeyRetention
