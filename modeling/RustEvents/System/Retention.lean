/- module: RustEvents/System/Retention
   layer: system
   source: src/purge.rs, src/outbox.rs (Outbox::dispatch), migrations (ON DELETE CASCADE)
   digest: Rows of the calls since a moment stay in place while the purges do not reach back to it. -/

import RustEvents.System.Chronicle
import RustEvents.Worker.Rows

set_option autoImplicit false
set_option relaxedAutoImplicit false

namespace RustEvents.System.Retention

open RustEvents.Foundation.LabelledRuns (Machine)
open RustEvents.Foundation.IndexedTable (Table)
open RustEvents.Model.Errors
open RustEvents.Model.Schema
open RustEvents.Model.Dispatch
open RustEvents.Model.Runtime
open RustEvents.Model.Purge
open RustEvents.Dispatch.Effects
open RustEvents.Worker.Statements
open RustEvents.Worker.Steps
open RustEvents.Worker.Rows (temporal_iff)
open RustEvents.Worker.Origins
open RustEvents.System.Lifecycle
open RustEvents.System.PurgeSafety
open RustEvents.System.Chronicle

/-- No purge of these kinds has a cutoff after `since`. -/
def keepsSince (since : Timestamp) (kinds : PurgeKind → Bool) : SystemLabel → Bool
  | .purge kind cutoff => !kinds kind || cutoff ≤ since
  | _ => true

section Finishing

/-- No delivery is finished before it is created. -/
def FinishesLater (db : Database) : Prop :=
  ∀ d ∈ db.handlerDeliveries.rows, ∀ finishedAt, d.finishedAt = some finishedAt →
    d.createdAt ≤ finishedAt

private theorem temporal_finished {d : HandlerDelivery} (temporal : d.temporal = true)
    {finishedAt : Timestamp} (finished : d.finishedAt = some finishedAt) :
    d.createdAt ≤ finishedAt := by
  obtain ⟨first, last, final, -⟩ := temporal_iff.mp temporal
  have closing := final finishedAt finished
  cases attempted : d.lastAttemptedAt with
  | none =>
    rw [attempted] at closing
    exact closing
  | some lastAt =>
    rw [attempted] at closing
    have middle := last lastAt attempted
    cases started : d.firstAttemptedAt with
    | none =>
      rw [started] at middle
      exact Int.le_trans middle closing
    | some firstAt =>
      rw [started] at middle
      exact Int.le_trans (first firstAt started) (Int.le_trans middle closing)

private theorem temporal_of_violated {d : HandlerDelivery} (passes : d.violated = none) :
    d.temporal = true := by
  simp only [HandlerDelivery.violated, violated, Option.map_eq_none_iff, List.find?_eq_none]
    at passes
  have holds := passes ("handler_deliveries_temporal", .temporal) (by simp [deliveryChecks])
  simpa [DeliveryCheck.holds] using holds

variable {db db' : Database} {n : ℕ}

private theorem finishesLater_update {hit : HandlerDelivery → Bool} {set : SetClause}
    (rows : FinishesLater db) (done : db.updateDeliveries hit set = .ok (db', n)) :
    FinishesLater db' := by
  -- The CHECK stands guard over every UPDATE.
  simp only [Database.updateDeliveries] at done
  split at done
  · cases done
  next passes =>
  cases done
  intro d mem finishedAt finished
  obtain ⟨before, stored, rfl⟩ := Table.mem_update.mp mem
  by_cases chosen : hit before = true
  · rw [if_pos chosen] at finished ⊢
    have free : (set.apply before).violated = none :=
      List.findSome?_eq_none_iff.mp passes before (List.mem_filter.mpr ⟨stored, chosen⟩)
    exact temporal_finished (temporal_of_violated free) finished
  · rw [if_neg chosen] at finished ⊢
    exact rows before stored finishedAt finished

private theorem finishesLater_mark {env : HandlerEnvelope} {token : Uuid} {now : Timestamp}
    {mark : Mark}
    (rows : FinishesLater db) (done : mark.statement env token now db = .ok (db', n)) :
    FinishesLater db' := by
  cases mark <;>
    simp only [Mark.statement, markSentFenced, markAwaitingRetryFenced, markDeadFenced,
      markSkippedFenced, markFenced] at done <;>
    split at done <;> first | cases done | exact finishesLater_update rows done

private theorem finishesLater_claim {env : HandlerEnvelope} {ctx : JobContext} {now : Timestamp}
    {row : Option ClaimRow} (rows : FinishesLater db)
    (done : claimStatement env ctx now db = .ok (db', row)) : FinishesLater db' := by
  simp only [claimStatement] at done
  split at done
  case isFalse => cases done
  split at done
  · cases done
    exact rows
  split at done
  · cases done
  · next db1 updated statement =>
    cases done
    exact finishesLater_update rows statement

private theorem finishesLater_reply {β : Type} {reply : Reply}
    {statement : Database → Except SqlxError (Database × β)} (rows : FinishesLater db)
    (keeps : ∀ db' b, statement db = .ok (db', b) → FinishesLater db') :
    FinishesLater (reply.after db statement) := by
  cases effect : reply.effect db statement with
  | none =>
    rw [after_of_none effect]
    exact rows
  | some result =>
    rw [after_of_effect effect]
    exact keeps result.1 result.2 (effect_some effect)

private theorem finishesLater_work {s t : WorkerState} {a : WorkerLabel} (rows : FinishesLater s.db)
    (step : Step s a t) : FinishesLater t.db := by
  cases step with
  | handOut => exact rows
  | claim i inv now reply found alive phase =>
    exact finishesLater_reply rows fun db' row done => finishesLater_claim rows done
  | handler => exact rows
  | mark i inv now reply mark verdict found alive phase =>
    exact finishesLater_reply rows fun db' n done => finishesLater_mark rows done
  | crash => exact rows

private theorem covers_finishesLater (cs : List Call) :
    Covers cs fun db db' => FinishesLater db → FinishesLater db' where
  refl _ rows := rows
  trans first second rows := second (first rows)
  reserves c _ db db' reserves rows := by
    intro d stored
    rw [reserves.deliveries] at stored
    exact rows d stored
  inserts c _ payload handlerIds db db' inserts rows := by
    intro d stored finishedAt finished
    rw [inserts.deliveries] at stored
    rcases List.mem_append.mp stored with old | new
    · exact rows d old finishedAt finished
    · obtain ⟨-, -, -, -, shape⟩ := Database.queuedRows_spec new
      rw [shape] at finished
      cases finished
  pushes _ _ rows := rows

private theorem finishesLater_step {s t : SystemState} {a : SystemLabel} (rows : FinishesLater s.db)
    (taken : system.step s a = some t) : FinishesLater t.db := by
  cases systemStep_sound taken with
  | transact tx nodup fresh => exact execute_covered (covers_finishesLater tx.calls) s.db rows
  | work a w step => exact finishesLater_work rows (step_sound step)
  | purge kind cutoff => exact rows
  | select p victims call found kind chosen => exact rows
  | delete p reply call victims found phase =>
    change FinishesLater (reply.after s.db victims.statement)
    rcases after_delete victims s.db reply with same | gone
    · rw [same]
      exact rows
    · rw [gone]
      exact fun d stored => rows d (delete_subset stored)

end Finishing

/-- What a pending DELETE takes belongs to calls from before `since`. -/
def TakesOld (since : Timestamp) (past : List Call) (s : SystemState) : Victims → Prop
  | .terminalDeliveries ids => ∀ id ∈ ids, id < s.db.nextDeliveryId ∧
      ∀ d ∈ s.db.handlerDeliveries.rows, d.id = id →
        d.status.isTerminal = true ∧ d.createdAt < since
  | .dispatchKeys rows => ∀ k ∈ rows, k.createdAt < since
  | .events ids => ∀ eventId ∈ ids, eventId ∈ s.used ∧
      ∀ c ∈ past, c.eventId = eventId → c.now < since

/-- The invariant of the runs whose purges of these kinds keep everything since then. -/
structure Observes (since : Timestamp) (kinds : PurgeKind → Bool) (past : List Call)
    (s : SystemState) : Prop where
  chronicled : Chronicled past s
  finishes : FinishesLater s.db
  cutoffs : ∀ call ∈ s.purges, kinds call.kind = true → call.cutoff ≤ since
  pending : ∀ call ∈ s.purges, ∀ victims, call.phase = .deleting victims →
    kinds victims.kind = true → TakesOld since past s victims

private theorem keyRow_columns {c : Call} {k : DispatchKeyRow} (row : keyRow c = some k) :
    k.eventId = c.eventId ∧ k.createdAt = c.now := by
  obtain ⟨key, -, rfl⟩ := Option.map_eq_some_iff.mp row
  exact ⟨rfl, rfl⟩

section Steps

variable {since : Timestamp} {kinds : PurgeKind → Bool} {past : List Call} {s t : SystemState}
  {a : SystemLabel}

private theorem takesOld_step {victims : Victims} (old : TakesOld since past s victims)
    (taken : system.step s a = some t) : TakesOld since (past ++ persisted s a t) t victims := by
  -- A pending DELETE of old rows does not come to take younger ones.
  cases victims with
  | dispatchKeys rows => exact old
  | events ids =>
    intro eventId mem
    obtain ⟨used, calls⟩ := old eventId mem
    cases systemStep_sound taken with
    | transact tx nodup fresh =>
      refine ⟨List.mem_append_left _ used, ?_⟩
      intro c own same
      rcases List.mem_append.mp own with before | created
      · exact calls c before same
      · simp only [persisted] at created
        split at created
        · have entered := (creations_ids tx.calls s.db).subset (List.mem_map_of_mem created)
          rw [same] at entered
          exact absurd entered (fresh eventId used)
        · cases created
    | work a w step => exact ⟨used, by simpa [persisted] using calls⟩
    | purge kind cutoff => exact ⟨used, by simpa [persisted] using calls⟩
    | select p chosen call found kind selected => exact ⟨used, by simpa [persisted] using calls⟩
    | delete p reply call gone found phase => exact ⟨used, by simpa [persisted] using calls⟩
  | terminalDeliveries ids =>
    intro id mem
    obtain ⟨low, rows⟩ := old id mem
    cases systemStep_sound taken with
    | transact tx nodup fresh =>
      obtain ⟨-, ⟨new, appended, high⟩, next⟩ := appends_execute tx s.db
      refine ⟨Nat.lt_of_lt_of_le low next, ?_⟩
      rintro d stored rfl
      change d ∈ (tx.execute s.db).handlerDeliveries.rows at stored
      rw [appended] at stored
      rcases List.mem_append.mp stored with before | young
      · exact rows d before rfl
      · exact absurd low (Nat.not_lt.mpr (high d young))
    | work a w step =>
      have inner := step_sound step
      refine ⟨Nat.lt_of_lt_of_le low (Nat.le_of_eq (step_frame inner).nextDeliveryId.symm), ?_⟩
      rintro d stored rfl
      obtain ⟨d', before, same, kept⟩ := work_origin inner stored
      have closed := rows d' before same
      rw [← kept closed.1]
      exact closed
    | purge kind cutoff => exact ⟨low, rows⟩
    | select p chosen call found kind selected => exact ⟨low, rows⟩
    | delete p reply call gone found phase =>
      change id < (reply.after s.db gone.statement).nextDeliveryId ∧
        ∀ d ∈ (reply.after s.db gone.statement).handlerDeliveries.rows, d.id = id →
          d.status.isTerminal = true ∧ d.createdAt < since
      rcases after_delete gone s.db reply with same | done
      · rw [same]
        exact ⟨low, rows⟩
      · rw [done, delete_nextId]
        exact ⟨low, fun d stored => rows d (delete_subset stored)⟩

private theorem takesOld_selected {victims : Victims} {cutoff : Timestamp}
    (chronicled : Chronicled past s) (finishes : FinishesLater s.db) (limit : cutoff ≤ since)
    (chosen : victims.selected cutoff s.db = true) : TakesOld since past s victims := by
  cases victims with
  | dispatchKeys rows =>
    intro k mem
    obtain ⟨stamp, candidate⟩ := isChunk_mem chosen mem
    exact Int.lt_of_lt_of_le (eligibleKeys_mem candidate).2 limit
  | events ids =>
    intro eventId mem
    obtain ⟨stamp, candidate⟩ := isChunk_mem chosen mem
    simp only [eligibleEvents, List.mem_map, List.mem_filter, Bool.and_eq_true,
      decide_eq_true_eq] at candidate
    obtain ⟨e, ⟨stored, aged, -⟩, pair⟩ := candidate
    cases pair
    obtain ⟨c, own, payload, -, shape⟩ := chronicled.recorded.events e stored
    have eventOf : e.id = c.eventId := congrArg EventRow.id shape
    have stampOf : e.createdAt = c.now := congrArg EventRow.createdAt shape
    refine ⟨?_, ?_⟩
    · rw [eventOf]
      exact chronicled.used c own
    · intro c' own' same
      rw [chronicled.unique own' own (same.trans eventOf), ← stampOf]
      exact Int.lt_of_lt_of_le aged limit
  | terminalDeliveries ids =>
    intro id mem
    obtain ⟨stamp, candidate⟩ := isChunk_mem chosen mem
    obtain ⟨d, stored, selected⟩ := List.mem_filterMap.mp candidate
    split at selected
    · next terminal =>
      obtain ⟨finishedAt, finished, pair⟩ := Option.map_eq_some_iff.mp selected
      obtain ⟨finished, aged⟩ := Option.filter_eq_some_iff.mp finished
      have early := finishes d stored finishedAt finished
      cases pair
      refine ⟨s.db.deliveryIds d stored, ?_⟩
      intro d' stored' same
      rw [Table.eq_of_key deliveries_separates_id stored' stored same]
      refine ⟨terminal, ?_⟩
      exact Int.lt_of_le_of_lt early (Int.lt_of_lt_of_le (of_decide_eq_true aged) limit)
    · cases selected

theorem observes_step (inv : Observes since kinds past s)
    (allowed : keepsSince since kinds a = true) (taken : system.step s a = some t) :
    Observes since kinds (past ++ persisted s a t) t := by
  have stays : ∀ call ∈ s.purges, ∀ victims, call.phase = .deleting victims →
      kinds victims.kind = true → TakesOld since (past ++ persisted s a t) t victims :=
    fun call mem victims phase kept =>
      takesOld_step (inv.pending call mem victims phase kept) taken
  refine ⟨chronicled_step inv.chronicled taken, finishesLater_step inv.finishes taken, ?_, ?_⟩
  · cases systemStep_sound taken with
    | transact tx nodup fresh => exact inv.cutoffs
    | work a w step => exact inv.cutoffs
    | purge kind cutoff =>
      intro call mem kept
      rcases List.mem_append.mp mem with before | new
      · exact inv.cutoffs call before kept
      · cases List.mem_singleton.mp new
        have honoured : kinds kind = true := kept
        simp only [keepsSince, honoured, Bool.not_true, Bool.false_or] at allowed
        exact of_decide_eq_true allowed
    | select p victims call found kind chosen =>
      intro call' mem kept
      rcases List.mem_or_eq_of_mem_set mem with before | rfl
      · exact inv.cutoffs call' before kept
      · exact inv.cutoffs call (List.mem_of_getElem? found) kept
    | delete p reply call victims found phase =>
      intro call' mem kept
      rcases List.mem_or_eq_of_mem_set mem with before | rfl
      · exact inv.cutoffs call' before kept
      · have same : (call.afterDelete (reply.answer s.db victims.statement)).kind = call.kind ∧
            (call.afterDelete (reply.answer s.db victims.statement)).cutoff = call.cutoff := by
          cases reply.answer s.db victims.statement <;> exact ⟨rfl, rfl⟩
        rw [same.1] at kept
        rw [same.2]
        exact inv.cutoffs call (List.mem_of_getElem? found) kept
  · cases systemStep_sound taken with
    | transact tx nodup fresh => exact stays
    | work a w step => exact stays
    | purge kind cutoff =>
      intro call mem victims phase
      rcases List.mem_append.mp mem with before | new
      · exact stays call before victims phase
      · cases List.mem_singleton.mp new
        cases phase
    | select p victims call found kind chosen =>
      intro call' mem victims' phase kept
      rcases List.mem_or_eq_of_mem_set mem with before | rfl
      · exact stays call' before victims' phase kept
      · cases phase
        rw [kind] at kept
        have limit := inv.cutoffs call (List.mem_of_getElem? found) kept
        exact takesOld_step (takesOld_selected inv.chronicled inv.finishes limit chosen) taken
    | delete p reply call victims found phase =>
      intro call' mem victims' phase'
      rcases List.mem_or_eq_of_mem_set mem with before | rfl
      · exact stays call' before victims' phase'
      · exact absurd phase' (afterDelete_idle _ _ _)

theorem observes_start (since : Timestamp) (kinds : PurgeKind → Bool) :
    Observes since kinds [] SystemState.start := by
  refine ⟨chronicled_start, ?_, ?_, ?_⟩
  · intro d stored
    cases stored
  · intro call mem
    cases mem
  · intro call mem
    cases mem

theorem key_stays (inv : Observes since kinds past s) (keys : kinds .dispatchKeys = true)
    (events : kinds .events = true) (taken : system.step s a = some t) {c : Call}
    (mem : c ∈ past) (recent : since ≤ c.now) {k : DispatchKeyRow} (row : keyRow c = some k)
    (stored : k ∈ s.db.dispatchKeys.rows) : k ∈ t.db.dispatchKeys.rows := by
  obtain ⟨eventOf, stampOf⟩ := keyRow_columns row
  cases systemStep_sound taken with
  | transact tx nodup fresh => exact (grows_execute tx s.db).key_stored stored
  | work a w step =>
    change k ∈ w.db.dispatchKeys.rows
    rw [(step_frame (step_sound step)).dispatchKeys]
    exact stored
  | purge kind cutoff => exact stored
  | select p victims call found kind chosen => exact stored
  | delete p reply call victims found phase =>
    have old := inv.pending call (List.mem_of_getElem? found) victims phase
    change k ∈ (reply.after s.db victims.statement).dispatchKeys.rows
    rcases after_delete victims s.db reply with same | gone
    · rw [same]
      exact stored
    · rw [gone]
      cases victims with
      | terminalDeliveries ids => exact stored
      | dispatchKeys rows =>
        refine Table.mem_delete.mpr ⟨stored, decide_eq_false ?_⟩
        intro hit
        have early := old keys k hit
        rw [stampOf] at early
        exact Int.not_lt.mpr recent early
      | events ids =>
        refine Table.mem_delete.mpr ⟨stored, decide_eq_false ?_⟩
        intro hit
        exact Int.not_lt.mpr recent ((old events k.eventId hit).2 c mem eventOf.symm)

end Steps

end RustEvents.System.Retention
