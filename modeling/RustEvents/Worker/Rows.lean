/- module: RustEvents/Worker/Rows
   layer: model facts
   source: src/runtime.rs, migrations/20260513000001_v01_outbox_init.sql (handler_deliveries constraints)
   digest: The invariant of a delivery row, kept by the claim and the four marks, so that no CHECK can object. -/

import RustEvents.Worker.Reasons
import RustEvents.Worker.Steps

set_option autoImplicit false
set_option relaxedAutoImplicit false

namespace RustEvents.Worker.Rows

open RustEvents.Foundation.IndexedTable
open RustEvents.Model.Text
open RustEvents.Model.Errors
open RustEvents.Model.Schema
open RustEvents.Model.Runtime
open RustEvents.Worker.Statements
open RustEvents.Worker.Steps
open RustEvents.Worker.Reasons

/-- What the schema promises of a delivery, and where `last_error` is NULL. -/
structure Consistent (r : HandlerDelivery) : Prop where
  statusInvariants : r.statusInvariants = true
  temporal : r.temporal = true
  attempts : 0 ≤ r.attempts
  lastError : ∀ text, r.lastError = some text → len text ≤ 8192 ∧ storable text = true
  lastErrorNull : r.lastError = none ↔ r.status = .queued ∨ r.status = .running ∨ r.status = .sent

/-- The invariant that carries it: the handler id passed its own CHECK, and no attempt is
later than the last change of the row. -/
structure Sound (r : HandlerDelivery) : Prop extends Consistent r where
  handlerBytes : between1 128 r.handlerId = true
  handlerText : storable r.handlerId = true
  attempted : ∀ stamp, r.lastAttemptedAt = some stamp → stamp ≤ r.updatedAt

theorem temporal_iff {r : HandlerDelivery} : r.temporal = true ↔
    (∀ first, r.firstAttemptedAt = some first → r.createdAt ≤ first) ∧
    (∀ last, r.lastAttemptedAt = some last → r.firstAttemptedAt.getD r.createdAt ≤ last) ∧
    (∀ finished, r.finishedAt = some finished → r.lastAttemptedAt.getD r.createdAt ≤ finished) ∧
    r.createdAt ≤ r.updatedAt := by
  simp only [HandlerDelivery.temporal, Bool.and_eq_true, decide_eq_true_eq, Option.all_eq_true,
    and_assoc]

private theorem running_stamps {r : HandlerDelivery} (sound : Sound r)
    (running : r.status = .running) :
    0 < r.attempts ∧ r.finishedAt = none ∧ ∃ first last, r.firstAttemptedAt = some first ∧
      r.lastAttemptedAt = some last := by
  have status := sound.statusInvariants
  simp only [HandlerDelivery.statusInvariants, running, Bool.and_eq_true, decide_eq_true_eq,
    Option.isNone_iff_eq_none, Option.isSome_iff_exists] at status
  obtain ⟨⟨⟨⟨attempts, first, started⟩, last, attempted⟩, unfinished⟩, -⟩ := status
  exact ⟨attempts, unfinished, first, last, started, attempted⟩

private theorem open_stamps {r : HandlerDelivery} (sound : Sound r)
    (live : r.status.isTerminal = false) : r.finishedAt = none ∧ (r.firstAttemptedAt = none ∨
      ∃ first last, r.firstAttemptedAt = some first ∧ r.lastAttemptedAt = some last) := by
  have status := sound.statusInvariants
  cases eqn : r.status with
  | queued =>
    simp only [HandlerDelivery.statusInvariants, eqn, Bool.and_eq_true,
      Option.isNone_iff_eq_none] at status
    exact ⟨status.1.2, .inl status.1.1.1.2⟩
  | running =>
    obtain ⟨-, unfinished, stamps⟩ := running_stamps sound eqn
    exact ⟨unfinished, .inr stamps⟩
  | awaitingRetry =>
    simp only [HandlerDelivery.statusInvariants, eqn, Bool.and_eq_true, decide_eq_true_eq,
      Option.isNone_iff_eq_none, Option.isSome_iff_exists] at status
    obtain ⟨⟨⟨⟨-, first, started⟩, last, attempted⟩, unfinished⟩, -⟩ := status
    exact ⟨unfinished, .inr ⟨first, last, started, attempted⟩⟩
  | sent => simp [eqn, DeliveryStatus.isTerminal] at live
  | skipped => simp [eqn, DeliveryStatus.isTerminal] at live
  | dead => simp [eqn, DeliveryStatus.isTerminal] at live

theorem sound_queued {id : ℕ} {eventId : Uuid} {now : Timestamp} {handlerId : String}
    (bytes : between1 128 handlerId = true) (text : storable handlerId = true) :
    Sound (Database.queuedRow id eventId now handlerId) := by
  refine ⟨⟨rfl, ?_, Int.le_refl 0, ?_, ?_⟩, bytes, text, ?_⟩
  · simp [HandlerDelivery.temporal, Database.queuedRow]
  · intro e eqn
    cases eqn
  · simp [Database.queuedRow]
  · intro stamp eqn
    cases eqn

private theorem sound_claim {r : HandlerDelivery} (sound : Sound r)
    (live : r.status.isTerminal = false)
    {now : Timestamp} (onTime : r.updatedAt ≤ now) (attempt : ℤ) (token : Uuid) :
    Sound ((claimSet attempt token now).apply r) := by
  obtain ⟨unfinished, stamps⟩ := open_stamps sound live
  obtain ⟨started, attempted, -, created⟩ := temporal_iff.mp sound.temporal
  have born : r.createdAt ≤ now := Int.le_trans created onTime
  have first : r.createdAt ≤ r.firstAttemptedAt.getD now ∧ r.firstAttemptedAt.getD now ≤ now := by
    rcases stamps with none | ⟨first, last, some, again⟩
    · rw [none]
      exact ⟨born, Int.le_refl now⟩
    · have order := attempted last again
      rw [some] at order ⊢
      exact ⟨started first some, Int.le_trans order (Int.le_trans (sound.attempted last again) onTime)⟩
  have positive : 0 < max (max r.attempts attempt) 1 :=
    Int.lt_of_lt_of_le Int.one_pos (Int.le_max_right _ _)
  refine ⟨⟨?_, ?_, Int.le_of_lt positive, ?_, ?_⟩, sound.handlerBytes, sound.handlerText, ?_⟩
  · simp only [HandlerDelivery.statusInvariants, claimSet, unfinished, decide_eq_true positive]
    rfl
  · refine temporal_iff.mpr ⟨?_, ?_, ?_, born⟩
    · rintro stamp ⟨⟩
      exact first.1
    · rintro stamp ⟨⟩
      exact first.2
    · intro finished eqn
      cases unfinished.symm.trans eqn
  · intro text eqn
    cases eqn
  · simp [claimSet]
  · rintro stamp ⟨⟩
    exact Int.le_refl now

private theorem sound_finish {r : HandlerDelivery} (sound : Sound r) (running : r.status = .running)
    {now : Timestamp} (onTime : r.updatedAt ≤ now) {status : DeliveryStatus}
    (terminal : status.isTerminal = true) {lastError : Option String}
    (text : ∀ e, lastError = some e → len e ≤ 8192 ∧ storable e = true)
    (null : lastError = none ↔ status = .sent) :
    Sound ((finishSet status lastError now).apply r) := by
  obtain ⟨attempts, -, first, last, started, attempted⟩ := running_stamps sound running
  obtain ⟨born, order, -, created⟩ := temporal_iff.mp sound.temporal
  have late : last ≤ now := Int.le_trans (sound.attempted last attempted) onTime
  refine ⟨⟨?_, ?_, sound.attempts, text, ?_⟩, sound.handlerBytes, sound.handlerText, ?_⟩
  · cases status <;>
      simp_all [HandlerDelivery.statusInvariants, finishSet, DeliveryStatus.isTerminal]
  · refine temporal_iff.mpr ⟨born, order, ?_, Int.le_trans created onTime⟩
    rintro finished ⟨⟩
    change r.lastAttemptedAt.getD r.createdAt ≤ now
    rw [attempted]
    exact late
  · cases status <;> simp_all [finishSet, DeliveryStatus.isTerminal]
  · intro stamp eqn
    cases Option.some.inj (attempted.symm.trans eqn)
    exact late

private theorem sound_await {r : HandlerDelivery} (sound : Sound r) (running : r.status = .running)
    {now : Timestamp} (onTime : r.updatedAt ≤ now) {text : String}
    (short : len text ≤ 8192 ∧ storable text = true) : Sound ((awaitSet text now).apply r) := by
  obtain ⟨attempts, unfinished, first, last, started, attempted⟩ := running_stamps sound running
  obtain ⟨born, order, -, created⟩ := temporal_iff.mp sound.temporal
  refine ⟨⟨?_, ?_, sound.attempts, ?_, ?_⟩, sound.handlerBytes, sound.handlerText, ?_⟩
  · simp [HandlerDelivery.statusInvariants, awaitSet, attempts, started, attempted, unfinished]
  · refine temporal_iff.mpr ⟨born, order, ?_, Int.le_trans created onTime⟩
    intro finished eqn
    cases unfinished.symm.trans eqn
  · rintro e ⟨⟩
    exact short
  · simp [awaitSet]
  · intro stamp eqn
    exact Int.le_trans (sound.attempted stamp eqn) onTime

private theorem sound_mark {r : HandlerDelivery} (sound : Sound r) (running : r.status = .running)
    {now : Timestamp} (onTime : r.updatedAt ≤ now) (mark : Mark) :
    Sound ((Mark.set now mark).apply r) := by
  have text : ∀ reason, len (trimmedReason reason) ≤ 8192 ∧
      storable (trimmedReason reason) = true := fun reason =>
    ⟨trimmedReason_len reason, storable_of_clean (trimmedReason_clean reason)⟩
  cases mark with
  | sent => exact sound_finish sound running onTime rfl (by simp) (by simp)
  | awaitingRetry reason => exact sound_await sound running onTime (text reason)
  | dead reason =>
    exact sound_finish sound running onTime rfl (fun e eqn => Option.some.inj eqn ▸ text reason)
      (by simp)
  | skipped reason =>
    exact sound_finish sound running onTime rfl (fun e eqn => Option.some.inj eqn ▸ text reason)
      (by simp)

private theorem sound_violates_none {r : HandlerDelivery} (sound : Sound r) :
    r.violated = none := by
  have all : ∀ check, DeliveryCheck.holds r check = true := by
    intro check
    cases check with
    | handlerBytes => exact sound.handlerBytes
    | attemptsNonneg => exact decide_eq_true sound.attempts
    | lastErrorBytes =>
      simp only [DeliveryCheck.holds, Option.all_eq_true, decide_eq_true_eq]
      exact fun text eqn => (sound.lastError text eqn).1
    | temporal => exact sound.temporal
    | statusInvariants => exact sound.statusInvariants
  simp [HandlerDelivery.violated, violated, all]

/-- Every stored delivery is sound. -/
def SoundRows (db : Database) : Prop := ∀ r ∈ db.handlerDeliveries.rows, Sound r

private theorem updateDeliveries_sound {db : Database} (rows : SoundRows db)
    (hit : HandlerDelivery → Bool) (set : SetClause)
    (keeps : ∀ r ∈ db.handlerDeliveries.rows, hit r = true → Sound (set.apply r)) :
    db.updateDeliveries hit set = .ok (db.updated hit set, db.handlerDeliveries.rows.countP hit) ∧
      SoundRows (db.updated hit set) := by
  have none : (db.handlerDeliveries.rows.filter hit).findSome?
      (fun r => (set.apply r).violated) = none := by
    rw [List.findSome?_eq_none_iff]
    intro r mem
    obtain ⟨stored, chosen⟩ := List.mem_filter.mp mem
    exact sound_violates_none (keeps r stored chosen)
  refine ⟨by simp only [Database.updateDeliveries, none], ?_⟩
  intro r mem
  obtain ⟨before, stored, rfl⟩ := Table.mem_update.mp mem
  split
  · next chosen => exact keeps before stored chosen
  · exact rows before stored

section Statements

variable {db : Database} {env : HandlerEnvelope} {r : HandlerDelivery} {now : Timestamp}

private theorem same_id (found : db.delivery? env = some r) {other : HandlerDelivery}
    (stored : other ∈ db.handlerDeliveries.rows) (ids : other.id = r.id) : other = r :=
  Table.eq_of_key deliveries_separates_id stored (delivery?_mem found).1 ids

theorem claim_succeeds (rows : SoundRows db) (found : db.delivery? env = some r)
    (onTime : r.updatedAt ≤ now) (ctx : JobContext) :
    ∃ db' row, claimStatement env ctx now db = .ok (db', some row) ∧
      row.prevStatus = some r.status ∧ row.didUpdate = !r.status.isTerminal ∧ SoundRows db' := by
  obtain ⟨stored, own⟩ := delivery?_mem found
  have text : storable env.handlerId = true := own ▸ (rows r stored).handlerText
  obtain ⟨update, sound⟩ := updateDeliveries_sound rows
    (fun hd => hd.id = r.id && !r.status.isTerminal)
    (claimSet (i32Saturating ctx.attempt) ctx.leaseToken now) (by
      intro other mem chosen
      simp only [Bool.and_eq_true, decide_eq_true_eq, Bool.not_eq_true'] at chosen
      rw [same_id found mem chosen.1]
      exact sound_claim (rows r stored) chosen.2 onTime _ _)
  have counted : decide (0 < db.handlerDeliveries.rows.countP
      (fun hd => hd.id = r.id && !r.status.isTerminal)) = !r.status.isTerminal := by
    cases live : r.status.isTerminal with
    | true => simp
    | false =>
      refine decide_eq_true (List.countP_pos_iff.mpr ⟨r, stored, ?_⟩)
      simp
  obtain ⟨row, selected, prev, updated⟩ :=
    claimSelect_some found (some r.status) (!r.status.isTerminal)
  refine ⟨_, row, ?_, prev, updated, sound⟩
  simp only [claimStatement, text, found, update, counted, selected, if_true]

theorem mark_succeeds (rows : SoundRows db) (found : db.delivery? env = some r)
    (onTime : r.updatedAt ≤ now) (mark : Mark) (token : Uuid) :
    ∃ db' n, mark.statement env token now db = .ok (db', n) ∧ SoundRows db' := by
  obtain ⟨stored, own⟩ := delivery?_mem found
  have text : storable env.handlerId = true := own ▸ (rows r stored).handlerText
  have reason : ∀ text, storable (trimmedReason text) = true :=
    fun text => storable_of_clean (trimmedReason_clean text)
  obtain ⟨update, sound⟩ := updateDeliveries_sound rows (fencedBy env token) (Mark.set now mark) (by
      intro other mem chosen
      simp only [fencedBy, Bool.and_eq_true, decide_eq_true_eq] at chosen
      have same : r.envelope = other.envelope := own.trans chosen.1.1.symm
      cases Table.eq_of_key deliveries_separates_envelope stored mem same
      exact sound_mark (rows r stored) chosen.1.2 onTime mark)
  refine ⟨_, db.handlerDeliveries.rows.countP (fencedBy env token), ?_, sound⟩
  rw [← update]
  cases mark <;>
    simp [Mark.statement, Mark.set, markSentFenced, markAwaitingRetryFenced, markDeadFenced,
      markSkippedFenced, markFenced, text, reason]

end Statements

end RustEvents.Worker.Rows
