/- module: RustEvents/Worker/Statements
   layer: model facts
   source: src/runtime.rs
   digest: What the claim CTE and the fenced marks do to the delivery rows, and what they leave alone. -/

import RustEvents.Model.Runtime

set_option autoImplicit false
set_option relaxedAutoImplicit false

namespace RustEvents.Worker.Statements

open RustEvents.Foundation.IndexedTable
open RustEvents.Model.Errors
open RustEvents.Model.Schema
open RustEvents.Model.Runtime

theorem delivery?_mem {db : Database} {env : HandlerEnvelope} {r : HandlerDelivery}
    (found : db.delivery? env = some r) : r ∈ db.handlerDeliveries.rows ∧ r.envelope = env :=
  Table.find_mem found

theorem delivery?_of_mem {db : Database} {r : HandlerDelivery}
    (stored : r ∈ db.handlerDeliveries.rows) : db.delivery? r.envelope = some r :=
  (Table.find_eq_some deliveries_separates_envelope).mpr ⟨stored, rfl⟩

theorem event?_of_delivery {db : Database} {env : HandlerEnvelope} {r : HandlerDelivery}
    (found : db.delivery? env = some r) : ∃ e, db.event? env.eventId = some e := by
  obtain ⟨stored, own⟩ := delivery?_mem found
  obtain ⟨e, event, ids⟩ := db.deliveryEvent r stored
  exact ⟨e, (Table.find_eq_some events_separates_id).mpr ⟨event, ids.trans (own ▸ rfl)⟩⟩

theorem delivery?_updated (db : Database) (hit : HandlerDelivery → Bool) (set : SetClause)
    (env : HandlerEnvelope) :
    (db.updated hit set).delivery? env =
      (db.delivery? env).map fun r => if hit r then set.apply r else r :=
  Table.find_update (show ∀ r, (set.rowUpdate.apply r).envelope = r.envelope from set.envelope_apply) env

private theorem updated_congr {db : Database} {hit hit' : HandlerDelivery → Bool} {set : SetClause}
    (agree : ∀ r ∈ db.handlerDeliveries.rows, hit r = hit' r) :
    db.updated hit set = db.updated hit' set := by
  have rows : db.handlerDeliveries.update hit set.rowUpdate =
      db.handlerDeliveries.update hit' set.rowUpdate := by
    apply Table.ext
    exact List.map_congr_left fun r hr => by rw [agree r hr]
  simp only [Database.updated, rows]

theorem updated_none {db : Database} {hit : HandlerDelivery → Bool} {set : SetClause}
    (quiet : ∀ r ∈ db.handlerDeliveries.rows, hit r = false) : db.updated hit set = db := by
  have rows : db.handlerDeliveries.update hit set.rowUpdate = db.handlerDeliveries := by
    apply Table.ext
    change db.handlerDeliveries.rows.map _ = _
    rw [List.map_congr_left (g := id) fun r hr => by simp [quiet r hr], List.map_id]
  simp only [Database.updated, rows]

private theorem updateDeliveries_ok {db db' : Database} {hit : HandlerDelivery → Bool}
    {set : SetClause} {n : ℕ} (done : db.updateDeliveries hit set = .ok (db', n)) :
    db' = db.updated hit set ∧ n = db.handlerDeliveries.rows.countP hit := by
  simp only [Database.updateDeliveries] at done
  split at done
  · cases done
  · cases done
    exact ⟨rfl, rfl⟩

/-- The row a claim leaves behind. -/
def claimRow (ctx : JobContext) (now : Timestamp) (r : HandlerDelivery) : HandlerDelivery :=
  if r.status.isTerminal then r
  else (claimSet (i32Saturating ctx.attempt) ctx.leaseToken now).apply r

theorem id_iff_envelope {db : Database} {env : HandlerEnvelope} {r locked : HandlerDelivery}
    (stored : r ∈ db.handlerDeliveries.rows) (found : db.delivery? env = some locked) :
    r.id = locked.id ↔ r.envelope = env := by
  obtain ⟨lockedStored, own⟩ := delivery?_mem found
  constructor
  · intro eqn
    rw [Table.eq_of_key deliveries_separates_id stored lockedStored eqn]
    exact own
  · intro eqn
    rw [Table.eq_of_key deliveries_separates_envelope stored lockedStored (eqn.trans own.symm)]

/-- The three outcomes of the claim statement: no row, a terminal row, a stamped row. -/
theorem claim_cases {env : HandlerEnvelope} {ctx : JobContext} {now : Timestamp}
    {db db' : Database} {row : Option ClaimRow}
    (done : claimStatement env ctx now db = .ok (db', row)) :
    (db.delivery? env = none ∧ db' = db ∧ row = claimSelect db env.eventId none false) ∨
    (∃ r, db.delivery? env = some r ∧ r.status.isTerminal = true ∧ db' = db ∧
      row = claimSelect db env.eventId (some r.status) false) ∨
    (∃ r, db.delivery? env = some r ∧ r.status.isTerminal = false ∧
      db' = db.updated (fun hd => hd.envelope = env)
        (claimSet (i32Saturating ctx.attempt) ctx.leaseToken now) ∧
      row = claimSelect db env.eventId (some r.status) true) := by
  simp only [claimStatement] at done
  split at done
  case isFalse => cases done
  split at done
  · next missing =>
    cases done
    exact .inl ⟨missing, rfl, rfl⟩
  next locked found =>
  have stored := (delivery?_mem found).1
  split at done
  · cases done
  next db1 updated statement =>
  obtain ⟨rfl, rfl⟩ := updateDeliveries_ok statement
  cases done
  by_cases terminal : locked.status.isTerminal = true
  · refine .inr (.inl ⟨locked, found, terminal, updated_none (by simp [terminal]), ?_⟩)
    simp [terminal]
  · have same : ∀ r ∈ db.handlerDeliveries.rows,
        (decide (r.id = locked.id) && !locked.status.isTerminal) = decide (r.envelope = env) := by
      intro r hr
      have ids := id_iff_envelope hr found
      simp [terminal, ids]
    refine .inr (.inr ⟨locked, found, by simpa using terminal, updated_congr same, ?_⟩)
    have hits : 0 < db.handlerDeliveries.rows.countP
        fun hd => decide (hd.id = locked.id) && !locked.status.isTerminal :=
      List.countP_pos_iff.mpr ⟨locked, stored, by simp [terminal]⟩
    simp [hits]

/-- Tables that a worker statement leaves alone. -/
structure SameFrame (db db' : Database) : Prop where
  events : db'.events = db.events
  dispatchKeys : db'.dispatchKeys = db.dispatchKeys
  jobs : db'.jobs = db.jobs
  nextDeliveryId : db'.nextDeliveryId = db.nextDeliveryId

theorem SameFrame.refl (db : Database) : SameFrame db db := ⟨rfl, rfl, rfl, rfl⟩

private theorem sameFrame_updated (db : Database) (hit : HandlerDelivery → Bool) (set : SetClause) :
    SameFrame db (db.updated hit set) := ⟨rfl, rfl, rfl, rfl⟩

theorem claim_frame {env : HandlerEnvelope} {ctx : JobContext} {now : Timestamp}
    {db db' : Database} {row : Option ClaimRow}
    (done : claimStatement env ctx now db = .ok (db', row)) : SameFrame db db' := by
  rcases claim_cases done with ⟨-, rfl, -⟩ | ⟨r, -, -, rfl, -⟩ | ⟨r, -, -, rfl, -⟩
  · exact .refl _
  · exact .refl _
  · exact sameFrame_updated _ _ _

theorem claim_delivery {env : HandlerEnvelope} {ctx : JobContext} {now : Timestamp}
    {db db' : Database} {row : Option ClaimRow}
    (done : claimStatement env ctx now db = .ok (db', row)) (env' : HandlerEnvelope) :
    db'.delivery? env' =
      if env' = env then (db.delivery? env').map (claimRow ctx now) else db.delivery? env' := by
  rcases claim_cases done with ⟨missing, rfl, -⟩ | ⟨r, found, terminal, rfl, -⟩ |
    ⟨r, found, live, rfl, -⟩
  · split
    · next same => simp [same, missing]
    · rfl
  · split
    · next same => simp [same, found, claimRow, terminal]
    · rfl
  · rw [delivery?_updated]
    split
    · next same =>
      subst same
      simp [found, claimRow, live, (delivery?_mem found).2]
    · next other =>
      cases found' : db.delivery? env' with
      | none => rfl
      | some r' => simp [(delivery?_mem found').2, other]

/-- The SET clause of each mark. -/
def Mark.set (now : Timestamp) : Mark → SetClause
  | .sent => finishSet .sent none now
  | .awaitingRetry reason => awaitSet (trimmedReason reason) now
  | .dead reason => finishSet .dead (some (trimmedReason reason)) now
  | .skipped reason => finishSet .skipped (some (trimmedReason reason)) now

theorem set_status (now : Timestamp) (mark : Mark) (r : HandlerDelivery) :
    ((Mark.set now mark).apply r).status = mark.status := by
  cases mark <;> rfl

theorem mark_ok {env : HandlerEnvelope} {token : Uuid} {now : Timestamp} {mark : Mark}
    {db db' : Database} {n : ℕ} (done : mark.statement env token now db = .ok (db', n)) :
    db' = db.updated (fencedBy env token) (Mark.set now mark) ∧
      n = db.handlerDeliveries.rows.countP (fencedBy env token) := by
  cases mark <;>
    simp only [Mark.statement, markSentFenced, markAwaitingRetryFenced, markDeadFenced,
      markSkippedFenced, markFenced] at done <;>
    split at done <;> first | cases done | exact updateDeliveries_ok done

/-- The fence of a mark, on one row. -/
def holds (token : Uuid) (r : HandlerDelivery) : Bool :=
  r.status = .running && r.leaseToken = some token

/-- The row a mark leaves behind. -/
def markRow (mark : Mark) (token : Uuid) (now : Timestamp) (r : HandlerDelivery) :
    HandlerDelivery :=
  if holds token r then (Mark.set now mark).apply r else r

theorem mark_frame {env : HandlerEnvelope} {token : Uuid} {now : Timestamp} {mark : Mark}
    {db db' : Database} {n : ℕ} (done : mark.statement env token now db = .ok (db', n)) :
    SameFrame db db' :=
  (mark_ok done).1 ▸ sameFrame_updated _ _ _

theorem mark_delivery {env : HandlerEnvelope} {token : Uuid} {now : Timestamp} {mark : Mark}
    {db db' : Database} {n : ℕ} (done : mark.statement env token now db = .ok (db', n))
    (env' : HandlerEnvelope) :
    db'.delivery? env' =
      if env' = env then (db.delivery? env').map (markRow mark token now)
      else db.delivery? env' := by
  rw [(mark_ok done).1, delivery?_updated]
  split
  · next same =>
    subst same
    cases found : db.delivery? env' with
    | none => rfl
    | some r => simp [markRow, holds, fencedBy, (delivery?_mem found).2]
  · next other =>
    cases found : db.delivery? env' with
    | none => rfl
    | some r => simp [fencedBy, (delivery?_mem found).2, other]

theorem mark_affected {env : HandlerEnvelope} {token : Uuid} {now : Timestamp} {mark : Mark}
    {db db' : Database} {n : ℕ} (done : mark.statement env token now db = .ok (db', n)) :
    0 < n ↔ (db.delivery? env).any (holds token) = true := by
  rw [(mark_ok done).2, List.countP_pos_iff, Option.any_eq_true]
  constructor
  · rintro ⟨r, stored, hit⟩
    simp only [fencedBy, Bool.and_eq_true, decide_eq_true_eq] at hit
    refine ⟨r, (Table.find_eq_some deliveries_separates_envelope).mpr ⟨stored, hit.1.1⟩, ?_⟩
    simp [holds, hit.1.2, hit.2]
  · rintro ⟨r, found, hit⟩
    obtain ⟨stored, own⟩ := delivery?_mem found
    refine ⟨r, stored, ?_⟩
    simp only [holds, Bool.and_eq_true, decide_eq_true_eq] at hit
    simp [fencedBy, own, hit]

section Delivery

variable {β : Type} {reply : Reply} {db db' : Database} {b : β}
  {statement : Database → Except SqlxError (Database × β)}

theorem effect_some (done : reply.effect db statement = some (db', b)) :
    statement db = .ok (db', b) := by
  cases reply <;> cases eqn : statement db <;> simp_all [Reply.effect]

theorem after_of_effect (done : reply.effect db statement = some (db', b)) :
    reply.after db statement = db' := by
  simp [Reply.after, done]

theorem after_of_none (quiet : reply.effect db statement = none) :
    reply.after db statement = db := by
  simp [Reply.after, quiet]

end Delivery

end RustEvents.Worker.Statements
