/- module: RustEvents/System/RowInvariants
   layer: system
   source: src/outbox.rs (Outbox::dispatch), src/runtime.rs (handle_envelope step 2, mark_*_fenced)
   digest: In every sequence of statements with a clock that never runs backwards, each delivery keeps its invariants and no claim or mark fails. -/

import RustEvents.Worker.Rows
import RustEvents.Worker.Superseded
import RustEvents.System.Lifecycle

set_option autoImplicit false
set_option relaxedAutoImplicit false

namespace RustEvents.System.RowInvariants

open RustEvents.Foundation.LabelledRuns (Machine)
open RustEvents.Foundation.IndexedTable (Table)
open RustEvents.Model.Text
open RustEvents.Model.Errors
open RustEvents.Model.Schema
open RustEvents.Model.Dispatch
open RustEvents.Model.Runtime
open RustEvents.Dispatch.Effects
open RustEvents.Dispatch.Fanout (sampleCall)
open RustEvents.Worker.Statements
open RustEvents.Worker.Rows
open RustEvents.Worker.Superseded (sampleEnv sampleContext)
open RustEvents.System.Lifecycle (execute_eq)

/-- The statements that write deliveries. Claims and marks come in any order, under any
attempt number, token and reason, whether or not a worker would issue them. -/
inductive Statement where
  | transact (tx : Transaction)
  | claim (env : HandlerEnvelope) (ctx : JobContext) (now : Timestamp)
  | mark (env : HandlerEnvelope) (mark : Mark) (token : Uuid) (now : Timestamp)

/-- A failed statement changes nothing. -/
def execute (db : Database) : Statement → Database
  | .transact tx => tx.execute db
  | .claim env ctx now => Reply.answered.after db (claimStatement env ctx now)
  | .mark env mark token now => Reply.answered.after db (mark.statement env token now)

/-- The `now()` of a claim or mark is not before the last change of its row, which
`updated_at` records. -/
def onTime (db : Database) : Statement → Bool
  | .transact _ => true
  | .claim env _ now => (db.delivery? env).all (·.updatedAt ≤ now)
  | .mark env _ _ now => (db.delivery? env).all (·.updatedAt ≤ now)

/-- Sequences of statements in which no row sees the clock run backwards. -/
def tables : Machine Database Statement :=
  (Machine.mk fun db a => some (execute db a)).restrict onTime

/-- What a claim or mark of a stored delivery does: it succeeds. The claim updates the row
iff it is non-terminal, in the tables as in its answer, so the branch for an inconsistent audit
row is not taken. A mark rewrites the row under its token, and leaves the verdict as it was
decided. -/
def Proceeds (db db' : Database) : Statement → Prop
  | .transact _ => True
  | .claim env ctx now => ∀ r, db.delivery? env = some r →
      ∃ row, claimStatement env ctx now db = .ok (db', some row) ∧
        row.prevStatus = some r.status ∧ row.didUpdate = !r.status.isTerminal ∧
        db'.delivery? env = some (claimRow ctx now r) ∧
        ∀ rt, afterClaim rt env ctx (.ok (some row)) ≠
          .returned (some (.retry "audit row UPDATE collision" none))
  | .mark env mark token now => ∀ r, db.delivery? env = some r →
      (∃ n, mark.statement env token now db = .ok (db', n)) ∧
        db'.delivery? env = some (markRow mark token now r) ∧
        ∀ verdict, afterMark mark verdict
          (Reply.answered.answer db (mark.statement env token now)) = verdict

/-- One statement of a run: all rows it leaves are consistent, and it does not fail. -/
structure Clean (db : Database) (a : Statement) (db' : Database) : Prop where
  rows : ∀ r ∈ db'.handlerDeliveries.rows, Consistent r
  proceeds : Proceeds db db' a

private theorem queuedRows_handler {eventId : Uuid} {now : Timestamp} {id : ℕ} {hs : List String}
    {h : String} (mem : h ∈ hs) : ∃ d ∈ Database.queuedRows eventId now id hs, d.handlerId = h := by
  induction hs generalizing id with
  | nil => cases mem
  | cons first hs ih =>
    rcases List.mem_cons.mp mem with rfl | later
    · exact ⟨_, List.mem_cons_self, rfl⟩
    · have next : ∃ d ∈ Database.queuedRows eventId now (id + 1) hs, d.handlerId = h := ih later
      obtain ⟨d, stored, own⟩ := next
      exact ⟨d, List.mem_cons_of_mem _ stored, own⟩

private theorem handlerBytes_of_violated {r : HandlerDelivery} (passes : r.violated = none) :
    between1 128 r.handlerId = true := by
  simp only [HandlerDelivery.violated, violated, Option.map_eq_none_iff, List.find?_eq_none] at passes
  have first := passes ("handler_deliveries_handler_bytes", .handlerBytes) List.mem_cons_self
  simpa only [DeliveryCheck.holds, Bool.not_eq_true', Bool.not_eq_false] using first

private theorem insertStatement_handlers {c : Call} {payload : Bytes} {handlerIds : List String}
    {db db' : Database} (done : insertStatement c payload handlerIds db = .ok db') :
    ∀ h ∈ handlerIds, between1 128 h = true ∧ storable h = true := by
  intro h mem
  simp only [insertStatement] at done
  split at done
  case isFalse => cases done
  next texts =>
  have text : storable h = true := by
    simp only [Bool.and_eq_true, List.all_append, List.all_eq_true] at texts
    exact texts.1.2 h mem
  split at done
  · cases done
  split at done
  · next none =>
    rw [none] at mem
    cases mem
  simp only [Database.insertDeliveries] at done
  split at done
  · cases done
  next passes =>
  obtain ⟨d, new, rfl⟩ := queuedRows_handler mem
  exact ⟨handlerBytes_of_violated (List.findSome?_eq_none_iff.mp passes d new), text⟩

private theorem soundRows_inserts {c : Call} {payload : Bytes} {handlerIds : List String}
    {db db' : Database} (rows : SoundRows db) (inserts : Inserts c payload handlerIds db db')
    (checked : ∀ h ∈ handlerIds, between1 128 h = true ∧ storable h = true) : SoundRows db' := by
  intro r stored
  rw [inserts.deliveries] at stored
  rcases List.mem_append.mp stored with old | new
  · exact rows r old
  · obtain ⟨-, mem, -, -, shape⟩ := Database.queuedRows_spec new
    obtain ⟨bytes, text⟩ := checked r.handlerId mem
    rw [shape]
    exact sound_queued bytes text

private theorem soundRows_reserve {db : Database} (rows : SoundRows db) (c : Call) :
    SoundRows (reserveStep c db).1 := by
  have cases := reserve_cases c db
  generalize reserveStep c db = result at cases
  cases cases with
  | rejected e failed => exact rows
  | unreserved e payload handlerIds key prepared keyed cause => exact rows
  | duplicate payload handlerIds key row passed keyed reached found => exact rows
  | granted payload handlerIds db1 passed reserves =>
    intro r stored
    rw [reserves.deliveries] at stored
    exact rows r stored

private theorem soundRows_insert {db : Database} (rows : SoundRows db) (c : Call) (payload : Bytes)
    (handlerIds : List String) : SoundRows (insertStep c payload handlerIds db).1 := by
  simp only [insertStep, encodeHeaders]
  split
  · exact rows
  split
  · exact rows
  split
  · exact rows
  · next db' done =>
    have sound := soundRows_inserts rows (insertStatement_ok done) (insertStatement_handlers done)
    split <;> exact sound

private theorem soundRows_dispatch {db : Database} (rows : SoundRows db) (c : Call) :
    SoundRows (dispatch c db).1 := by
  have reserved := soundRows_reserve rows c
  simp only [dispatch]
  split
  · next db1 result eqn =>
    rw [eqn] at reserved
    exact reserved
  · next db1 payload handlerIds eqn =>
    rw [eqn] at reserved
    have inserted := soundRows_insert reserved c payload handlerIds
    split
    · next db2 result eqn' =>
      rw [eqn'] at inserted
      exact inserted
    · next db2 handlerIds' eqn' =>
      rw [eqn'] at inserted
      simp only [pushStep]
      split <;> exact inserted

private theorem soundRows_execute {db : Database} (rows : SoundRows db) (tx : Transaction) :
    SoundRows (tx.execute db) := by
  have all : ∀ (cs : List Call) (db : Database), SoundRows db → SoundRows (dispatchAll cs db).1 := by
    intro cs
    induction cs with
    | nil => exact fun db rows => rows
    | cons c cs ih => exact fun db rows => ih _ (soundRows_dispatch rows c)
  rw [execute_eq]
  split
  · exact all tx.calls db rows
  · exact rows

private theorem afterClaim_audited {env : HandlerEnvelope} {ctx : JobContext} {row : ClaimRow}
    {status : DeliveryStatus} (prev : row.prevStatus = some status)
    (updated : row.didUpdate = !status.isTerminal) (rt : OutboxRuntime) :
    afterClaim rt env ctx (.ok (some row)) ≠
      .returned (some (.retry "audit row UPDATE collision" none)) := by
  simp only [afterClaim, prev, updated]
  cases terminal : status.isTerminal with
  | true => simp [terminal]
  | false =>
    simp only [Bool.not_false]
    split <;> simp

private theorem claim_absent {db : Database} {env : HandlerEnvelope}
    (missing : db.delivery? env = none) (ctx : JobContext) (now : Timestamp) (reply : Reply) :
    reply.after db (claimStatement env ctx now) = db := by
  cases done : reply.effect db (claimStatement env ctx now) with
  | none => exact after_of_none done
  | some result =>
    rw [after_of_effect done]
    rcases claim_cases (effect_some done) with ⟨-, same, -⟩ | ⟨r, found, -⟩ | ⟨r, found, -⟩
    · exact same
    · cases missing.symm.trans found
    · cases missing.symm.trans found

private theorem mark_absent {db : Database} {env : HandlerEnvelope}
    (missing : db.delivery? env = none)
    (mark : Mark) (token : Uuid) (now : Timestamp) (reply : Reply) :
    reply.after db (mark.statement env token now) = db := by
  cases done : reply.effect db (mark.statement env token now) with
  | none => exact after_of_none done
  | some result =>
    rw [after_of_effect done, (mark_ok (effect_some done)).1]
    refine updated_none ?_
    intro r stored
    simp [fencedBy, Table.find_eq_none.mp missing r stored]

private theorem clean_step {db db' : Database} {a : Statement} (rows : SoundRows db)
    (taken : tables.step db a = some db') : SoundRows db' ∧ Clean db a db' := by
  obtain ⟨timely, step⟩ := Machine.restrict_step.mp taken
  cases Option.some.inj step
  have done : SoundRows (execute db a) ∧ Proceeds db (execute db a) a := by
    cases a with
    | transact tx => exact ⟨soundRows_execute rows tx, trivial⟩
    | claim env ctx now =>
      cases found : db.delivery? env with
      | none =>
        refine ⟨?_, fun r stored => by cases found.symm.trans stored⟩
        simp only [execute, claim_absent found]
        exact rows
      | some r =>
        simp only [onTime, found, Option.all_some, decide_eq_true_eq] at timely
        obtain ⟨db', row, ok, prev, updated, sound⟩ := claim_succeeds rows found timely ctx
        have after : execute db (.claim env ctx now) = db' := by
          simp only [execute, Reply.after, Reply.effect, ok, Option.map_some, Option.getD_some]
        rw [after]
        refine ⟨sound, ?_⟩
        intro r' stored
        cases Option.some.inj (found.symm.trans stored)
        refine ⟨row, ok, prev, updated, ?_, afterClaim_audited prev updated⟩
        rw [claim_delivery ok, if_pos rfl, found]
        rfl
    | mark env mark token now =>
      cases found : db.delivery? env with
      | none =>
        refine ⟨?_, fun r stored => by cases found.symm.trans stored⟩
        simp only [execute, mark_absent found]
        exact rows
      | some r =>
        simp only [onTime, found, Option.all_some, decide_eq_true_eq] at timely
        obtain ⟨db', n, ok, sound⟩ := mark_succeeds rows found timely mark token
        have after : execute db (.mark env mark token now) = db' := by
          simp only [execute, Reply.after, Reply.effect, ok, Option.map_some, Option.getD_some]
        rw [after]
        refine ⟨sound, ?_⟩
        intro r' stored
        cases Option.some.inj (found.symm.trans stored)
        refine ⟨⟨n, ok⟩, ?_, ?_⟩
        · rw [mark_delivery ok, if_pos rfl, found]
          rfl
        · intro verdict
          simp only [Reply.answer, ok, afterMark]
  exact ⟨done.1, fun r stored => (done.1 r stored).toConsistent, done.2⟩

/-- In every sequence of transactions, claims and marks whose `now()` never runs backwards
on a row, every delivery stays consistent, and no claim or mark of a delivery fails. -/
theorem rows_hold_by_construction (as : List Statement) :
    tables.Along Clean Database.empty as := by
  refine Machine.along_of_invariant (fun db a db' rows taken => clean_step rows taken) ?_ as
  intro r stored
  cases stored

-- An attempt number of zero and a reason that Postgres could not have stored.
example : (tables.run Database.empty
    [.transact ⟨[sampleCall "order.created" (some "order:42") 1#128], true⟩,
      .claim sampleEnv (sampleContext 0 101#128) 1,
      .mark sampleEnv (.dead "bad\x00byte") 101#128 2]).any (fun db =>
    (db.delivery? sampleEnv).any fun r =>
      r.status = .dead && r.attempts = 1 && r.lastError = some "bad?byte") = true := by decide

end RustEvents.System.RowInvariants
