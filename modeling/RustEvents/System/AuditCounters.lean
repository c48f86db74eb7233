/- module: RustEvents/System/AuditCounters
   layer: system
   source: src/runtime.rs (handle_envelope step 2, mark_*_fenced), src/history.rs, tests/crash_recovery_fencing.rs
   digest: The audit columns of a delivery are a closed form of the claims that updated its row. -/

import RustEvents.Model.History
import RustEvents.System.RowInvariants

set_option autoImplicit false
set_option relaxedAutoImplicit false

namespace RustEvents.System.AuditCounters

open RustEvents.Foundation.LabelledRuns (Machine)
open RustEvents.Foundation.IndexedTable (Table)
open RustEvents.Model.Errors
open RustEvents.Model.Schema
open RustEvents.Model.Dispatch
open RustEvents.Model.Runtime
open RustEvents.Model.History
open RustEvents.Dispatch.Effects
open RustEvents.Dispatch.Fanout (sampleCall)
open RustEvents.Worker.Statements
open RustEvents.Worker.Steps (claimSelect_didUpdate)
open RustEvents.Worker.Superseded (sampleEnv sampleContext)
open RustEvents.System.Lifecycle (execute_covered)
open RustEvents.System.RowInvariants

/-- What a claim that updates a row brings with it. -/
structure Stamp where
  attempt : UInt32
  now : Timestamp
  deriving DecidableEq

/-- The claim, if this statement is one, that updates the row of `env`: the CTE answers
with `did_update`. -/
def stampOf (env : HandlerEnvelope) (db : Database) : Statement → Option Stamp
  | .claim env' ctx now =>
    if env' = env then
      match claimStatement env' ctx now db with
      | .ok (_, some row) => if row.didUpdate then some ⟨ctx.attempt, now⟩ else none
      | _ => none
    else none
  | _ => none

/-- The claims that updated the row of `env`, in the order of a whole sequence. -/
def stamps (env : HandlerEnvelope) : Database → List Statement → List Stamp
  | _, [] => []
  | db, a :: as => (stampOf env db a).toList ++ stamps env (execute db a) as

/-- The audit columns. -/
structure Counters where
  attempts : ℤ
  firstAttemptedAt : Option Timestamp
  lastAttemptedAt : Option Timestamp
  deriving DecidableEq

def counters (r : HandlerDelivery) : Counters :=
  ⟨r.attempts, r.firstAttemptedAt, r.lastAttemptedAt⟩

/-- The largest of one and the attempt numbers, each cut off at `i32::MAX`. -/
def maxAttempt : List Stamp → ℤ
  | [] => 0
  | s :: past => ((s :: past).map fun s => min (s.attempt.toNat : ℤ) 2147483647).foldr max 1

/-- What the columns of a row say after the given claims. -/
def closedForm (past : List Stamp) : Counters where
  attempts := maxAttempt past
  firstAttemptedAt := past.head?.map Stamp.now
  lastAttemptedAt := past.getLast?.map Stamp.now

/-- Any sequence of statements, whatever the clock reads. -/
def statements : Machine Database Statement := ⟨fun db a => some (execute db a)⟩

/-- A statement never lowers a counter and never moves the first attempt. -/
def Monotone (db : Database) (_ : Statement) (db' : Database) : Prop :=
  ∀ env r, db.delivery? env = some r → ∃ r', db'.delivery? env = some r' ∧
    r.attempts ≤ r'.attempts ∧
    ∀ first, r.firstAttemptedAt = some first → r'.firstAttemptedAt = some first

/-- The rows of `db` count exactly the given claims, and the history endpoint reports it. -/
structure Exact (past : HandlerEnvelope → List Stamp) (db : Database) : Prop where
  columns : ∀ env r, db.delivery? env = some r → counters r = closedForm (past env)
  reported : ∀ env r, db.delivery? env = some r → ∀ collation fault records,
    handlerDeliveriesFor collation fault env.eventId db = .ok records →
      (∃ record ∈ records, record.handlerId = env.handlerId) ∧
      ∀ record ∈ records, record.handlerId = env.handlerId →
        (record.attempts.toNat : ℤ) = maxAttempt (past env)

/-- The SET clause of a claim, on the audit columns alone. -/
def Counters.stamp (c : Counters) (s : Stamp) : Counters where
  attempts := max (max c.attempts (i32Saturating s.attempt)) 1
  firstAttemptedAt := some (c.firstAttemptedAt.getD s.now)
  lastAttemptedAt := some s.now

private theorem i32Saturating_eq (n : UInt32) : i32Saturating n = min (n.toNat : ℤ) 2147483647 := by
  simp only [i32Saturating]
  split <;> omega

private theorem foldr_max_snoc (xs : List ℤ) (x : ℤ) :
    (xs ++ [x]).foldr max 1 = max (xs.foldr max 1) x := by
  induction xs with
  | nil =>
    simp only [List.nil_append, List.foldr_cons, List.foldr_nil]
    omega
  | cons y xs ih =>
    simp only [List.cons_append, List.foldr_cons, ih]
    omega

private theorem one_le_foldr_max (xs : List ℤ) : 1 ≤ xs.foldr max 1 := by
  induction xs with
  | nil => exact Int.le_refl 1
  | cons x xs ih =>
    simp only [List.foldr_cons]
    omega

private theorem maxAttempt_snoc (past : List Stamp) (s : Stamp) :
    maxAttempt (past ++ [s]) = max (max (maxAttempt past) (i32Saturating s.attempt)) 1 := by
  rw [i32Saturating_eq]
  cases past with
  | nil =>
    simp only [List.nil_append, maxAttempt, List.map_cons, List.map_nil, List.foldr_cons,
      List.foldr_nil]
    omega
  | cons first past =>
    have low := one_le_foldr_max ((first :: past).map fun s => min (s.attempt.toNat : ℤ) 2147483647)
    simp only [List.cons_append, maxAttempt]
    rw [← List.cons_append, List.map_append, List.map_singleton, foldr_max_snoc]
    omega

private theorem maxAttempt_range (past : List Stamp) :
    0 ≤ maxAttempt past ∧ maxAttempt past ≤ 2147483647 := by
  induction past using List.reverseRecOn with
  | nil => decide
  | append_singleton past s ih =>
    rw [maxAttempt_snoc, i32Saturating_eq]
    omega

private theorem closedForm_snoc (past : List Stamp) (s : Stamp) :
    closedForm (past ++ [s]) = (closedForm past).stamp s := by
  have first : (past ++ [s]).head?.map Stamp.now =
      some ((past.head?.map Stamp.now).getD s.now) := by
    cases past <;> rfl
  simp only [closedForm, Counters.stamp, maxAttempt_snoc, first, List.getLast?_concat,
    Option.map_some]

/-- Everything a statement can do to the audit columns of one row. -/
inductive CounterStep : Option Counters → Option Stamp → Option Counters → Prop where
  | quiet (c : Option Counters) : CounterStep c none c
  | created : CounterStep none none (some (closedForm []))
  | stamped (c : Counters) (s : Stamp) : CounterStep (some c) (some s) (some (c.stamp s))

private theorem covers_delivery (cs : List Call) (env : HandlerEnvelope) :
    Covers cs fun db db' => db'.delivery? env = db.delivery? env ∨
      db.delivery? env = none ∧ (db'.delivery? env).map counters = some (closedForm []) where
  refl _ := .inl rfl
  trans := by
    rintro db db' db'' (same | ⟨missing, new⟩) (same' | ⟨missing', new'⟩)
    · exact .inl (same'.trans same)
    · exact .inr ⟨same ▸ missing', new'⟩
    · exact .inr ⟨missing, same' ▸ new⟩
    · rw [missing'] at new
      cases new
  reserves _ _ db db' reserves := by
    refine .inl ?_
    simp only [Database.delivery?, Table.find, reserves.deliveries]
  inserts c _ payload handlerIds db db' inserts := by
    simp only [Database.delivery?, Table.find, inserts.deliveries, List.find?_append]
    cases old : db.handlerDeliveries.rows.find? (fun r => decide (r.envelope = env)) with
    | some r => exact .inl rfl
    | none =>
      cases new : (Database.queuedRows c.eventId c.now db.nextDeliveryId handlerIds).find?
          (fun r => decide (r.envelope = env)) with
      | none => exact .inl rfl
      | some r =>
        obtain ⟨-, -, -, -, shape⟩ := Database.queuedRows_spec (List.mem_of_find?_eq_some new)
        refine .inr ⟨rfl, ?_⟩
        rw [Option.none_or, shape]
        rfl
  pushes _ _ := .inl rfl

private theorem transact_counters (tx : Transaction) (db : Database) (env : HandlerEnvelope) :
    CounterStep ((db.delivery? env).map counters) none
      (((tx.execute db).delivery? env).map counters) := by
  rcases execute_covered (covers_delivery tx.calls env) db with same | ⟨missing, new⟩
  · rw [same]
    exact .quiet _
  · rw [missing, new]
    exact .created

private theorem stampOf_eq {env : HandlerEnvelope} {ctx : JobContext} {now : Timestamp}
    {db db' : Database} {row : Option ClaimRow}
    (done : claimStatement env ctx now db = .ok (db', row)) :
    stampOf env db (.claim env ctx now) =
      if row.any ClaimRow.didUpdate then some ⟨ctx.attempt, now⟩ else none := by
  simp only [stampOf, if_true, done]
  cases row <;> rfl

private theorem claimSelect_idle (db : Database) (eventId : Uuid) (prev : Option DeliveryStatus) :
    (claimSelect db eventId prev false).any ClaimRow.didUpdate = false := by
  simp only [claimSelect, Option.any_map]
  cases db.event? eventId <;> rfl

private theorem claim_counters (env' : HandlerEnvelope) (ctx : JobContext) (now : Timestamp)
    (db : Database) (env : HandlerEnvelope) :
    CounterStep ((db.delivery? env).map counters) (stampOf env db (.claim env' ctx now))
      (((execute db (.claim env' ctx now)).delivery? env).map counters) := by
  cases done : claimStatement env' ctx now db with
  | error e =>
    simp only [stampOf, execute, Reply.after, Reply.effect, done, ite_self, Option.map_none,
      Option.getD_none]
    exact .quiet _
  | ok result =>
    obtain ⟨db', row⟩ := result
    have executed : execute db (.claim env' ctx now) = db' := by
      simp only [execute, Reply.after, Reply.effect, done, Option.map_some, Option.getD_some]
    rw [executed]
    have after := claim_delivery done env
    by_cases own : env' = env
    · subst own
      rw [if_pos rfl] at after
      rw [stampOf_eq done]
      rcases claim_cases done with ⟨missing, rfl, rfl⟩ | ⟨r, found, terminal, rfl, rfl⟩ |
        ⟨r, found, live, -, rfl⟩
      · rw [claimSelect_idle]
        exact .quiet _
      · rw [claimSelect_idle]
        exact .quiet _
      · rw [claimSelect_didUpdate found, after, found]
        simp only [if_true, Option.map_some, claimRow, live]
        exact .stamped (counters r) ⟨ctx.attempt, now⟩
    · rw [if_neg (Ne.symm own)] at after
      rw [after, stampOf, if_neg own]
      exact .quiet _

private theorem markRow_counters (mark : Mark) (token : Uuid) (now : Timestamp)
    (r : HandlerDelivery) : counters (markRow mark token now r) = counters r := by
  simp only [markRow]
  split
  · cases mark <;> rfl
  · rfl

private theorem mark_counters (env' : HandlerEnvelope) (mark : Mark) (token : Uuid)
    (now : Timestamp) (db : Database) (env : HandlerEnvelope) :
    ((execute db (.mark env' mark token now)).delivery? env).map counters =
      (db.delivery? env).map counters := by
  simp only [execute]
  cases done : Reply.answered.effect db (mark.statement env' token now) with
  | none => rw [after_of_none done]
  | some result =>
    rw [after_of_effect done, mark_delivery (effect_some done)]
    split
    · rw [Option.map_map]
      exact congrArg (Option.map · _) (funext (markRow_counters mark token now))
    · rfl

private theorem counter_step (db : Database) (a : Statement) (env : HandlerEnvelope) :
    CounterStep ((db.delivery? env).map counters) (stampOf env db a)
      (((execute db a).delivery? env).map counters) := by
  cases a with
  | transact tx => exact transact_counters tx db env
  | claim env' ctx now => exact claim_counters env' ctx now db env
  | mark env' mark token now =>
    rw [mark_counters]
    exact .quiet _

/-- The columns of a row are the closed form of the claims so far; without a row there are
no claims. -/
def Tracked (past : List Stamp) : Option Counters → Prop
  | none => past = []
  | some c => c = closedForm past

private theorem tracked_step {past : List Stamp} {c c' : Option Counters} {s : Option Stamp}
    (tracked : Tracked past c) (step : CounterStep c s c') : Tracked (past ++ s.toList) c' := by
  cases step with
  | quiet =>
    rw [Option.toList_none, List.append_nil]
    exact tracked
  | created =>
    rw [show past = [] from tracked]
    rfl
  | stamped c s =>
    rw [show c = closedForm past from tracked]
    exact (closedForm_snoc past s).symm

private theorem tracked_run {past : List Stamp} {db : Database} {env : HandlerEnvelope}
    (as : List Statement) (tracked : Tracked past ((db.delivery? env).map counters)) :
    Tracked (past ++ stamps env db as) (((as.foldl execute db).delivery? env).map counters) := by
  induction as generalizing past db with
  | nil =>
    rw [stamps, List.append_nil]
    exact tracked
  | cons a as ih =>
    rw [stamps, ← List.append_assoc]
    exact ih (tracked_step tracked (counter_step db a env))

private theorem CounterStep.grows {c : Counters} {s : Option Stamp} {after : Option Counters}
    (step : CounterStep (some c) s after) :
    ∃ c', after = some c' ∧ c.attempts ≤ c'.attempts ∧
      ∀ first, c.firstAttemptedAt = some first → c'.firstAttemptedAt = some first := by
  cases step with
  | quiet => exact ⟨c, rfl, Int.le_refl _, fun _ set => set⟩
  | stamped _ s =>
    refine ⟨c.stamp s, rfl, ?_, ?_⟩
    · simp only [Counters.stamp]
      omega
    · intro first set
      simp only [Counters.stamp, set, Option.getD_some]

private theorem monotone_step (db : Database) (a : Statement) : Monotone db a (execute db a) := by
  intro env r found
  have step := counter_step db a env
  rw [found] at step
  obtain ⟨c, after, attempts, first⟩ := step.grows
  obtain ⟨r', found', rfl⟩ := Option.map_eq_some_iff.mp after
  exact ⟨r', found', attempts, first⟩

private theorem reported_of_columns {past : HandlerEnvelope → List Stamp} {db : Database}
    (columns : ∀ env r, db.delivery? env = some r → counters r = closedForm (past env)) :
    Exact past db where
  columns := columns
  reported := by
    intro env r found collation fault records answer
    obtain ⟨stored, own⟩ := delivery?_mem found
    have eventId : r.eventId = env.eventId := congrArg HandlerEnvelope.eventId own
    refine ⟨⟨deliveryRecord r, ?_, congrArg HandlerEnvelope.handlerId own⟩, ?_⟩
    · exact (mem_handlerDeliveriesFor answer).mpr ⟨r, stored, eventId, rfl⟩
    · intro record mem named
      obtain ⟨r', stored', event, rfl⟩ := (mem_handlerDeliveriesFor answer).mp mem
      -- The record of this handler is the one row that the unique index allows.
      have same : r'.envelope = env := by
        cases env
        exact HandlerEnvelope.mk.injEq .. ▸ ⟨event, named⟩
      have value : r'.attempts = maxAttempt (past env) :=
        congrArg Counters.attempts (columns env r' (same ▸ delivery?_of_mem stored'))
      obtain ⟨low, high⟩ := maxAttempt_range (past env)
      change ((u32OrZero r'.attempts).toNat : ℤ) = _
      rw [value]
      exact u32OrZero_toNat low (by omega)

/-- In every sequence of transactions, claims and marks, whatever the attempt numbers and
the clock, the audit columns only grow and are the closed form of the updating claims. -/
theorem audit_counters_exact (as : List Statement) :
    statements.Along Monotone Database.empty as ∧
      Exact (fun env => stamps env Database.empty as) (as.foldl execute Database.empty) := by
  constructor
  · refine Machine.along_of_invariant (I := fun _ => True) ?_ trivial as
    rintro db a db' - step
    cases step
    exact ⟨trivial, monotone_step db a⟩
  · refine reported_of_columns ?_
    intro env r found
    have tracked : Tracked ([] ++ stamps env Database.empty as)
        (((as.foldl execute Database.empty).delivery? env).map counters) := tracked_run as rfl
    rw [found] at tracked
    exact tracked

-- A second claim under a reset attempt number fences the first one out.
example : ((List.foldl execute Database.empty
    [.transact ⟨[sampleCall "order.created" (some "order:42") 1#128], true⟩,
      .claim sampleEnv (sampleContext 5 101#128) 1, .claim sampleEnv (sampleContext 0 102#128) 2,
      .mark sampleEnv (.awaitingRetry "later") 101#128 3,
      .mark sampleEnv (.awaitingRetry "later") 102#128 4]).delivery? sampleEnv).map counters =
    some ⟨5, some 1, some 2⟩ := by decide

end RustEvents.System.AuditCounters
