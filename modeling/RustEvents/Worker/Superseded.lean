/- module: RustEvents/Worker/Superseded
   layer: refinement
   source: src/runtime.rs (claim CTE, WHERE hd.id = locked.id AND locked.status NOT IN (...)), README.md (Fencing tokens)
   digest: A late claim takes the fence back; it does so exactly when it reaches an open row after a newer claim. -/

import RustEvents.Worker.Fencing

set_option autoImplicit false
set_option relaxedAutoImplicit false

namespace RustEvents.Worker.Superseded

open RustEvents.Foundation.LabelledRuns
open RustEvents.Foundation.FencedCell
open RustEvents.Model.Schema
open RustEvents.Model.Builder
open RustEvents.Model.Runtime
open RustEvents.Worker.Statements
open RustEvents.Worker.Steps
open RustEvents.Worker.Fencing

/-- A claim of `env` that was handed out after invocation `i` has executed step ②. -/
def overtaken (env : HandlerEnvelope) (s : WorkerState) (i : ℕ) : Bool :=
  s.history.any fun
    | .claim j claimed _ => claimed = env && i < j
    | .mark _ _ => false

/-- The two columns that carry the fence. -/
def fenceColumns (env : HandlerEnvelope) (s : WorkerState) :
    Option (DeliveryStatus × Option Uuid) :=
  (s.db.delivery? env).map fun r => (r.status, r.leaseToken)

/-- A superseded invocation leaves the fence alone, and the newest claim keeps it until
its own mark. -/
structure NoTakeBack (env : HandlerEnvelope) (s : WorkerState) (a : WorkerLabel)
    (t : WorkerState) : Prop where
  kept : ∀ i now reply, a = .claim i now reply ∨ a = .mark i now reply →
    overtaken env s i = true → fenceColumns env t = fenceColumns env s
  holder : ∀ j inv, t.invocations[j]? = some inv → inv.env = env →
    Executed.claim j env true ∈ t.history → Executed.mark j env ∉ t.history →
    overtaken env t j = false → (t.db.delivery? env).any (holds inv.ctx.leaseToken) = true

/-- A step ② that executes after a newer one finds its row terminal or gone. -/
def claimsInOrder (env : HandlerEnvelope) (s : WorkerState) : WorkerLabel → Bool
  | .claim i now reply =>
    !overtaken env s i || !executes env s (.claim i now reply) ||
      (s.db.delivery? env).all (·.status.isTerminal)
  | _ => true

theorem claimsInOrder_claim {env : HandlerEnvelope} {s : WorkerState} {i : ℕ} {now : Timestamp}
    {reply : Reply} :
    claimsInOrder env s (.claim i now reply) = true ↔
      (overtaken env s i = true → executes env s (.claim i now reply) = true →
        (s.db.delivery? env).all (·.status.isTerminal) = true) := by
  simp only [claimsInOrder, Bool.or_eq_true, Bool.not_eq_true']
  cases overtaken env s i <;> cases executes env s (.claim i now reply) <;> simp

theorem overtaken_iff {env : HandlerEnvelope} {s : WorkerState} {i : ℕ} :
    overtaken env s i = true ↔ ∃ j did, i < j ∧ Executed.claim j env did ∈ s.history := by
  simp only [overtaken, List.any_eq_true]
  constructor
  · rintro ⟨entry, mem, hit⟩
    cases entry with
    | claim j claimed did =>
      simp only [Bool.and_eq_true, decide_eq_true_eq] at hit
      exact ⟨j, did, hit.2, hit.1 ▸ mem⟩
    | mark j marked => cases hit
  · rintro ⟨j, did, newer, mem⟩
    exact ⟨_, mem, by simp [newer]⟩

private theorem cell_closed {env : HandlerEnvelope} {s : WorkerState} :
    (view env s).cell.closed = true ↔ (s.db.delivery? env).all (·.status.isTerminal) = true := by
  cases found : s.db.delivery? env <;> simp [view, cellOf, found]

private theorem cell_of_columns {env : HandlerEnvelope} {s t : WorkerState}
    (same : fenceColumns env t = fenceColumns env s) : (view env t).cell = (view env s).cell := by
  simp only [fenceColumns] at same
  cases before : s.db.delivery? env with
  | none =>
    cases after : t.db.delivery? env with
    | none => simp [view, before, after]
    | some r' => simp [before, after] at same
  | some r =>
    cases after : t.db.delivery? env with
    | none => simp [before, after] at same
    | some r' =>
      simp only [before, after, Option.map_some, Option.some.injEq, Prod.mk.injEq] at same
      simp [view, cellOf, before, after, same.1, same.2]

private theorem columns_of_cell {env : HandlerEnvelope} {s t : WorkerState} {a : WorkerLabel}
    (step : Step s a t) (same : (view env t).cell = (view env s).cell) :
    fenceColumns env t = fenceColumns env s := by
  rcases row_cases step env with row |
    ⟨i, inv, now, reply, r, -, -, -, -, -, stored, live, row⟩ |
    ⟨i, inv, now, reply, mark, verdict, r, -, -, -, rfl, stored, held, row⟩
  · simp only [fenceColumns, row]
  · have holder := congrArg Cell.holder same
    by_cases running : r.status = .running
    · simp only [view, cellOf, row, stored, claimSet, running, if_true, Option.map_some] at holder
      cases token : r.leaseToken with
      | none => simp [token] at holder
      | some old =>
        simp only [token, Option.map_some, Option.some.injEq, Prod.mk.injEq, true_and] at holder
        simp [fenceColumns, row, stored, claimSet, running, token, holder]
    · simp [view, cellOf, row, stored, claimSet, running] at holder
  · have holder := congrArg Cell.holder same
    have left : mark.status ≠ .running := by cases mark <;> simp [Mark.status]
    obtain ⟨running, token⟩ := holds_running held
    simp [view, cellOf, row, stored, set_status, left, running, token] at holder

private theorem inOrder_operation {env : HandlerEnvelope} {s t : WorkerState} {a : WorkerLabel}
    (tracked : Tracked s) (step : Step s a t) (ordered : claimsInOrder env s a = true) :
    InOrder (view env s) (operation env s a) := by
  cases step with
  | handOut => trivial
  | claim i inv now reply found alive phase =>
    by_cases done : executes env s (.claim i now reply) = true
    · rw [show operation env s (.claim i now reply) = .stamp i by simp [operation, done]]
      intro open_ j mine
      have stamp := mem_stamped.mp mine
      by_contra late
      have differ : i ≠ j := by
        rintro rfl
        obtain ⟨inv', found', -, started⟩ := tracked.claimers i env true stamp
        rw [found] at found'
        cases Option.some.inj found'
        rw [phase] at started
        cases started
      have closed := claimsInOrder_claim.mp ordered
        (overtaken_iff.mpr ⟨j, true, by omega, stamp⟩) done
      rw [cell_closed.mpr closed] at open_
      cases open_
    · rw [show operation env s (.claim i now reply) = .idle by simp [operation, done]]
      trivial
  | handler => trivial
  | mark i inv now reply =>
    by_cases done : executes env s (.mark i now reply) = true
    · rw [show operation env s (.mark i now reply) = .release i (closes s i) by
        simp [operation, done]]
      trivial
    · rw [show operation env s (.mark i now reply) = .idle by simp [operation, done]]
      trivial
  | crash => trivial

private theorem kept_of_order {env : HandlerEnvelope} {s t : WorkerState} {a : WorkerLabel} {i : ℕ}
    (guarded : Guarded s) (newest : NewestLast (view env s)) (fresh : freshToken s a = true)
    (step : Step s a t) (ordered : claimsInOrder env s a = true)
    (own : operation env s a = .idle ∨ operation env s a = .stamp i ∨
      ∃ close, operation env s a = .release i close)
    (late : overtaken env s i = true) : fenceColumns env t = fenceColumns env s := by
  obtain ⟨j, did, newer, mem⟩ := overtaken_iff.mp late
  have taken := view_step guarded.tracked fresh step env
  cases did with
  | false =>
    -- the newer claim found the row closed, and a closed row stays as it is
    simp only [fenceColumns, closed_row step (guarded.tracked.refusals j env mem)]
  | true =>
    apply columns_of_cell step
    rcases own with idle | acts
    · rw [idle] at taken
      exact congrArg State.cell (Option.some.inj taken).symm
    · exact superseded_step (guarded.fenced env) newest (inOrder_operation guarded.tracked step ordered)
        newer (mem_stamped.mpr mem) acts taken

theorem newestLast_step {env : HandlerEnvelope} {s t : WorkerState} {a : WorkerLabel}
    (guarded : Guarded s) (newest : NewestLast (view env s)) (fresh : freshToken s a = true)
    (step : Step s a t) (ordered : claimsInOrder env s a = true) : NewestLast (view env t) :=
  newest.step (inOrder_operation guarded.tracked step ordered)
    (view_step guarded.tracked fresh step env)

theorem newest_holds {env : HandlerEnvelope} {s : WorkerState} {j : ℕ} {inv : Invocation}
    (guarded : Guarded s) (newest : NewestLast (view env s))
    (found : s.invocations[j]? = some inv) (own : inv.env = env)
    (stamp : Executed.claim j env true ∈ s.history) (unmarked : Executed.mark j env ∉ s.history)
    (latest : overtaken env s j = false) :
    (s.db.delivery? env).any (holds inv.ctx.leaseToken) = true := by
  -- The newest claim that stamped the row holds it until its own mark.
  have mine : j ∈ (view env s).stamped := mem_stamped.mpr stamp
  obtain ⟨k, head⟩ : ∃ k, (view env s).stamped.head? = some k := by
    cases stamps : (view env s).stamped with
    | nil => simp [stamps] at mine
    | cons k rest => exact ⟨k, rfl⟩
  have above : j ≤ k := newest k head j mine
  have below : ¬ j < k := by
    intro newer
    have stampK := mem_stamped.mp (List.mem_of_mem_head? head)
    rw [overtaken_iff.mpr ⟨k, true, newer, stampK⟩] at latest
    cases latest
  have same : k = j := by omega
  have token : (view env s).tokens[j]? = some (env, inv.ctx.leaseToken) := by
    simp [view, tokensOf, found, own]
  have cell := (guarded.fenced env).held j (env, inv.ctx.leaseToken)
    (same ▸ head) (fun mem => unmarked (mem_released.mp mem)) token
  exact cell_holder.mp (by rw [cell])

private theorem noTakeBack_of_order {env : HandlerEnvelope} {s t : WorkerState} {a : WorkerLabel}
    (guarded : Guarded s) (newest : NewestLast (view env s)) (fresh : freshToken s a = true)
    (step : Step s a t) (ordered : claimsInOrder env s a = true) : NoTakeBack env s a t := by
  refine ⟨?_, ?_⟩
  · intro i now reply acts late
    refine kept_of_order (i := i) guarded newest fresh step ordered ?_ late
    by_cases done : executes env s a = true
    · rcases acts with rfl | rfl
      · exact .inr (.inl (by simp [operation, done]))
      · exact .inr (.inr ⟨closes s i, by simp [operation, done]⟩)
    · rcases acts with rfl | rfl <;> exact .inl (by simp [operation, done])
  · intro j inv found own stamp unmarked latest
    exact newest_holds (guarded.step fresh step)
      (newestLast_step guarded newest fresh step ordered) found own stamp unmarked latest

private theorem order_of_noTakeBack {env : HandlerEnvelope} {s t : WorkerState} {a : WorkerLabel}
    (guarded : Guarded s) (fresh : freshToken s a = true) (step : Step s a t)
    (back : NoTakeBack env s a t) : claimsInOrder env s a = true := by
  cases a with
  | claim i now reply =>
    refine claimsInOrder_claim.mpr ?_
    intro late done
    by_contra live
    have open_ : (view env s).cell.closed = false := by
      rw [← Bool.not_eq_true, cell_closed]
      exact live
    obtain ⟨j, did, newer, mem⟩ := overtaken_iff.mp late
    have used : (view env s).stamped ≠ [] := by
      cases did with
      | false => exact absurd (guarded.tracked.refusals j env mem) live
      | true => exact List.ne_nil_of_mem (mem_stamped.mpr mem)
    have taken := view_step guarded.tracked fresh step env
    rw [show operation env s (.claim i now reply) = .stamp i by simp [operation, done]] at taken
    apply stamp_changes (guarded.fenced env) used open_ taken
    rw [cell_of_columns (back.kept i now reply (.inl rfl) late)]
  | handOut => rfl
  | handler => rfl
  | mark => rfl
  | crash => rfl

/-- In every run: superseded invocations leave the fence alone exactly when no
superseded step ② executes on an open row. -/
theorem no_take_back_iff (db : Database) (env : HandlerEnvelope) (as : List WorkerLabel) :
    fencedWorker.Along (NoTakeBack env) (.start db) as ↔
      fencedWorker.Along (fun s a _ => claimsInOrder env s a = true) (.start db) as := by
  constructor
  · intro back
    refine Machine.along_of_invariant_along (I := Guarded) ?_ (guarded_start db) back
    intro s a t guarded kept taken
    obtain ⟨fresh, step⟩ := fencedWorker_step taken
    exact ⟨guarded.step fresh step, order_of_noTakeBack guarded fresh step kept⟩
  · intro ordered
    refine Machine.along_of_invariant_along
      (I := fun s => Guarded s ∧ NewestLast (view env s)) ?_ ⟨guarded_start db, ?_⟩ ordered
    · rintro s a t ⟨guarded, newest⟩ inOrder taken
      obtain ⟨fresh, step⟩ := fencedWorker_step taken
      exact ⟨⟨guarded.step fresh step, newestLast_step guarded newest fresh step inOrder⟩,
        noTakeBack_of_order guarded newest fresh step inOrder⟩
    · intro i head
      simp [view, WorkerState.start] at head

/-- A database with one event and one queued delivery of it. -/
def sampleEnv : HandlerEnvelope := ⟨1#128, "mailer"⟩

def sampleEvent : EventRow where
  id := 1#128
  eventType := "order.created"
  producerBc := "orders"
  tenantId := "t1"
  aggregateKey := none
  payload := []
  headers := .object []
  createdAt := 0

def sampleDatabase : Database where
  events := ⟨[sampleEvent], by simp⟩
  dispatchKeys := .empty
  handlerDeliveries := ⟨[Database.queuedRow 0 1#128 0 "mailer"], by simp⟩
  nextDeliveryId := 1
  jobs := [⟨sampleEnv, none⟩]
  deliveryEvent := by decide
  deliveryIds := by decide

/-- A runtime whose only handler always succeeds. -/
def sampleRuntime : OutboxRuntime where
  config := OutboxConfig.default
  registry := Registry.new.add
    ⟨"order.created", "mailer", ⟨fun _ _ _ => .returned .ok⟩, none, none⟩

def sampleContext (attempt : UInt32) (leaseToken : Uuid) : JobContext where
  attempt := attempt
  maxAttempts := 5
  leaseToken := leaseToken
  idempotencyKey := 7#128

/-- Two claims handed out in order; the newer one stamps the row first. -/
def overtakingRun : List WorkerLabel :=
  [.handOut sampleRuntime sampleEnv (sampleContext 1 101#128),
   .handOut sampleRuntime sampleEnv (sampleContext 2 102#128),
   .claim 1 1 .answered]

/-- The late step ② of the older claim replaces the token of the newer one. -/
theorem late_claim_takes_back :
    ¬ fencedWorker.Along (NoTakeBack sampleEnv) (.start sampleDatabase)
      (overtakingRun ++ [.claim 0 2 .answered]) := by
  intro all
  have seen : ((fencedWorker.run (.start sampleDatabase) overtakingRun).bind fun t =>
      (fencedWorker.step t (.claim 0 2 .answered)).map fun u =>
        (overtaken sampleEnv t 0, fenceColumns sampleEnv t, fenceColumns sampleEnv u)) =
      some (true, some (.running, some 102#128), some (.running, some 101#128)) := by
    decide
  obtain ⟨t, front, rest⟩ := Option.bind_eq_some_iff.mp seen
  obtain ⟨u, last, values⟩ := Option.map_eq_some_iff.mp rest
  simp only [Prod.mk.injEq] at values
  have kept := (Machine.along_last all front last).kept 0 2 .answered (.inl rfl) values.1
  rw [values.2.1, values.2.2] at kept
  exact absurd kept (by decide)

end RustEvents.Worker.Superseded
