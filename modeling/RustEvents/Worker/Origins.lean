/- module: RustEvents/Worker/Origins
   layer: system
   source: src/runtime.rs (handle_envelope)
   digest: Where every invocation, every call of a user handler and every delivery row comes from, step by step. -/

import RustEvents.Worker.Invocations

set_option autoImplicit false
set_option relaxedAutoImplicit false

namespace RustEvents.Worker.Origins

open RustEvents.Foundation.IndexedTable (Table)
open RustEvents.Model.Text
open RustEvents.Model.Errors
open RustEvents.Model.Schema
open RustEvents.Model.Builder
open RustEvents.Model.Runtime
open RustEvents.Worker.Statements
open RustEvents.Worker.Steps
open RustEvents.Worker.Invocations

/-- Everything a worker step can have done to the invocation at index `j`. -/
inductive Becomes (s : WorkerState) (j : ℕ) (inv : Invocation) : WorkerLabel → Prop where
  | kept (a : WorkerLabel) (before : Invocation) (found : s.invocations[j]? = some before)
      (same : inv = { before with alive := inv.alive }) : Becomes s j inv a
  | handedOut (rt : OutboxRuntime) (env : HandlerEnvelope) (ctx : JobContext)
      (last : j = s.invocations.length) (new : inv = ⟨rt, env, ctx, .claiming, true⟩) :
      Becomes s j inv (.handOut rt env ctx)
  | claimed (before : Invocation) (now : Timestamp) (reply : Reply)
      (found : s.invocations[j]? = some before) (phase : before.phase = .claiming)
      (after : inv = { before with phase := .claimed (afterClaim before.runtime before.env
        before.ctx (reply.answer s.db (claimStatement before.env before.ctx now))) }) :
      Becomes s j inv (.claim j now reply)
  | handled (before : Invocation) (world : World) (handler : ErasedHandler) (payload : Bytes)
      (hctx : HandlerContext) (found : s.invocations[j]? = some before)
      (phase : before.phase = .claimed (.invoking handler payload hctx))
      (after : inv = { before with phase := .claimed (.marking
        (afterHandler before.runtime before.ctx (handler.handleErased world payload hctx)).1
        (afterHandler before.runtime before.ctx (handler.handleErased world payload hctx)).2) }) :
      Becomes s j inv (.handler j world)
  | marked (before : Invocation) (now : Timestamp) (reply : Reply) (mark : Mark)
      (verdict : Verdict) (found : s.invocations[j]? = some before)
      (phase : before.phase = .claimed (.marking mark verdict))
      (after : inv = { before with phase := .claimed (.returned (afterMark mark verdict
        (reply.answer s.db (mark.statement before.env before.ctx.leaseToken now)))) }) :
      Becomes s j inv (.mark j now reply)

theorem invocation_cases {s t : WorkerState} {a : WorkerLabel} (step : Step s a t) {j : ℕ}
    {inv : Invocation} (found : t.invocations[j]? = some inv) : Becomes s j inv a := by
  -- The inversion of a step from the side of one invocation.
  cases step with
  | handOut rt env ctx =>
    rcases handOut_get found with old | ⟨last, new⟩
    · exact .kept _ inv old rfl
    · exact .handedOut rt env ctx last new
  | claim i before now reply found' alive phase =>
    change (s.setPhase i before _)[j]? = some inv at found
    rw [setPhase_get found'] at found
    split at found
    · next same =>
      subst same
      exact .claimed before now reply found' phase (Option.some.inj found).symm
    · exact .kept _ inv found rfl
  | handler i before world handler payload hctx found' alive phase =>
    change (s.setPhase i before _)[j]? = some inv at found
    rw [setPhase_get found'] at found
    split at found
    · next same =>
      subst same
      exact .handled before world handler payload hctx found' phase (Option.some.inj found).symm
    · exact .kept _ inv found rfl
  | mark i before now reply mark verdict found' alive phase =>
    change (s.setPhase i before _)[j]? = some inv at found
    rw [setPhase_get found'] at found
    split at found
    · next same =>
      subst same
      exact .marked before now reply mark verdict found' phase (Option.some.inj found).symm
    · exact .kept _ inv found rfl
  | crash i before found' alive =>
    rw [crashed_get found'] at found
    split at found
    · next same =>
      subst same
      have dead := Option.some.inj found
      refine .kept _ before found' ?_
      rw [← dead]
    · exact .kept _ inv found rfl

theorem identity_kept {s t : WorkerState} {a : WorkerLabel} (step : Step s a t) {i : ℕ}
    {inv : Invocation} (found : s.invocations[i]? = some inv) :
    ∃ inv', t.invocations[i]? = some inv' ∧ inv'.env = inv.env ∧ inv'.ctx = inv.ctx := by
  have inside : i < t.invocations.length := by
    have before := (List.getElem?_eq_some_iff.mp found).1
    cases step with
    | handOut rt env ctx =>
      change i < (s.invocations ++ [_]).length
      rw [List.length_append]
      exact Nat.lt_add_right _ before
    | claim j inv' now reply found' =>
      change i < (s.invocations.set j _).length
      rwa [List.length_set]
    | handler j inv' world handler payload hctx found' =>
      change i < (s.invocations.set j _).length
      rwa [List.length_set]
    | mark j inv' now reply mark verdict found' =>
      change i < (s.invocations.set j _).length
      rwa [List.length_set]
    | crash j inv' found' =>
      change i < (s.invocations.set j _).length
      rwa [List.length_set]
  have after : t.invocations[i]? = some t.invocations[i] := List.getElem?_eq_getElem inside
  refine ⟨t.invocations[i], after, ?_⟩
  cases invocation_cases step after with
  | kept a before found' same =>
    rw [found] at found'
    cases Option.some.inj found'
    rw [same]
    exact ⟨rfl, rfl⟩
  | handedOut rt env ctx last new =>
    have before := (List.getElem?_eq_some_iff.mp found).1
    omega
  | claimed before now reply found' phase same =>
    rw [found] at found'
    cases Option.some.inj found'
    rw [same]
    exact ⟨rfl, rfl⟩
  | handled before world handler payload hctx found' phase same =>
    rw [found] at found'
    cases Option.some.inj found'
    rw [same]
    exact ⟨rfl, rfl⟩
  | marked before now reply mark verdict found' phase same =>
    rw [found] at found'
    cases Option.some.inj found'
    rw [same]
    exact ⟨rfl, rfl⟩

/-- What a claim hands to the handler it starts: the columns of the event row that it read in
the same statement, and the numbers of the queue's job. -/
def contextFor (inv : Invocation) (e : EventRow) (key : Option String) : HandlerContext where
  eventId := inv.env.eventId
  tenantId := e.tenantId
  producerBc := e.producerBc
  attempt := inv.ctx.attempt
  maxAttempts := inv.ctx.maxAttempts
  deliveryKey := inv.ctx.idempotencyKey
  dispatchIdempotencyKey := key
  headers := parseHeaders (fromJsonb e.headers)

theorem claim_hands_over {s : WorkerState} {inv : Invocation} (i : ℕ) {now : Timestamp}
    {reply : Reply} {handler : ErasedHandler} {payload : Bytes} {hctx : HandlerContext}
    (starts : afterClaim inv.runtime inv.env inv.ctx
      (reply.answer s.db (claimStatement inv.env inv.ctx now)) = .invoking handler payload hctx) :
    ∃ r e registered, s.db.delivery? inv.env = some r ∧ r.status.isTerminal = false ∧
      s.db.event? inv.env.eventId = some e ∧
      inv.runtime.registry.lookup inv.env.handlerId = some registered ∧
      handler = registered.handler ∧ payload = e.payload ∧
      hctx = contextFor inv e (s.db.keyOf e.id) := by
  obtain ⟨r, found, live, -⟩ := claim_invokes i starts
  obtain ⟨e, event⟩ := event?_of_delivery found
  cases claimed_effect s i inv now reply with
  | quiet failure none failed =>
    rw [failed] at starts
    cases starts
  | refused done closed =>
    rw [found, Option.all_some, live] at closed
    cases closed
  | stamped r' done found' live' heard =>
    rcases heard with heard | ⟨failure, heard⟩
    · rw [heard, claimSelect, event] at starts
      simp only [Option.map_some, afterClaim] at starts
      split at starts
      · cases starts
      · next registered lookup =>
        cases starts
        exact ⟨r, e, registered, found, live, event, lookup, rfl, rfl, rfl⟩
    · rw [heard] at starts
      cases starts

theorem claim_marks {rt : OutboxRuntime} {env : HandlerEnvelope} {ctx : JobContext}
    {answer : Except SqlxError (Option ClaimRow)} {mark : Mark} {verdict : Verdict}
    (marks : afterClaim rt env ctx answer = .marking mark verdict) :
    mark = .dead "handler not registered" ∧ rt.registry.lookup env.handlerId = none := by
  cases answer with
  | error e => cases marks
  | ok row =>
    cases row with
    | none => cases marks
    | some row =>
      simp only [afterClaim] at marks
      split at marks
      · cases marks
      · split at marks <;> cases marks
      · split at marks
        · next missing =>
          cases marks
          exact ⟨rfl, missing⟩
        · cases marks

theorem row_origin {s t : WorkerState} {a : WorkerLabel} (step : Step s a t)
    {d : HandlerDelivery} (stored : d ∈ t.db.handlerDeliveries.rows) :
    ∃ d' ∈ s.db.handlerDeliveries.rows, d'.envelope = d.envelope ∧ d'.createdAt = d.createdAt := by
  have after : t.db.delivery? d.envelope = some d := delivery?_of_mem stored
  rcases row_cases step d.envelope with same |
    ⟨i, inv, now, reply, r, -, -, -, -, -, found, -, moved⟩ |
    ⟨i, inv, now, reply, mark, verdict, r, -, -, -, -, found, -, moved⟩
  · have before : s.db.delivery? d.envelope = some d := same.symm.trans after
    exact ⟨d, (delivery?_mem before).1, rfl, rfl⟩
  · have eqn : _ = d := Option.some.inj (moved.symm.trans after)
    refine ⟨r, (delivery?_mem found).1, (delivery?_mem found).2, ?_⟩
    rw [← eqn]
    rfl
  · have eqn : _ = d := Option.some.inj (moved.symm.trans after)
    refine ⟨r, (delivery?_mem found).1, (delivery?_mem found).2, ?_⟩
    rw [← eqn]
    cases mark <;> rfl

end RustEvents.Worker.Origins
