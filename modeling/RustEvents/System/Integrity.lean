/- module: RustEvents/System/Integrity
   layer: system
   source: src/outbox.rs (Outbox::dispatch), src/runtime.rs (handle_envelope steps 2 to 5), src/util.rs (parse_headers)
   digest: Every call of a user handler, on every attempt, is given what the one committed dispatch of its event stored. -/

import RustEvents.System.Chronicle

set_option autoImplicit false
set_option relaxedAutoImplicit false

namespace RustEvents.System.Integrity

open RustEvents.Foundation.LabelledRuns (Machine)
open RustEvents.Foundation.IndexedTable (Table)
open RustEvents.Model.Text
open RustEvents.Model.Schema
open RustEvents.Model.Builder
open RustEvents.Model.Dispatch
open RustEvents.Model.Runtime
open RustEvents.Dispatch.Effects (keyRow)
open RustEvents.Dispatch.Fanout (sampleCall)
open RustEvents.Worker.Statements
open RustEvents.Worker.Steps
open RustEvents.Worker.Invocations
open RustEvents.Worker.Origins
open RustEvents.Worker.Superseded (sampleEnv sampleRuntime sampleContext)
open RustEvents.System.Lifecycle
open RustEvents.System.Chronicle

/-- The tables that the claim of the `j`-th invocation of a run read. -/
def ClaimRead (as : List SystemLabel) (j : ℕ) (db : Database) : Prop :=
  ∃ front now reply back u, as = front ++ .work (.claim j now reply) :: back ∧
    system.run SystemState.start front = some u ∧ u.db = db

/-- The handler call of an invocation hands over what the dispatch `c` was given. `db` is what
its claim read: without a key row of the event there, the context carries no key. -/
structure HandsOver (c : Call) (db : Database) (inv : Invocation) (handler : ErasedHandler)
    (payload : Bytes) (hctx : HandlerContext) : Prop where
  event : inv.env.eventId = c.eventId
  target : inv.env.handlerId ∈ fanOut c
  registered : (inv.runtime.registry.lookup inv.env.handlerId).map RegisteredHandler.handler =
    some handler
  payload : c.event.toVec = .ok payload
  context : ∃ key, (key = c.ctx.idempotencyKey ∨
      key = none ∧ ∀ k ∈ db.dispatchKeys.rows, k.eventId ≠ c.eventId) ∧ hctx =
    { eventId := c.eventId
      tenantId := c.ctx.tenantId
      producerBc := c.ctx.producerBc
      attempt := inv.ctx.attempt
      maxAttempts := inv.ctx.maxAttempts
      deliveryKey := inv.ctx.idempotencyKey
      dispatchIdempotencyKey := key
      headers := fromJsonbFields (c.ctx.headers.getD []) }

private theorem keyOf_recorded {past : List Call} {s : SystemState} (chronicled : Chronicled past s)
    {c : Call} (mem : c ∈ past) :
    s.db.keyOf c.eventId = c.ctx.idempotencyKey ∨
      s.db.keyOf c.eventId = none ∧ ∀ k ∈ s.db.dispatchKeys.rows, k.eventId ≠ c.eventId := by
  unfold Database.keyOf
  cases found : s.db.dispatchKeys.find DispatchKeyRow.eventId c.eventId with
  | none => exact .inr ⟨rfl, Table.find_eq_none.mp found⟩
  | some k =>
    obtain ⟨stored, own⟩ := Table.find_mem found
    obtain ⟨c', mem', reserved⟩ := chronicled.recorded.keys k stored
    obtain ⟨key, keyed, row⟩ := Option.map_eq_some_iff.mp reserved
    have event : c'.eventId = c.eventId := by
      rw [← own, ← row]
    have same : c' = c := chronicled.unique mem' mem event
    rw [same] at keyed row
    left
    rw [Option.map_some, keyed, ← row]

private theorem claim_recorded {past : List Call} {s : SystemState} (chronicled : Chronicled past s)
    {inv : Invocation} (i : ℕ) {now : Timestamp} {reply : Reply} {handler : ErasedHandler}
    {payload : Bytes} {hctx : HandlerContext}
    (starts : afterClaim inv.runtime inv.env inv.ctx
      (reply.answer s.workers.db (claimStatement inv.env inv.ctx now)) =
        .invoking handler payload hctx) :
    ∃ c ∈ past, HandsOver c s.db inv handler payload hctx := by
  obtain ⟨r, e, registered, found, -, event, lookup, rfl, rfl, rfl⟩ := claim_hands_over i starts
  obtain ⟨stored, rowEvent⟩ := Table.find_mem event
  obtain ⟨c, mem, bytes, toVec, row⟩ := chronicled.recorded.events e stored
  have own : e.id = c.eventId := by
    rw [row]
    rfl
  obtain ⟨delivery, envelope⟩ := delivery?_mem found
  obtain ⟨c', mem', event', handler', -⟩ := chronicled.recorded.deliveries r delivery
  have rowId : r.eventId = inv.env.eventId := congrArg HandlerEnvelope.eventId envelope
  have rowHandler : r.handlerId = inv.env.handlerId := congrArg HandlerEnvelope.handlerId envelope
  have same : c' = c := by
    apply chronicled.unique mem' mem
    rw [event', rowId, ← rowEvent, own]
  refine ⟨c, mem, ?_, ?_, ?_, ?_, ?_⟩
  · rw [← rowEvent, own]
  · rw [← same, ← rowHandler]
    exact handler'
  · rw [lookup]
    rfl
  · rw [row]
    exact toVec
  · refine ⟨s.db.keyOf e.id, ?_, ?_⟩
    · rw [own]
      exact keyOf_recorded chronicled mem
    · unfold contextFor
      rw [← rowEvent, own, row]
      rfl

/-- Every handler that runs has been handed what its dispatch stored. -/
structure Faithful (as : List SystemLabel) (s : SystemState) : Prop where
  chronicled : Chronicled (chronicle as) s
  running : ∀ (j : ℕ) (inv : Invocation) (handler : ErasedHandler) (payload : Bytes)
    (hctx : HandlerContext), s.workers.invocations[j]? = some inv →
    inv.phase = .claimed (.invoking handler payload hctx) →
    ∃ db, ClaimRead as j db ∧ ∃ c ∈ chronicle as, HandsOver c db inv handler payload hctx

theorem ClaimRead.later {as : List SystemLabel} {j : ℕ} {db : Database} (read : ClaimRead as j db)
    (bs : List SystemLabel) : ClaimRead (as ++ bs) j db := by
  obtain ⟨front, now, reply, back, u, split, facts⟩ := read
  refine ⟨front, now, reply, back ++ bs, u, ?_, facts⟩
  rw [split, List.append_assoc, List.cons_append]

private theorem faithful_step {as : List SystemLabel} {s t : SystemState} {a : SystemLabel}
    (reached : system.run SystemState.start as = some s) (faithful : Faithful as s)
    (taken : system.step s a = some t) : Faithful (as ++ [a]) t := by
  have longer := chronicle_step reached taken
  have grown : ∀ c ∈ chronicle as, c ∈ chronicle (as ++ [a]) := by
    intro c mem
    rw [longer]
    exact List.mem_append_left _ mem
  constructor
  · rw [longer]
    exact chronicled_step faithful.chronicled taken
  intro j inv handler payload hctx found phase
  -- An invocation that was running before keeps its call; only a claim starts a new one.
  have kept : ∀ before, s.workers.invocations[j]? = some before → before.env = inv.env →
      before.runtime = inv.runtime → before.ctx = inv.ctx → before.phase = inv.phase →
      ∃ db, ClaimRead (as ++ [a]) j db ∧
        ∃ c ∈ chronicle (as ++ [a]), HandsOver c db inv handler payload hctx := by
    intro before found' env runtime ctx same
    obtain ⟨db, read, c, mem, hands⟩ :=
      faithful.running j before handler payload hctx found' (same.trans phase)
    refine ⟨db, read.later [a], c, grown c mem, ?_, ?_, ?_, hands.payload, ?_⟩
    · rw [← env]
      exact hands.event
    · rw [← env]
      exact hands.target
    · rw [← env, ← runtime]
      exact hands.registered
    · rw [← ctx]
      exact hands.context
  cases systemStep_sound taken with
  | transact tx nodup fresh => exact kept inv found rfl rfl rfl rfl
  | purge kind cutoff => exact kept inv found rfl rfl rfl rfl
  | select p victims call known kind chosen => exact kept inv found rfl rfl rfl rfl
  | delete p reply call victims known deleting => exact kept inv found rfl rfl rfl rfl
  | work b w step =>
    cases invocation_cases (step_sound step) found with
    | kept b before found' same =>
      exact kept before found' (by rw [same]) (by rw [same]) (by rw [same]) (by rw [same])
    | handedOut rt env ctx last new =>
      rw [new] at phase
      cases phase
    | claimed before now reply found' claiming after =>
      rw [after] at phase
      obtain ⟨c, mem, hands⟩ := claim_recorded faithful.chronicled j (Phase.claimed.inj phase)
      refine ⟨s.db, ⟨as, now, reply, [], s, rfl, reached, rfl⟩, c, grown c mem, ?_⟩
      rw [after]
      exact ⟨hands.event, hands.target, hands.registered, hands.payload, hands.context⟩
    | handled before world handler' payload' hctx' found' running after =>
      rw [after] at phase
      cases phase
    | marked before now reply mark verdict found' marking after =>
      rw [after] at phase
      cases phase

theorem faithful_run {as : List SystemLabel} {s : SystemState}
    (reached : system.run SystemState.start as = some s) : Faithful as s := by
  refine Machine.run_history (I := Faithful) ⟨chronicled_start, ?_⟩ ?_ reached
  · intro j inv handler payload hctx found
    cases found
  · intro past s a t run faithful taken
    exact faithful_step run faithful taken

/-- A keyed event; its handler is started for the first time. -/
def started : List SystemLabel :=
  [.transact ⟨[sampleCall "order.created" (some "order:42") 1#128], true⟩,
    .work (.handOut sampleRuntime sampleEnv (sampleContext 1 101#128)),
    .work (.claim 0 1 .answered)]

end RustEvents.System.Integrity
