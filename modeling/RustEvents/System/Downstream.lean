/- module: RustEvents/System/Downstream
   layer: system
   source: src/handler.rs (HandlerContext delivery_key), src/runtime.rs (handle_envelope steps 4 and 5), README.md (Delivery semantics)
   digest: Handlers run at least once; a downstream service that knows requests by their delivery key is affected exactly once. -/

import RustEvents.Foundation.Receivers
import RustEvents.System.Provenance

set_option autoImplicit false
set_option relaxedAutoImplicit false

namespace RustEvents.System.Downstream

open RustEvents.Foundation.LabelledRuns (Machine)
open RustEvents.Foundation.Receivers
open RustEvents.Model.Errors
open RustEvents.Model.Schema
open RustEvents.Model.Builder
open RustEvents.Model.Dispatch
open RustEvents.Model.Runtime
open RustEvents.Dispatch.Fanout (sampleCall)
open RustEvents.Worker.Steps
open RustEvents.Worker.Origins
open RustEvents.Worker.Superseded (sampleEnv sampleRuntime sampleContext)
open RustEvents.System.Lifecycle
open RustEvents.System.Chronicle
open RustEvents.System.Integrity
open RustEvents.System.Provenance

/-- What a running handler sends to the service: it has its payload and its context. -/
structure Request where
  invocation : ℕ
  env : HandlerEnvelope
  payload : Bytes
  context : HandlerContext

/-- The system, and the requests of its handlers in the order in which the service got them. -/
structure PostState where
  system : SystemState
  requests : List Request

/-- A handler may send its request at any moment while it runs, and more than once. It may be
dropped by its timeout or crash with its process afterwards. -/
inductive PostLabel where
  | system (a : SystemLabel)
  | post (i : ℕ)

namespace PostState

variable (x : PostState)

def start : PostState := ⟨SystemState.start, []⟩

def step : PostLabel → Option PostState
  | .system a => (Lifecycle.system.step x.system a).map fun s => { x with system := s }
  | .post i =>
    match x.system.workers.live? i with
    | some inv =>
      match inv.phase with
      | .claimed (.invoking _ payload hctx) =>
        some { x with requests := x.requests ++ [⟨i, inv.env, payload, hctx⟩] }
      | _ => none
    | none => none

def posted (i : ℕ) : Bool := x.requests.any fun request => request.invocation = i

/-- `pg_work_queue` gives every job one key, and no two jobs the same. -/
def keyed : SystemLabel → Bool
  | .work (.handOut _ env ctx) =>
    x.system.workers.invocations.all fun inv =>
      decide (inv.env = env ↔ inv.ctx.idempotencyKey = ctx.idempotencyKey)
  | _ => true

/-- A handler does not return `Ok` before it has sent its request. -/
def diligent : SystemLabel → Bool
  | .work (.handler i world) =>
    (x.system.workers.invocations[i]?).all fun inv =>
      match inv.phase with
      | .claimed (.invoking handler payload hctx) =>
        handler.handleErased world payload hctx ≠ .returned .ok || x.posted i
      | _ => true
  | _ => true

def admitted : PostLabel → Bool
  | .system a => x.keyed a && x.diligent a
  | .post _ => true

/-- The effects on a service that takes `delivery_key` for its `Idempotency-Key`. -/
def downstream : AList fun _ : Uuid => Request :=
  received (x.requests.map fun request => (request.context.deliveryKey, request))

end PostState

def posting : Machine PostState PostLabel :=
  (Machine.mk PostState.step).restrict PostState.admitted

/-- The steps of the system in such a run. -/
def systemSteps (as : List PostLabel) : List SystemLabel :=
  posting.record (fun _ a _ =>
    match a with
    | .system b => [b]
    | .post _ => []) PostState.start as

inductive PostStep (x : PostState) : PostLabel → PostState → Prop where
  | system (a : SystemLabel) (s : SystemState) (keyed : x.keyed a = true)
      (diligent : x.diligent a = true) (taken : Lifecycle.system.step x.system a = some s) :
      PostStep x (.system a) { x with system := s }
  | post (i : ℕ) (inv : Invocation) (handler : ErasedHandler) (payload : Bytes)
      (hctx : HandlerContext) (found : x.system.workers.invocations[i]? = some inv)
      (phase : inv.phase = .claimed (.invoking handler payload hctx)) :
      PostStep x (.post i) { x with requests := x.requests ++ [⟨i, inv.env, payload, hctx⟩] }

private theorem postStep_sound {x y : PostState} {a : PostLabel}
    (taken : posting.step x a = some y) : PostStep x a y := by
  obtain ⟨allowed, step⟩ := Machine.restrict_step.mp taken
  change x.step a = some y at step
  cases a with
  | system a =>
    obtain ⟨s, moved, rfl⟩ := Option.map_eq_some_iff.mp step
    have both : x.keyed a = true ∧ x.diligent a = true := by
      simpa [PostState.admitted] using allowed
    exact .system a s both.1 both.2 moved
  | post i =>
    simp only [PostState.step] at step
    split at step
    · next inv live =>
      split at step
      · next handler payload hctx phase =>
        cases step
        exact .post i inv handler payload hctx (live?_some live).1 phase
      · cases step
    · cases step

/-- What the dispatch of an event gave to everything that is sent for it. -/
structure Vouched (as : List SystemLabel) (request : Request) : Prop where
  call : ∃ c ∈ chronicle as, request.env.eventId = c.eventId ∧
    request.env.handlerId ∈ fanOut c ∧ c.event.toVec = .ok request.payload

/-- The invariant: one key for each delivery, every request is that of an invocation, and every
`Ok` comes after a request. -/
structure Posted (past : List SystemLabel) (x : PostState) : Prop where
  reached : system.run SystemState.start past = some x.system
  keys : ∀ inv ∈ x.system.workers.invocations, ∀ inv' ∈ x.system.workers.invocations,
    inv.env = inv'.env ↔ inv.ctx.idempotencyKey = inv'.ctx.idempotencyKey
  sent : ∀ request ∈ x.requests, ∃ inv,
    x.system.workers.invocations[request.invocation]? = some inv ∧ inv.env = request.env ∧
      inv.ctx.idempotencyKey = request.context.deliveryKey
  vouched : ∀ request ∈ x.requests, Vouched past request
  oks : ∀ e ∈ system.record endings SystemState.start past, e.run = some (.returned .ok) →
    ∃ request ∈ x.requests, request.env = e.inv.env

private theorem posted_start : Posted [] PostState.start where
  reached := rfl
  keys _ mem := by cases mem
  sent _ mem := by cases mem
  vouched _ mem := by cases mem
  oks _ mem := by cases mem

section Step

variable {past : List SystemLabel} {x : PostState} {s : SystemState} {a : SystemLabel}

private theorem system_identity {s t : SystemState} (taken : system.step s a = some t) {i : ℕ}
    {inv : Invocation} (found : s.workers.invocations[i]? = some inv) :
    ∃ inv', t.workers.invocations[i]? = some inv' ∧ inv'.env = inv.env ∧ inv'.ctx = inv.ctx := by
  cases systemStep_sound taken with
  | transact tx nodup fresh => exact ⟨inv, found, rfl, rfl⟩
  | work a w step => exact identity_kept (step_sound step) found
  | purge kind cutoff => exact ⟨inv, found, rfl, rfl⟩
  | select p victims call known kind chosen => exact ⟨inv, found, rfl, rfl⟩
  | delete p reply call victims known deleting => exact ⟨inv, found, rfl, rfl⟩

private theorem system_origin {s t : SystemState} (taken : system.step s a = some t)
    {inv : Invocation} (mem : inv ∈ t.workers.invocations) :
    (∃ before ∈ s.workers.invocations, before.env = inv.env ∧ before.ctx = inv.ctx) ∨
      ∃ rt, a = .work (.handOut rt inv.env inv.ctx) := by
  obtain ⟨j, found⟩ := List.mem_iff_getElem?.mp mem
  have kept : inv ∈ s.workers.invocations → (∃ before ∈ s.workers.invocations,
      before.env = inv.env ∧ before.ctx = inv.ctx) ∨
      ∃ rt, a = .work (.handOut rt inv.env inv.ctx) :=
    fun before => .inl ⟨inv, before, rfl, rfl⟩
  cases systemStep_sound taken with
  | transact tx nodup fresh => exact kept mem
  | purge kind cutoff => exact kept mem
  | select p victims call known kind chosen => exact kept mem
  | delete p reply call victims known deleting => exact kept mem
  | work a w step =>
    cases invocation_cases (step_sound step) found with
    | kept a before found' same =>
      exact .inl ⟨before, List.mem_of_getElem? found', by rw [same], by rw [same]⟩
    | handedOut rt env ctx last new =>
      subst new
      exact .inr ⟨rt, rfl⟩
    | claimed before now reply found' claiming after =>
      exact .inl ⟨before, List.mem_of_getElem? found', by rw [after], by rw [after]⟩
    | handled before world handler payload hctx found' running after =>
      exact .inl ⟨before, List.mem_of_getElem? found', by rw [after], by rw [after]⟩
    | marked before now reply mark verdict found' marking after =>
      exact .inl ⟨before, List.mem_of_getElem? found', by rw [after], by rw [after]⟩

private theorem keys_step (posted : Posted past x) (keyed : x.keyed a = true)
    (taken : system.step x.system a = some s) :
    ∀ inv ∈ s.workers.invocations, ∀ inv' ∈ s.workers.invocations,
      inv.env = inv'.env ↔ inv.ctx.idempotencyKey = inv'.ctx.idempotencyKey := by
  have fresh : ∀ {rt env ctx}, a = .work (.handOut rt env ctx) →
      ∀ inv ∈ x.system.workers.invocations,
        inv.env = env ↔ inv.ctx.idempotencyKey = ctx.idempotencyKey := by
    rintro rt env ctx rfl inv mem
    exact of_decide_eq_true (List.all_eq_true.mp keyed inv mem)
  intro inv mem inv' mem'
  rcases system_origin taken mem with ⟨before, old, env, ctx⟩ | ⟨rt, handed⟩
  · rcases system_origin taken mem' with ⟨before', old', env', ctx'⟩ | ⟨rt', handed'⟩
    · rw [← env, ← env', ← ctx, ← ctx']
      exact posted.keys before old before' old'
    · rw [← env, ← ctx]
      exact fresh handed' before old
  · rcases system_origin taken mem' with ⟨before', old', env', ctx'⟩ | ⟨rt', handed'⟩
    · rw [← env', ← ctx', eq_comm, fresh handed before' old']
      exact eq_comm
    · obtain ⟨-, env, ctx⟩ :=
        WorkerLabel.handOut.inj (SystemLabel.work.inj (handed.symm.trans handed'))
      exact iff_of_true env (congrArg JobContext.idempotencyKey ctx)

private theorem oks_step (posted : Posted past x) (diligent : x.diligent a = true) {e : Ending}
    (noted : e ∈ endings x.system a s) (ok : e.run = some (.returned .ok)) :
    ∃ request ∈ x.requests, request.env = e.inv.env := by
  -- A handler that returns `Ok` in this step has sent its request before.
  unfold endings at noted
  split at noted
  · obtain ⟨inv, -, here⟩ := List.mem_filterMap.mp noted
    split at here
    · cases here
      cases ok
    · cases here
  · next i world =>
    obtain ⟨inv, stored, here⟩ := List.mem_filterMap.mp noted
    have found : x.system.workers.invocations[i]? = some inv := Option.mem_toList.mp stored
    split at here
    · next handler payload hctx phase =>
      cases here
      have returned : handler.handleErased world payload hctx = .returned .ok := Option.some.inj ok
      have sent : x.posted i = true := by
        simpa [PostState.diligent, found, phase, returned] using diligent
      obtain ⟨request, mem, own⟩ := List.any_eq_true.mp sent
      obtain ⟨inv', found', env, -⟩ := posted.sent request mem
      rw [of_decide_eq_true own, found] at found'
      cases Option.some.inj found'
      exact ⟨request, mem, env.symm⟩
    · cases here
  · cases noted

private theorem posted_system (posted : Posted past x) (keyed : x.keyed a = true)
    (diligent : x.diligent a = true) (taken : system.step x.system a = some s) :
    Posted (past ++ [a]) { x with system := s } where
  reached := by
    rw [Machine.run_append, posted.reached]
    exact Machine.run_cons.mpr ⟨s, taken, rfl⟩
  keys := keys_step posted keyed taken
  sent request mem := by
    obtain ⟨inv, found, env, key⟩ := posted.sent request mem
    obtain ⟨inv', found', env', ctx⟩ := system_identity taken found
    exact ⟨inv', found', env'.trans env, by rw [ctx, key]⟩
  vouched request mem := by
    obtain ⟨c, known, facts⟩ := (posted.vouched request mem).call
    refine ⟨c, ?_, facts⟩
    unfold chronicle
    rw [Machine.record_append posted.reached]
    exact List.mem_append_left _ known
  oks e mem ok := by
    rw [Machine.record_append posted.reached, Machine.record_cons taken] at mem
    rcases List.mem_append.mp mem with old | new
    · exact posted.oks e old ok
    · rcases List.mem_append.mp new with here | none
      · exact oks_step posted diligent here ok
      · cases none

private theorem posted_post (posted : Posted past x) {i : ℕ} {inv : Invocation}
    {handler : ErasedHandler} {payload : Bytes} {hctx : HandlerContext}
    (found : x.system.workers.invocations[i]? = some inv)
    (phase : inv.phase = .claimed (.invoking handler payload hctx)) :
    Posted past { x with requests := x.requests ++ [⟨i, inv.env, payload, hctx⟩] } := by
  obtain ⟨_, -, c, known, hands⟩ :=
    (faithful_run posted.reached).running i inv handler payload hctx found phase
  refine ⟨posted.reached, posted.keys, ?_, ?_, ?_⟩
  · intro request mem
    rcases List.mem_append.mp mem with old | new
    · exact posted.sent request old
    · cases List.mem_singleton.mp new
      obtain ⟨key, -, context⟩ := hands.context
      exact ⟨inv, found, rfl, by rw [context]⟩
  · intro request mem
    rcases List.mem_append.mp mem with old | new
    · exact posted.vouched request old
    · cases List.mem_singleton.mp new
      exact ⟨c, known, hands.event, hands.target, hands.payload⟩
  · intro e mem ok
    obtain ⟨request, old, env⟩ := posted.oks e mem ok
    exact ⟨request, List.mem_append_left _ old, env⟩

end Step

private theorem posted_run {as : List PostLabel} {x : PostState}
    (reached : posting.run PostState.start as = some x) : Posted (systemSteps as) x := by
  refine Machine.record_invariant (I := Posted) ?_ posted_start reached
  intro past x a y posted taken
  cases postStep_sound taken with
  | system a s keyed diligent step => exact posted_system posted keyed diligent step
  | post i inv handler payload hctx found phase =>
    rw [List.append_nil]
    exact posted_post posted found phase

private theorem requests_stable {past : List SystemLabel} {x : PostState} (posted : Posted past x) :
    ∀ p ∈ x.requests.map fun request => (request.context.deliveryKey, request),
      ∀ q ∈ x.requests.map fun request => (request.context.deliveryKey, request),
        p.2.env = q.2.env ↔ p.1 = q.1 := by
  intro p memP q memQ
  obtain ⟨request, mem, rfl⟩ := List.mem_map.mp memP
  obtain ⟨request', mem', rfl⟩ := List.mem_map.mp memQ
  obtain ⟨inv, found, env, key⟩ := posted.sent request mem
  obtain ⟨inv', found', env', key'⟩ := posted.sent request' mem'
  change request.env = request'.env ↔ request.context.deliveryKey = request'.context.deliveryKey
  rw [← env, ← env', ← key, ← key']
  exact posted.keys inv (List.mem_of_getElem? found) inv' (List.mem_of_getElem? found')

private theorem downstream_once {past : List SystemLabel} {x : PostState} (posted : Posted past x)
    {request : Request} (mem : request ∈ x.requests) :
    ∃! k, (x.downstream.lookup k).map Request.env = some request.env :=
  received_once (requests_stable posted) (List.mem_map_of_mem mem)

/-- What the service shows of the run: each delivery has at most one effect, that effect carries
what was dispatched, and a delivery that is sent has its effect. -/
structure ExactlyOnce (as : List SystemLabel) (x : PostState) : Prop where
  vouched : ∀ k request, x.downstream.lookup k = some request →
    k = request.context.deliveryKey ∧ Vouched as request
  single : ∀ k k' request request', x.downstream.lookup k = some request →
    x.downstream.lookup k' = some request' → request.env = request'.env → k = k'
  sent : ∀ r ∈ x.system.db.handlerDeliveries.rows, r.status = .sent →
    ∃! k, (x.downstream.lookup k).map Request.env = some r.envelope

/-- Delivery is at least once: handlers are repeated after crashes, timeouts, retries and lost
marks. A service that ignores requests with a known `delivery_key` is affected exactly once by
every delivery that is sent, and at most once by every other one. -/
theorem effects_are_exactly_once {as : List PostLabel} {x : PostState}
    (reached : posting.run PostState.start as = some x) :
    system.run SystemState.start (systemSteps as) = some x.system ∧
      ExactlyOnce (systemSteps as) x := by
  have posted := posted_run reached
  have source : ∀ {k : Uuid} {request : Request}, x.downstream.lookup k = some request →
      request ∈ x.requests ∧ k = request.context.deliveryKey := by
    intro k request effect
    obtain ⟨request', mem, eqn⟩ := List.mem_map.mp (received_mem effect)
    cases eqn
    exact ⟨mem, rfl⟩
  refine ⟨posted.reached, ?_, ?_, ?_⟩
  · intro k request effect
    exact ⟨(source effect).2, posted.vouched request (source effect).1⟩
  · intro k k' request request' effect effect' same
    exact (requests_stable posted _ (received_mem effect) _ (received_mem effect')).mp same
  · intro r stored sent
    obtain ⟨e, mem, row⟩ := (attested_run posted.reached).rows r stored
      (by rw [sent]; decide) (by rw [sent]; decide)
    obtain ⟨request, known, env⟩ := posted.oks e mem (shows_sent row sent)
    rw [← row.envelope, ← env]
    exact downstream_once posted known

/-- A handler that crashes after its request, is repeated and sends it again. -/
def repeated : List PostLabel :=
  [.system (.transact ⟨[sampleCall "order.created" (some "order:42") 1#128], true⟩),
    .system (.work (.handOut sampleRuntime sampleEnv (sampleContext 1 101#128))),
    .system (.work (.claim 0 1 .answered)), .post 0, .system (.work (.crash 0)),
    .system (.work (.handOut sampleRuntime sampleEnv (sampleContext 2 102#128))),
    .system (.work (.claim 1 2 .answered)), .post 1, .system (.work (.handler 1 0)),
    .system (.work (.mark 1 3 .answered))]

theorem effects_are_exactly_once_repeated :
    ∃ x, posting.run PostState.start repeated = some x ∧ x.requests.length = 2 ∧
      (x.system.db.delivery? sampleEnv).map (·.status) = some .sent ∧
      ExactlyOnce (systemSteps repeated) x := by
  have ends : ((posting.run PostState.start repeated).map fun x =>
      (x.requests.length, (x.system.db.delivery? sampleEnv).map (·.status))) =
      some (2, some .sent) := by decide
  obtain ⟨x, reached, facts⟩ := Option.map_eq_some_iff.mp ends
  obtain ⟨count, status⟩ := Prod.mk.inj facts
  exact ⟨x, reached, count, status, (effects_are_exactly_once reached).2⟩

end RustEvents.System.Downstream
