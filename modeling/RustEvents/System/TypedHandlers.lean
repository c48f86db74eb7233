/- module: RustEvents/System/TypedHandlers
   layer: system
   source: src/builder.rs (register_handler), src/registry.rs (TypedHandler), src/handler.rs (DomainEvent, EventHandler), docs/REVIEW_SCOPE.md (sections 2 and 3)
   digest: One application, one registry: the value that is dispatched is the value that the handler registered for its type is called with. -/

import RustEvents.Builder.Registrations
import RustEvents.System.Provenance

set_option autoImplicit false
set_option relaxedAutoImplicit false

namespace RustEvents.System.TypedHandlers

open RustEvents.Foundation.LabelledRuns (Machine)
open RustEvents.Model.Errors
open RustEvents.Model.Schema
open RustEvents.Model.Builder
open RustEvents.Model.Dispatch
open RustEvents.Model.Runtime
open RustEvents.Builder.Registrations
open RustEvents.Worker.Statements
open RustEvents.Worker.Steps
open RustEvents.Worker.Invocations
open RustEvents.Worker.Origins
open RustEvents.Worker.Superseded (sampleEnv sampleContext)
open RustEvents.System.Lifecycle
open RustEvents.System.Chronicle
open RustEvents.System.Integrity
open RustEvents.System.Provenance

/-- A type that implements `DomainEvent`, with the two directions that serde derives for it.
What is written can be read back. -/
structure EventType where
  Value : Type
  name : String
  aggregateKey : Value → Option String
  toVec : Value → Except SerdeError Bytes
  fromSlice : Bytes → Except SerdeError Value
  readsBack : ∀ value payload, toVec value = .ok payload → fromSlice payload = .ok value

/-- What `dispatch` sees of a value. -/
def EventType.event (E : EventType) (value : E.Value) : DomainEvent :=
  ⟨E.name, E.aggregateKey value, E.toVec value⟩

/-- One call of `register_handler`. -/
structure Registration where
  type : EventType
  handlerId : String
  handle : World → type.Value → HandlerContext → HandlerRun (Except HandlerError Unit)
  options : HandlerOptions

def Registration.typed (r : Registration) : TypedHandler r.type.Value :=
  ⟨r.type.name, r.type.fromSlice, r.handle⟩

def registerAll (b : OutboxBuilder) (registrations : List Registration) : OutboxBuilder :=
  registrations.foldl (fun b r => b.registerHandler r.handlerId r.typed r.options) b

/-- The one binary of a deployment: its event types, no two of one name, and the outbox that it
builds from its registrations. -/
structure Application where
  types : EventType → Prop
  names : ∀ E F, types E → types F → E.name = F.name → E = F
  registrations : List Registration
  known : ∀ r ∈ registrations, types r.type
  config : Option OutboxConfig
  allowNoHandlers : Bool
  outbox : Outbox
  built : (registerAll ⟨config, [], allowNoHandlers⟩ registrations).build = .ok outbox

namespace Application

variable (app : Application)

def runtime : OutboxRuntime := ⟨app.outbox.config, app.outbox.registry⟩

/-- A step that this application takes: it dispatches values of its types through its outbox,
and its worker runs on the same registry. -/
def Issues : SystemLabel → Prop
  | .transact tx => ∀ c ∈ tx.calls, c.outbox = app.outbox ∧
      ∃ E, app.types E ∧ ∃ value, c.event = E.event value
  | .work (.handOut rt _ _) => rt = app.runtime
  | _ => True

end Application

def outcomeOf : Except HandlerError Unit → HandlerOutcome
  | .ok () => .ok
  | .error e => .handler e

/-- A handler call of this delivery is the application's own handler on the dispatched value. -/
def Handles (app : Application) (as : List SystemLabel) (env : HandlerEnvelope)
    (handler : ErasedHandler) (payload : Bytes) (hctx : HandlerContext) : Prop :=
  ∃ r ∈ app.registrations, r.handlerId = env.handlerId ∧ ∃ value, ∃ c ∈ chronicle as,
    c.eventId = env.eventId ∧ c.event = r.type.event value ∧
      ∀ world, handler.handleErased world payload hctx = (r.handle world value hctx).map outcomeOf

private theorem registerAll_pending (b : OutboxBuilder) (registrations : List Registration) :
    (registerAll b registrations).pending = b.pending ++ registrations.map fun r =>
      ⟨r.type.name, r.handlerId, r.typed.erase, r.options.handlerTimeout,
        r.options.concurrencyLimit⟩ := by
  induction registrations generalizing b with
  | nil => exact (List.append_nil _).symm
  | cons r rest ih =>
    have later := ih (b.registerHandler r.handlerId r.typed r.options)
    change (registerAll (b.registerHandler r.handlerId r.typed r.options) rest).pending = _
    rw [later]
    simp [OutboxBuilder.registerHandler, Registration.typed]

section Registry

variable {app : Application}

private theorem registration_of_fanOut {name handlerId : String}
    (listed : handlerId ∈ app.outbox.registry.handlerIdsFor name) :
    ∃ r ∈ app.registrations, r.type.name = name ∧ r.handlerId = handlerId ∧
      (app.outbox.registry.lookup handlerId).map RegisteredHandler.handler = some r.typed.erase := by
  have index := build_indexes app.built
  have looks := (build_ok app.built).2
  rw [index.types] at listed
  obtain ⟨p, mem, name, own⟩ := mem_idsFor.mp listed
  have found := looks_given looks index.nodup mem
  rw [registerAll_pending, List.nil_append] at mem
  obtain ⟨r, registered, rfl⟩ := List.mem_map.mp mem
  refine ⟨r, registered, name, own, ?_⟩
  change r.handlerId = handlerId at own
  change app.outbox.registry.lookup r.handlerId = _ at found
  rw [← own, found]
  rfl

private theorem erased_reads_back (r : Registration) {value : r.type.Value} {payload : Bytes}
    (written : r.type.toVec value = .ok payload) (world : World) (hctx : HandlerContext) :
    r.typed.erase.handleErased world payload hctx = (r.handle world value hctx).map outcomeOf := by
  have read := r.type.readsBack value payload written
  simp only [TypedHandler.erase, Registration.typed, read]
  congr 1

end Registry

section Runs

variable {app : Application} {as : List SystemLabel} {s : SystemState}

private theorem chronicle_issued (issued : ∀ a ∈ as, app.Issues a) {c : Call}
    (mem : c ∈ chronicle as) :
    c.outbox = app.outbox ∧ ∃ E, app.types E ∧ ∃ value, c.event = E.event value := by
  obtain ⟨front, a, back, u, v, rfl, -, -, noted⟩ := Machine.mem_record mem
  have label : app.Issues a := issued a (by simp)
  cases a with
  | transact tx =>
    change c ∈ (if commitsOn tx u.db then creations tx.calls u.db else []) at noted
    split at noted
    · exact label c ((creations_sublist tx.calls u.db).subset noted)
    · cases noted
  | work b => cases noted
  | purge kind cutoff => cases noted
  | select p victims => cases noted
  | delete p reply => cases noted

private theorem runtimes_issued (issued : ∀ a ∈ as, app.Issues a)
    (reached : system.run SystemState.start as = some s) :
    ∀ inv ∈ s.workers.invocations, inv.runtime = app.runtime := by
  refine Machine.run_history
    (I := fun past s => (∀ a ∈ past, app.Issues a) →
      ∀ inv ∈ s.workers.invocations, inv.runtime = app.runtime) ?_ ?_ reached issued
  · intro _ inv mem
    cases mem
  · intro past s a t _ before taken all inv mem
    have earlier := before fun b old => all b (List.mem_append_left _ old)
    obtain ⟨j, found⟩ := List.mem_iff_getElem?.mp mem
    cases systemStep_sound taken with
    | transact tx nodup fresh => exact earlier inv mem
    | purge kind cutoff => exact earlier inv mem
    | select p victims call known kind chosen => exact earlier inv mem
    | delete p reply call victims known deleting => exact earlier inv mem
    | work b w step =>
      cases invocation_cases (step_sound step) found with
      | kept b old found' same =>
        rw [same]
        exact earlier old (List.mem_of_getElem? found')
      | handedOut rt env ctx last new =>
        rw [new]
        exact all (.work (.handOut rt env ctx)) (List.mem_append_right _ List.mem_cons_self)
      | claimed old now reply found' claiming after =>
        rw [after]
        exact earlier old (List.mem_of_getElem? found')
      | handled old world handler payload hctx found' running after =>
        rw [after]
        exact earlier old (List.mem_of_getElem? found')
      | marked old now reply mark verdict found' marking after =>
        rw [after]
        exact earlier old (List.mem_of_getElem? found')

private theorem handles_of_handsOver (issued : ∀ a ∈ as, app.Issues a) {c : Call} {inv : Invocation}
    {handler : ErasedHandler} {payload : Bytes} {hctx : HandlerContext} {db : Database}
    (mem : c ∈ chronicle as) (runtime : inv.runtime = app.runtime)
    (hands : HandsOver c db inv handler payload hctx) :
    Handles app as inv.env handler payload hctx := by
  obtain ⟨outbox, E, type, value, event⟩ := chronicle_issued issued mem
  have listed : inv.env.handlerId ∈ app.outbox.registry.handlerIdsFor E.name := by
    have target := hands.target
    unfold fanOut at target
    rw [outbox, event] at target
    exact target
  obtain ⟨r, registered, name, own, found⟩ := registration_of_fanOut listed
  have same : r.type = E := app.names r.type E (app.known r registered) type name
  subst same
  have lookup := hands.registered
  rw [runtime] at lookup
  have erased : handler = r.typed.erase := Option.some.inj (lookup.symm.trans found)
  have written : r.type.toVec value = .ok payload := by
    have payload := hands.payload
    rw [event] at payload
    exact payload
  refine ⟨r, registered, own, value, c, mem, hands.event.symm, event, ?_⟩
  intro world
  rw [erased]
  exact erased_reads_back r written world hctx

private theorem claim_finds_handler (issued : ∀ a ∈ as, app.Issues a)
    (reached : system.run SystemState.start as = some s) {inv : Invocation} (i : ℕ)
    (runtime : inv.runtime = app.runtime) (now : Timestamp) (reply : Reply) (mark : Mark)
    (verdict : Verdict) :
    afterClaim inv.runtime inv.env inv.ctx
      (reply.answer s.workers.db (claimStatement inv.env inv.ctx now)) ≠ .marking mark verdict := by
  intro marks
  obtain ⟨-, missing⟩ := claim_marks marks
  cases found : s.workers.db.delivery? inv.env with
  | none =>
    have closed : (s.workers.db.delivery? inv.env).all (·.status.isTerminal) = true := by
      rw [found]
      rfl
    obtain ⟨verdict', returns⟩ := claim_returns i now reply closed
    rw [returns] at marks
    cases marks
  | some r =>
    obtain ⟨stored, own⟩ := delivery?_mem found
    have chronicled : Chronicled (chronicle as) s := chronicled_run reached
    obtain ⟨c, mem, -, target, -⟩ := chronicled.recorded.deliveries r stored
    have rowHandler : r.handlerId = inv.env.handlerId := congrArg HandlerEnvelope.handlerId own
    obtain ⟨outbox, -⟩ := chronicle_issued issued mem
    unfold fanOut at target
    rw [outbox, rowHandler] at target
    obtain ⟨q, -, -, -, lookup⟩ := registration_of_fanOut target
    rw [runtime] at missing
    change app.outbox.registry.lookup inv.env.handlerId = none at missing
    rw [missing] at lookup
    cases lookup

private theorem ending_called (issued : ∀ a ∈ as, app.Issues a) {e : Ending}
    (mem : e ∈ system.record endings SystemState.start as) :
    e.inv.runtime = app.runtime ∧
      ∃ handler world payload hctx, e.call = some (handler, world, payload, hctx) := by
  obtain ⟨front, a, back, u, v, rfl, before, taken, noted⟩ := Machine.mem_record mem
  have earlier : ∀ b ∈ front, app.Issues b := fun b old => issued b (List.mem_append_left _ old)
  have runtimes := runtimes_issued earlier before
  unfold endings at noted
  split at noted
  · next i now reply =>
    cases systemStep_sound taken with
    | work b w step =>
      cases step_sound step with
      | claim i inv now reply found alive phase =>
        have runtime := runtimes inv (List.mem_of_getElem? found)
        obtain ⟨inv', stored, here⟩ := List.mem_filterMap.mp noted
        have after := Option.mem_toList.mp stored
        change (u.workers.setPhase i inv _)[i]? = some inv' at after
        rw [setPhase_get found, if_pos rfl] at after
        cases after
        split at here
        · next mark verdict marking =>
          exact absurd (Phase.claimed.inj marking)
            (claim_finds_handler earlier before i runtime now reply mark verdict)
        · cases here
  · next i world =>
    obtain ⟨inv, stored, here⟩ := List.mem_filterMap.mp noted
    split at here
    · next handler payload hctx phase =>
      cases here
      exact ⟨runtimes inv (List.mem_of_getElem? (Option.mem_toList.mp stored)),
        handler, world, payload, hctx, rfl⟩
    · cases here
  · cases noted

/-- A deployment with one binary, whose types can be read back: every handler call of every run
is a call of the handler that was registered for the event's type, with the value that was
dispatched, and every settled row shows how such a call ended. Decode failures and missing
handlers do not occur. -/
theorem dispatched_values_are_handled (issued : ∀ a ∈ as, app.Issues a)
    (reached : system.run SystemState.start as = some s) :
    (∀ (j : ℕ) (inv : Invocation) (handler : ErasedHandler) (payload : Bytes)
      (hctx : HandlerContext), s.workers.invocations[j]? = some inv →
      inv.phase = .claimed (.invoking handler payload hctx) →
      Handles app as inv.env handler payload hctx) ∧
    ∀ r ∈ s.db.handlerDeliveries.rows, r.status ≠ .queued → r.status ≠ .running →
      ∃ e ∈ system.record endings SystemState.start as, Shows e r ∧
        ∃ handler world payload hctx, e.call = some (handler, world, payload, hctx) ∧
          Handles app as r.envelope handler payload hctx := by
  constructor
  · intro j inv handler payload hctx found phase
    obtain ⟨_, -, c, mem, hands⟩ :=
      (faithful_run reached).running j inv handler payload hctx found phase
    exact handles_of_handsOver issued mem
      (runtimes_issued issued reached inv (List.mem_of_getElem? found)) hands
  · intro r stored notQueued notRunning
    obtain ⟨e, mem, row⟩ := (attested_run reached).rows r stored notQueued notRunning
    obtain ⟨runtime, handler, world, payload, hctx, called⟩ := ending_called issued mem
    obtain ⟨_, _, -, c, known, hands⟩ := ending_hands_over reached mem called
    refine ⟨e, mem, row, handler, world, payload, hctx, called, ?_⟩
    rw [← row.envelope]
    exact handles_of_handsOver issued known runtime hands

end Runs

/-- `struct Created(bool)` and its JSON. -/
def created : EventType where
  Value := Bool
  name := "order.created"
  aggregateKey _ := none
  toVec
    | true => .ok [116, 114, 117, 101]
    | false => .ok [102, 97, 108, 115, 101]
  fromSlice
    | [116, 114, 117, 101] => .ok true
    | [102, 97, 108, 115, 101] => .ok false
    | _ => .error ⟨"expected value at line 1 column 1"⟩
  readsBack := by
    intro value payload written
    cases value with
    | true =>
      cases written
      rfl
    | false =>
      cases written
      rfl

/-- A handler that has nothing to do with `false`. -/
def mailer : Registration where
  type := created
  handlerId := "mailer"
  handle := fun _ (value : Bool) _ =>
    .returned (if value then .ok () else .error (.skip "not for me"))
  options := ⟨none, none⟩

def shop : Application where
  types := (· = created)
  names := by
    rintro E F rfl rfl -
    rfl
  registrations := [mailer]
  known := by
    intro r mem
    cases List.mem_singleton.mp mem
    rfl
  config := none
  allowNoHandlers := false
  outbox := ⟨OutboxConfig.default, Registry.new.add
    ⟨"order.created", "mailer", mailer.typed.erase, none, none⟩, false⟩
  built := rfl

/-- The value `false` is dispatched, and its handler skips it. -/
def skipping : List SystemLabel :=
  [.transact ⟨[⟨shop.outbox, ⟨"t1", "orders", none, none⟩, created.event false, 1#128, 0, .none⟩],
      true⟩,
    .work (.handOut shop.runtime sampleEnv (sampleContext 1 101#128)), .work (.claim 0 1 .answered),
    .work (.handler 0 0), .work (.mark 0 2 .answered)]

theorem dispatched_values_are_handled_skipping :
    ∃ s, system.run SystemState.start skipping = some s ∧
      ∀ r ∈ s.db.handlerDeliveries.rows, r.status = .skipped ∧
        ∃ e ∈ system.record endings SystemState.start skipping, Shows e r ∧
          ∃ handler world payload hctx, e.call = some (handler, world, payload, hctx) ∧
            Handles shop skipping r.envelope handler payload hctx := by
  have ends : ((system.run SystemState.start skipping).map fun s =>
      s.db.handlerDeliveries.rows.map HandlerDelivery.status) = some [.skipped] := by decide
  obtain ⟨s, reached, statuses⟩ := Option.map_eq_some_iff.mp ends
  refine ⟨s, reached, ?_⟩
  intro r stored
  have skipped : r.status = .skipped := by
    have mem := List.mem_map_of_mem (f := HandlerDelivery.status) stored
    rw [statuses] at mem
    exact List.mem_singleton.mp mem
  have issued : ∀ a ∈ skipping, shop.Issues a := by
    simp only [skipping, List.forall_mem_cons]
    refine ⟨?_, rfl, trivial, trivial, trivial, by simp⟩
    intro c mem
    cases List.mem_singleton.mp mem
    exact ⟨rfl, created, rfl, false, rfl⟩
  exact ⟨skipped, (dispatched_values_are_handled issued reached).2 r stored
    (by rw [skipped]; decide) (by rw [skipped]; decide)⟩

end RustEvents.System.TypedHandlers
