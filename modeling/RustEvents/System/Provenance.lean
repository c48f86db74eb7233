/- module: RustEvents/System/Provenance
   layer: system
   source: src/runtime.rs (handle_envelope steps 4 to 7)
   digest: No status without a handler: every awaiting, sent, skipped or dead row is the decision on one recorded ending. -/

import RustEvents.System.Integrity
import RustEvents.Worker.Verdicts

set_option autoImplicit false
set_option relaxedAutoImplicit false

namespace RustEvents.System.Provenance

open RustEvents.Foundation.LabelledRuns (Machine)
open RustEvents.Model.Errors
open RustEvents.Model.Schema
open RustEvents.Model.Builder
open RustEvents.Model.Dispatch
open RustEvents.Model.Runtime
open RustEvents.Dispatch.Effects
open RustEvents.Dispatch.Fanout (sampleCall)
open RustEvents.Worker.Statements
open RustEvents.Worker.Steps
open RustEvents.Worker.Origins
open RustEvents.Worker.Verdicts
open RustEvents.Worker.Superseded (sampleEnv sampleRuntime sampleContext)
open RustEvents.System.Lifecycle
open RustEvents.System.Absorbing (delivered)
open RustEvents.System.PurgeSafety (delete_subset)
open RustEvents.System.Chronicle
open RustEvents.System.Integrity

/-- How one claimed invocation came to its decision. `call` is what was called, in which
surroundings and with what; it is `none` when no handler was registered. -/
structure Ending where
  inv : Invocation
  call : Option (ErasedHandler × World × Bytes × HandlerContext)

namespace Ending

variable (e : Ending)

def run : Option (HandlerRun HandlerOutcome) :=
  e.call.map fun (handler, world, payload, hctx) => handler.handleErased world payload hctx

/-- The mark that steps ⑤ to ⑦ decide on. -/
def mark : Mark := (decided e.inv.runtime e.inv.ctx e.run).1

/-- The attempts of the job are used up. -/
def exhausted : Bool := e.inv.ctx.attempt ≥ e.inv.ctx.maxAttempts

/-- The class of the outcome under the configuration of the process that ran it. -/
def outcomeClass : OutcomeClass :=
  classify e.inv.runtime.config.decodeErrorStrategy e.inv.runtime.config.panicPolicy
    (variant e.run)

end Ending

/-- The endings that one step of the system brings about. -/
def endings (s : SystemState) : SystemLabel → SystemState → List Ending
  | .work (.claim i _ _), t =>
    (t.workers.invocations[i]?).toList.filterMap fun inv =>
      match inv.phase with
      | .claimed (.marking _ _) => some ⟨inv, none⟩
      | _ => none
  | .work (.handler i world), _ =>
    (s.workers.invocations[i]?).toList.filterMap fun inv =>
      match inv.phase with
      | .claimed (.invoking handler payload hctx) =>
        some ⟨inv, some (handler, world, payload, hctx)⟩
      | _ => none
  | _, _ => []

/-- The row shows the decision on this ending. -/
structure Shows (e : Ending) (r : HandlerDelivery) : Prop where
  envelope : e.inv.env = r.envelope
  status : r.status = e.mark.status
  lastError : r.lastError = markText e.mark

/-- Every mark that is still to be executed, and every row that one has reached, goes back to a
recorded ending. -/
structure Attested (past : List Ending) (s : SystemState) : Prop where
  marking : ∀ (j : ℕ) (inv : Invocation) (mark : Mark) (verdict : Verdict),
    s.workers.invocations[j]? = some inv → inv.phase = .claimed (.marking mark verdict) →
    ∃ e ∈ past, e.inv.env = inv.env ∧ e.mark = mark
  rows : ∀ r ∈ s.db.handlerDeliveries.rows, r.status ≠ .queued → r.status ≠ .running →
    ∃ e ∈ past, Shows e r

private theorem attested_start : Attested [] SystemState.start := by
  refine ⟨?_, ?_⟩
  · intro j inv mark verdict found
    cases found
  · intro r stored
    cases stored

private theorem marking_step {past : List Ending} {s t : SystemState} {a : SystemLabel}
    (attested : Attested past s) (taken : system.step s a = some t) {j : ℕ} {inv : Invocation}
    {mark : Mark} {verdict : Verdict} (found : t.workers.invocations[j]? = some inv)
    (phase : inv.phase = .claimed (.marking mark verdict)) :
    ∃ e ∈ past ++ endings s a t, e.inv.env = inv.env ∧ e.mark = mark := by
  have kept : ∀ before : Invocation, s.workers.invocations[j]? = some before →
      before.env = inv.env → before.phase = inv.phase →
      ∃ e ∈ past ++ endings s a t, e.inv.env = inv.env ∧ e.mark = mark := by
    intro before found' env same
    obtain ⟨e, mem, own, decision⟩ :=
      attested.marking j before mark verdict found' (same.trans phase)
    exact ⟨e, List.mem_append_left _ mem, own.trans env, decision⟩
  cases systemStep_sound taken with
  | transact tx nodup fresh => exact kept inv found rfl rfl
  | purge kind cutoff => exact kept inv found rfl rfl
  | select p victims call known kind chosen => exact kept inv found rfl rfl
  | delete p reply call victims known deleting => exact kept inv found rfl rfl
  | work a w step =>
    cases invocation_cases (step_sound step) found with
    | kept a before found' same =>
      refine kept before found' ?_ ?_
      · rw [same]
      · rw [same]
    | handedOut rt env ctx last new =>
      rw [new] at phase
      cases phase
    | claimed before now reply found' claiming after =>
      refine ⟨⟨inv, none⟩, List.mem_append_right _ ?_, rfl, ?_⟩
      · change _ ∈ (w.invocations[j]?).toList.filterMap _
        change w.invocations[j]? = some inv at found
        rw [found]
        simp [phase]
      · rw [after] at phase
        have missing := claim_marks (Phase.claimed.inj phase)
        exact missing.1.symm
    | handled before world handler payload hctx found' running after =>
      refine ⟨⟨before, some (handler, world, payload, hctx)⟩, List.mem_append_right _ ?_, ?_, ?_⟩
      · change _ ∈ (s.workers.invocations[j]?).toList.filterMap _
        rw [found']
        simp [running]
      · rw [after]
      · rw [after] at phase
        cases phase
        rfl
    | marked before now reply mark' verdict' found' marking after =>
      rw [after] at phase
      cases phase

private theorem execute_rows {tx : Transaction} {db : Database} {r : HandlerDelivery}
    (stored : r ∈ (tx.execute db).handlerDeliveries.rows) :
    r ∈ db.handlerDeliveries.rows ∨ r.status = .queued := by
  have covers : Covers tx.calls fun db db' => ∀ r ∈ db'.handlerDeliveries.rows,
      r ∈ db.handlerDeliveries.rows ∨ r.status = .queued := by
    refine ⟨fun _ r stored => .inl stored, ?_, ?_, ?_, fun _ _ r stored => .inl stored⟩
    · intro db db' db'' first second r stored
      rcases second r stored with old | new
      · exact first r old
      · exact .inr new
    · intro c mem db db' reserves r stored
      rw [reserves.deliveries] at stored
      exact .inl stored
    · intro c mem payload handlerIds db db' inserts r stored
      rw [inserts.deliveries] at stored
      rcases List.mem_append.mp stored with old | new
      · exact .inl old
      · obtain ⟨-, -, -, -, shape⟩ := Database.queuedRows_spec new
        right
        rw [shape]
        rfl
  exact execute_covered covers db r stored

private theorem attested_step {past : List Ending} {s t : SystemState} {a : SystemLabel}
    (attested : Attested past s) (taken : system.step s a = some t) :
    Attested (past ++ endings s a t) t := by
  refine ⟨fun j inv mark verdict found phase => marking_step attested taken found phase, ?_⟩
  intro r stored notQueued notRunning
  have kept : r ∈ s.db.handlerDeliveries.rows → ∃ e ∈ past ++ endings s a t, Shows e r := by
    intro before
    obtain ⟨e, mem, row⟩ := attested.rows r before notQueued notRunning
    exact ⟨e, List.mem_append_left _ mem, row⟩
  cases systemStep_sound taken with
  | transact tx nodup fresh =>
    rcases execute_rows stored with old | new
    · exact kept old
    · exact absurd new notQueued
  | purge kind cutoff => exact kept stored
  | select p victims call known kind chosen => exact kept stored
  | delete p reply call victims known deleting =>
    change r ∈ (reply.after s.db victims.statement).handlerDeliveries.rows at stored
    rcases after_delete victims s.db reply with same | gone
    · rw [same] at stored
      exact kept stored
    · rw [gone] at stored
      exact kept (delete_subset stored)
  | work a w step =>
    have after : w.db.delivery? r.envelope = some r := delivery?_of_mem stored
    rcases row_cases (step_sound step) r.envelope with same |
      ⟨i, inv, now, reply, old, -, -, -, -, -, -, -, stamped⟩ |
      ⟨i, inv, now, reply, mark, verdict, old, -, found, marking, own, -, -, written⟩
    · exact kept (delivery?_mem (same.symm.trans after)).1
    · have eqn := Option.some.inj (stamped.symm.trans after)
      rw [← eqn] at notRunning
      exact absurd rfl notRunning
    · obtain ⟨e, mem, env, decision⟩ := attested.marking i inv mark verdict found marking
      have eqn := Option.some.inj (written.symm.trans after)
      refine ⟨e, List.mem_append_left _ mem, env.trans own, ?_, ?_⟩
      · rw [← eqn, set_status, decision]
      · rw [← eqn, set_lastError, decision]

theorem attested_run {as : List SystemLabel} {s : SystemState}
    (reached : system.run SystemState.start as = some s) :
    Attested (system.record endings SystemState.start as) s :=
  Machine.record_invariant (I := Attested)
    (fun _ _ _ _ attested taken => attested_step attested taken) attested_start reached

private theorem mark_route (e : Ending) : e.mark.status = (route e.exhausted e.outcomeClass).1 := by
  unfold Ending.mark Ending.outcomeClass Ending.exhausted
  cases e.run with
  | none => rfl
  | some run =>
    have pair := transition_pair e.inv.ctx
      (translated e.inv.runtime.config.decodeErrorStrategy
        (caughtOutcome e.inv.runtime.config.panicPolicy run))
    rw [resultClass_translated] at pair
    exact congrArg Prod.fst pair

private theorem route_sent {exhausted : Bool} {outcome : OutcomeClass}
    (sent : (route exhausted outcome).1 = .sent) : outcome = .ok := by
  cases outcome with
  | ok => rfl
  | retry => cases exhausted <;> cases sent
  | skip => cases sent
  | abort => cases sent

private theorem returned_of_class {e : Ending}
    (calm : e.outcomeClass = .ok ∨ e.outcomeClass = .skip) :
    (e.outcomeClass = .ok ∧ e.run = some (.returned .ok)) ∨
      ∃ reason, e.run = some (.returned (.handler (.skip reason))) := by
  unfold Ending.outcomeClass at calm ⊢
  cases ran : e.run with
  | none =>
    rw [ran] at calm
    rcases calm with ok | skip
    · cases ok
    · cases skip
  | some run =>
    rw [ran] at calm
    cases run with
    | returned outcome =>
      cases outcome with
      | ok => exact .inl ⟨rfl, rfl⟩
      | handler failure =>
        cases failure with
        | skip reason => exact .inr ⟨reason, rfl⟩
        | retry reason delay => rcases calm with wrong | wrong <;> cases wrong
        | abort reason => rcases calm with wrong | wrong <;> cases wrong
      | decodeFailed text =>
        generalize e.inv.runtime.config.decodeErrorStrategy = strategy at calm
        rcases calm with wrong | wrong <;> cases strategy <;> cases wrong
    | panicked payload =>
      generalize e.inv.runtime.config.panicPolicy = policy at calm
      rcases calm with wrong | wrong <;> cases policy <;> cases wrong
    | elapsed => rcases calm with wrong | wrong <;> cases wrong

theorem shows_sent {e : Ending} {r : HandlerDelivery} (row : Shows e r) (sent : r.status = .sent) :
    e.run = some (.returned .ok) := by
  have routed : r.status = (route e.exhausted e.outcomeClass).1 := by
    rw [row.status, mark_route]
  rw [sent] at routed
  have ok := route_sent routed.symm
  rcases returned_of_class (.inl ok) with ⟨-, run⟩ | ⟨reason, run⟩
  · exact run
  · unfold Ending.outcomeClass at ok
    rw [run] at ok
    cases ok

/-- A call that an ending records was handed what its event's dispatch stored. -/
theorem ending_hands_over {as : List SystemLabel} {s : SystemState}
    (reached : system.run SystemState.start as = some s) {e : Ending} {handler : ErasedHandler}
    {world : World} {payload : Bytes} {hctx : HandlerContext}
    (mem : e ∈ system.record endings SystemState.start as)
    (called : e.call = some (handler, world, payload, hctx)) :
    ∃ j db, ClaimRead as j db ∧ ∃ c ∈ chronicle as, HandsOver c db e.inv handler payload hctx := by
  obtain ⟨front, a, back, u, v, rfl, before, step, noted⟩ := Machine.mem_record mem
  obtain ⟨j, found, phase⟩ : ∃ j, u.workers.invocations[j]? = some e.inv ∧
      e.inv.phase = .claimed (.invoking handler payload hctx) := by
    unfold endings at noted
    split at noted
    · obtain ⟨inv, -, here⟩ := List.mem_filterMap.mp noted
      split at here
      · cases here
        cases called
      · cases here
    · next i world' =>
      obtain ⟨inv, stored, here⟩ := List.mem_filterMap.mp noted
      split at here
      · next handler' payload' hctx' phase =>
        cases here
        cases called
        exact ⟨i, Option.mem_toList.mp stored, phase⟩
      · cases here
    · cases noted
  obtain ⟨db, read, c, known, hands⟩ :=
    (faithful_run before).running j e.inv handler payload hctx found phase
  refine ⟨j, db, read.later (a :: back), c, ?_, hands⟩
  rw [chronicle_append before]
  exact List.mem_append_left _ known

end RustEvents.System.Provenance
