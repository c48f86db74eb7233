/- module: RustEvents/System/Absorbing
   layer: system
   source: src/runtime.rs (handle_envelope steps 2 and 3), src/purge.rs, tests/audit_row_missing.rs
   digest: A terminal delivery never changes, never comes back and never reaches its handler again. -/

import RustEvents.System.Lifecycle
import RustEvents.Worker.Invocations
import RustEvents.Worker.Superseded

set_option autoImplicit false
set_option relaxedAutoImplicit false

namespace RustEvents.System.Absorbing

open RustEvents.Foundation.LabelledRuns (Machine)
open RustEvents.Foundation.IndexedTable (Table)
open RustEvents.Model.Schema
open RustEvents.Model.Purge
open RustEvents.Dispatch.Fanout (Issued issued_dispatchAll sampleCall)
open RustEvents.Worker.Statements
open RustEvents.Worker.Steps
open RustEvents.Worker.Invocations
open RustEvents.Worker.Superseded (sampleEnv sampleRuntime sampleContext)
open RustEvents.System.Lifecycle

/-- A step that leaves the row of `env` alone, or the DELETE of a purge that removes it. -/
def OnlyPurged (env : HandlerEnvelope) (u : SystemState) (a : SystemLabel) (v : SystemState) :
    Prop :=
  v.db.delivery? env = u.db.delivery? env ∨
    (∃ p reply, a = .delete p reply) ∧ v.db.delivery? env = none

/-- Nothing has come of the delivery since `s`: its row is the one `s` held or is gone, and
every handler that runs for it was already running then. -/
structure Final (s : SystemState) (env : HandlerEnvelope) (r : HandlerDelivery) (t : SystemState) :
    Prop where
  row : t.db.delivery? env = some r ∨ t.db.delivery? env = none
  silent : ∀ (i : ℕ) (inv : Invocation), t.workers.invocations[i]? = some inv → inv.env = env →
    (handlerContext? inv).isSome = true → ∃ before, s.workers.invocations[i]? = some before ∧
      before.env = env ∧ before.phase = inv.phase

private theorem find_deleted {db : Database} {hit : HandlerDelivery → Bool}
    {env : HandlerEnvelope} :
    (db.handlerDeliveries.delete hit).find HandlerDelivery.envelope env = db.delivery? env ∨
      (db.handlerDeliveries.delete hit).find HandlerDelivery.envelope env = none := by
  cases after : (db.handlerDeliveries.delete hit).find HandlerDelivery.envelope env with
  | none => exact .inr rfl
  | some r => exact .inl ((Table.find_delete deliveries_separates_envelope).mp after).1.symm

private theorem delete_delivery (victims : Victims) (db : Database) (env : HandlerEnvelope) :
    (victims.delete db).delivery? env = db.delivery? env ∨
      (victims.delete db).delivery? env = none := by
  cases victims with
  | terminalDeliveries ids => exact find_deleted
  | dispatchKeys rows => exact .inl rfl
  | events ids => exact find_deleted

theorem issued_step {s t : SystemState} {a : SystemLabel} (issued : Issued s.used s.db)
    (taken : system.step s a = some t) : Issued t.used t.db := by
  cases systemStep_sound taken with
  | transact tx nodup fresh =>
    change Issued _ (tx.execute s.db)
    rw [execute_eq]
    split
    · exact issued_dispatchAll issued tx.calls
    · exact issued.mono (List.subset_append_left _ _)
  | work a w step =>
    have frame := step_frame (step_sound step)
    exact ⟨by rw [SystemState.db, frame.events]; exact issued.events,
      by rw [SystemState.db, frame.dispatchKeys]; exact issued.keys⟩
  | purge kind cutoff => exact issued
  | select p victims call found kind chosen => exact issued
  | delete p reply call victims found phase =>
    change Issued s.used (reply.after s.db victims.statement)
    rcases after_delete victims s.db reply with same | gone
    · rw [same]
      exact issued
    · rw [gone]
      cases victims with
      | terminalDeliveries ids => exact ⟨issued.events, issued.keys⟩
      | dispatchKeys rows =>
        exact ⟨issued.events, fun k stored => issued.keys k (Table.mem_delete.mp stored).1⟩
      | events ids =>
        exact ⟨fun e stored => issued.events e (Table.mem_delete.mp stored).1,
          fun k stored => issued.keys k (Table.mem_delete.mp stored).1⟩

private theorem issued_run {as : List SystemLabel} {s : SystemState}
    (reached : system.run SystemState.start as = some s) : Issued s.used s.db := by
  refine Machine.run_invariant (fun _ _ _ issued taken => issued_step issued taken) ?_ reached
  constructor <;> intro row stored <;> cases stored

/-- What a delivery that was terminal in `s` still satisfies later on. -/
structure Settled (s : SystemState) (env : HandlerEnvelope) (r : HandlerDelivery)
    (t : SystemState) : Prop extends Final s env r t where
  known : env.eventId ∈ t.used

private theorem settled_closed {s t : SystemState} {env : HandlerEnvelope} {r : HandlerDelivery}
    (terminal : r.status.isTerminal = true) (settled : Settled s env r t) :
    (t.db.delivery? env).all (·.status.isTerminal) = true := by
  rcases settled.row with row | row <;> simp [row, terminal]

private theorem silent_work {s t : SystemState} {env : HandlerEnvelope} {r : HandlerDelivery}
    {a : WorkerLabel} {w : WorkerState} (terminal : r.status.isTerminal = true)
    (settled : Settled s env r t) (step : Step t.workers a w) {j : ℕ} {inv : Invocation}
    (found : w.invocations[j]? = some inv) (own : inv.env = env)
    (runs : (handlerContext? inv).isSome = true) :
    ∃ before, s.workers.invocations[j]? = some before ∧ before.env = env ∧
      before.phase = inv.phase := by
  obtain ⟨hctx, running⟩ := Option.isSome_iff_exists.mp runs
  rcases running_origin step found running with ⟨mid, found', own', phase⟩ | ⟨r', row, live, -⟩
  · have runs' : (handlerContext? mid).isSome = true := by
      simpa only [handlerContext?, phase] using runs
    obtain ⟨before, facts, own'', phase'⟩ := settled.silent j mid found' (own'.trans own) runs'
    exact ⟨before, facts, own'', phase'.trans phase⟩
  · have closed := settled_closed terminal settled
    rw [← own] at closed
    change (t.workers.db.delivery? inv.env).all _ = true at closed
    rw [row, Option.all_some, live] at closed
    cases closed

private theorem settled_step {s t u : SystemState} {env : HandlerEnvelope} {r : HandlerDelivery}
    {a : SystemLabel} (terminal : r.status.isTerminal = true) (settled : Settled s env r t)
    (taken : system.step t a = some u) : Settled s env r u ∧ OnlyPurged env t a u := by
  have unchanged : u.db.delivery? env = t.db.delivery? env →
      (u.db.delivery? env = some r ∨ u.db.delivery? env = none) ∧ OnlyPurged env t a u :=
    fun same => ⟨by rw [same]; exact settled.row, .inl same⟩
  cases systemStep_sound taken with
  | transact tx nodup fresh =>
    obtain ⟨row, purged⟩ := unchanged ((grows_execute tx t.db).delivery? (fresh _ settled.known))
    exact ⟨⟨⟨row, settled.silent⟩, List.mem_append_left _ settled.known⟩, purged⟩
  | work a w step =>
    have inner := step_sound step
    obtain ⟨row, purged⟩ := unchanged (closed_row inner (settled_closed terminal settled))
    refine ⟨⟨⟨row, ?_⟩, settled.known⟩, purged⟩
    intro i inv found own runs
    exact silent_work terminal settled inner found own runs
  | purge kind cutoff => exact ⟨⟨⟨settled.row, settled.silent⟩, settled.known⟩, .inl rfl⟩
  | select p victims call found kind chosen =>
    exact ⟨⟨⟨settled.row, settled.silent⟩, settled.known⟩, .inl rfl⟩
  | delete p reply call victims found phase =>
    have effect : (t.deleted p call victims reply).db.delivery? env = t.db.delivery? env ∨
        (t.deleted p call victims reply).db.delivery? env = none := by
      change (reply.after t.db victims.statement).delivery? env = _ ∨
        (reply.after t.db victims.statement).delivery? env = none
      rcases after_delete victims t.db reply with same | gone
      · exact .inl (by rw [same])
      · rw [gone]
        exact delete_delivery victims t.db env
    rcases effect with same | gone
    · obtain ⟨row, purged⟩ := unchanged same
      exact ⟨⟨⟨row, settled.silent⟩, settled.known⟩, purged⟩
    · exact ⟨⟨⟨.inr gone, settled.silent⟩, settled.known⟩, .inr ⟨⟨p, reply, rfl⟩, gone⟩⟩

/-- In every run, from the moment a delivery is terminal: no step changes its row, only the
DELETE of a purge removes it, no row takes its place, and no claim starts its handler. -/
theorem terminal_is_final {as bs : List SystemLabel} {s t : SystemState} {env : HandlerEnvelope}
    {r : HandlerDelivery} (reached : system.run SystemState.start as = some s)
    (stored : s.db.delivery? env = some r) (terminal : r.status.isTerminal = true)
    (later : system.run s bs = some t) :
    Final s env r t ∧ system.Along (OnlyPurged env) s bs := by
  have known : env.eventId ∈ s.used := by
    obtain ⟨row, own⟩ := delivery?_mem stored
    obtain ⟨e, event, ids⟩ := s.db.deliveryEvent r row
    have used := (issued_run reached).events e event
    rw [ids, ← own] at *
    exact used
  have start : Settled s env r s :=
    ⟨⟨.inl stored, fun i inv found own _ => ⟨inv, found, own, rfl⟩⟩, known⟩
  refine ⟨(Machine.run_invariant (I := Settled s env r) ?_ start later).toFinal, ?_⟩
  · intro u a v settled taken
    exact (settled_step terminal settled taken).1
  · exact Machine.along_of_invariant
      (fun u a v settled taken => settled_step terminal settled taken) start bs

/-- One event for two handlers; the first of them succeeds. -/
def delivered : List SystemLabel :=
  [.transact ⟨[sampleCall "order.created" (some "order:42") 1#128], true⟩,
    .work (.handOut sampleRuntime sampleEnv (sampleContext 1 101#128)),
    .work (.claim 0 1 .answered), .work (.handler 0 0), .work (.mark 0 2 .answered)]

/-- Its row is purged, and then the queue hands the job out once more. -/
def purgedAndRetried : List SystemLabel :=
  [.purge .terminalDeliveries 10, .select 0 (.terminalDeliveries [0]), .delete 0 .answered,
    .work (.handOut sampleRuntime sampleEnv (sampleContext 2 102#128)),
    .work (.claim 1 11 .answered)]

theorem terminal_is_final_purged : ∃ s t r, system.run SystemState.start delivered = some s ∧
    s.db.delivery? sampleEnv = some r ∧ r.status = .sent ∧
    system.run s purgedAndRetried = some t ∧ Final s sampleEnv r t ∧
    t.db.delivery? sampleEnv = none := by
  have runs : (system.run SystemState.start delivered).any (fun s =>
      (s.db.delivery? sampleEnv).any (fun r => r.status = .sent) &&
        (system.run s purgedAndRetried).any fun t => (t.db.delivery? sampleEnv).isNone) = true := by
    decide
  obtain ⟨s, reached, facts⟩ := (Option.any_eq_true _ _).mp runs
  rw [Bool.and_eq_true] at facts
  obtain ⟨r, stored, sent⟩ := (Option.any_eq_true _ _).mp facts.1
  obtain ⟨t, later, gone⟩ := (Option.any_eq_true _ _).mp facts.2
  have status : r.status = .sent := of_decide_eq_true sent
  have final := (terminal_is_final reached stored (by rw [status]; rfl) later).1
  exact ⟨s, t, r, reached, stored, status, later, final, Option.isNone_iff_eq_none.mp gone⟩

end RustEvents.System.Absorbing
