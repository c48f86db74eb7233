/- module: RustEvents/Model/Start
   layer: model
   source: src/outbox.rs (Outbox::start, StartedGuard), src/error.rs (StartError)
   digest: Concurrent calls of start as their atomic steps on the shared flag. -/

import RustEvents.Foundation.LabelledRuns
import RustEvents.Model.Builder
import Mathlib.Algebra.Group.Nat.Defs

set_option autoImplicit false
set_option relaxedAutoImplicit false

namespace RustEvents.Model.Start

open RustEvents.Foundation.LabelledRuns (Machine)
open RustEvents.Model.Errors
open RustEvents.Model.Builder

/-- `pg_work_queue::BuildError` and `pg_work_queue::StartError`, known by their display texts. -/
structure PgwqError where
  display : String
  deriving DecidableEq

inductive StartError where
  | alreadyStarted
  | schemaMissing (e : SqlxError)
  | poolTooSmall (maxConnections concurrency : UInt32) (required : ℕ)
  | pgwqBuild (e : PgwqError)
  | pgwqStart (e : PgwqError)
  deriving DecidableEq

def u64Max : ℕ := 2 ^ 64 - 1

/-- `u64::saturating_mul`. -/
def saturatingMul (a b : ℕ) : ℕ := min (a * b) u64Max

/-- `u64::saturating_add`. -/
def saturatingAdd (a b : ℕ) : ℕ := min (a + b) u64Max

/-- Two connections per in-flight job, one for the poll and one for the reaper. -/
def required (config : OutboxConfig) : ℕ :=
  saturatingAdd (saturatingMul config.concurrency.toNat 2) 2

/-- The limits that `start` hands to the worker. `visited` are the entries of the map
`handlers` in the order of its iterator, which is not specified. -/
def concurrencyLimits (visited : List (Sigma fun _ : String => RegisteredHandler)) :
    List (String × UInt32) :=
  visited.filterMap fun entry => entry.2.concurrencyLimit.map (entry.1, ·)

/-- What the schema probe reports; its other failures fall through to the queue's own. -/
def probedMissing : Except SqlxError Unit → Option SqlxError
  | .error (.database (some code) text) =>
    if code = "42P01" ∨ code = "3F000" then some (.database (some code) text) else none
  | _ => none

structure StartedGuard where
  armed : Bool
  deriving DecidableEq

def StartedGuard.new : StartedGuard := ⟨true⟩

def StartedGuard.disarm (guard : StartedGuard) : StartedGuard := { guard with armed := false }

/-- `Drop for StartedGuard`. -/
def StartedGuard.drop (guard : StartedGuard) (started : Bool) : Bool :=
  if guard.armed then false else started

/-- Between the statements of `start` while its guard is alive. -/
inductive Stage where
  | sizing | probing | building | starting | running | disarmed
  deriving DecidableEq

/-- Where one call of `start` stands after its swap. The swap read `true` in `rejected` and
`false` in `admitted`, where only the warning about the runtime's flavor precedes the guard:
it has no await point, and inside a tokio runtime nothing in it fails. -/
inductive Phase where
  | rejected
  | admitted
  | guarded (stage : Stage) (guard : StartedGuard)
  | returned (result : Except StartError Unit)
  | abandoned
  deriving DecidableEq

/-- The next statement of a call, with the answer of the pool or the queue where it awaits one.
`abandon` drops the future at an await point or unwinds it by a panic. -/
inductive Action where
  | answer
  | arm
  | size
  | probe (answer : Except SqlxError Unit)
  | build (answer : Except PgwqError Unit)
  | start (answer : Except PgwqError Unit)
  | disarm
  | finish
  | abandon

/-- One statement of `start` after the swap. Returns the phase it leads to and the guard that
goes out of scope in it. -/
def act (config : OutboxConfig) (maxConnections : UInt32) :
    Phase → Action → Option (Phase × Option StartedGuard)
  | .rejected, .answer => some (.returned (.error .alreadyStarted), none)
  | .admitted, .arm => some (.guarded .sizing .new, none)
  | .guarded .sizing guard, .size =>
    if maxConnections.toNat < required config then
      some (.returned (.error
        (.poolTooSmall maxConnections config.concurrency (required config))), some guard)
    else some (.guarded .probing guard, none)
  | .guarded .probing guard, .probe answer =>
    match probedMissing answer with
    | some e => some (.returned (.error (.schemaMissing e)), some guard)
    | none => some (.guarded .building guard, none)
  | .guarded .building guard, .build (.error e) =>
    some (.returned (.error (.pgwqBuild e)), some guard)
  | .guarded .building guard, .build (.ok _) => some (.guarded .starting guard, none)
  | .guarded .starting guard, .start (.error e) =>
    some (.returned (.error (.pgwqStart e)), some guard)
  | .guarded .starting guard, .start (.ok _) => some (.guarded .running guard, none)
  | .guarded .running guard, .disarm => some (.guarded .disarmed guard.disarm, none)
  | .guarded .disarmed guard, .finish => some (.returned (.ok ()), some guard)
  | .guarded .sizing guard, .abandon => some (.abandoned, some guard)
  | .guarded .probing guard, .abandon => some (.abandoned, some guard)
  | .guarded .building guard, .abandon => some (.abandoned, some guard)
  | .guarded .starting guard, .abandon => some (.abandoned, some guard)
  | .guarded .running guard, .abandon => some (.abandoned, some guard)
  | _, _ => none

/-- `Outbox::started` and every call so far, in the order of their swaps. -/
structure StartState where
  started : Bool
  calls : List Phase

def StartState.initial : StartState := ⟨false, []⟩

inductive StartLabel where
  | swap
  | act (call : ℕ) (action : Action)

/-- The flag after a guard has gone out of scope. -/
def afterDrop (dropped : Option StartedGuard) (started : Bool) : Bool :=
  dropped.elim started fun guard => guard.drop started

def StartState.step (config : OutboxConfig) (maxConnections : UInt32) (s : StartState) :
    StartLabel → Option StartState
  | .swap => some ⟨true, s.calls ++ [if s.started then .rejected else .admitted]⟩
  | .act call action =>
    match s.calls[call]? with
    | none => none
    | some phase => (act config maxConnections phase action).map fun moved =>
        ⟨afterDrop moved.2 s.started, s.calls.set call moved.1⟩

/-- Any number of `start` calls on one outbox, in any order of their statements. -/
def starts (config : OutboxConfig) (maxConnections : UInt32) : Machine StartState StartLabel :=
  ⟨StartState.step config maxConnections⟩

/-- Between a winning swap and the return. -/
def Phase.inProgress : Phase → Bool
  | .admitted => true
  | .guarded _ _ => true
  | _ => false

def Phase.succeeded : Phase → Bool
  | .returned (.ok _) => true
  | _ => false

end RustEvents.Model.Start
