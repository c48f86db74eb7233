/- module: RustEvents/Dispatch/Concurrent
   layer: system
   source: src/outbox.rs (Outbox::dispatch), migrations/20260513000001_v01_outbox_init.sql (dispatch_keys)
   digest: Interleaved transactions under READ COMMITTED: row locks on keys, statements one by one, commit and rollback. -/

import RustEvents.Foundation.LabelledRuns
import RustEvents.Dispatch.Effects

set_option autoImplicit false
set_option relaxedAutoImplicit false

namespace RustEvents.Dispatch.Concurrent

open RustEvents.Foundation.LabelledRuns (Machine)
open RustEvents.Model.Errors
open RustEvents.Model.Schema
open RustEvents.Model.Dispatch

inductive TxStatus where
  | active | committed | rolledBack
  deriving DecidableEq

/-- Which statement of which call a transaction will execute next. -/
inductive Progress where
  | idle
  | reserving (c : Call)
  | inserting (c : Call) (payload : Bytes) (handlerIds : List String)
  | pushing (c : Call) (handlerIds : List String)

def Progress.call? : Progress → Option Call
  | .idle => none
  | .reserving c => some c
  | .inserting c _ _ => some c
  | .pushing c _ => some c

/-- The call in progress, once its reservation was granted. -/
def Progress.granted? : Progress → Option Call
  | .idle => none
  | .reserving _ => none
  | .inserting c _ _ => some c
  | .pushing c _ => some c

structure TxState where
  status : TxStatus
  progress : Progress

/-- One returned dispatch. -/
structure Entry where
  tx : ℕ
  call : Call
  result : Except DispatchError DispatchOutcome

def Entry.creates (x : Entry) : Bool :=
  match x.result with
  | .ok outcome => outcome.creates
  | .error _ => false

/-- The heap holds the rows of open transactions beside the committed ones. `owners` says
which transaction generated an event id, `locks` which one has written a key. -/
structure Server where
  heap : Database
  txs : List TxState
  owners : List (Uuid × ℕ)
  locks : List ((String × String) × ℕ)
  log : List Entry

def Server.start : Server := ⟨Database.empty, [], [], [], []⟩

/-- The rows under the event ids that `hit` selects disappear, as on ROLLBACK. -/
def retract (hit : Uuid → Bool) (db : Database) : Database :=
  { db.deleteEvents hit with jobs := db.jobs.filter fun j => !hit j.envelope.eventId }

inductive TxLabel where
  | begin
  | call (t : ℕ) (c : Call)
  | reserve (t : ℕ)
  | insert (t : ℕ)
  | push (t : ℕ)
  | commit (t : ℕ)
  | rollback (t : ℕ)

namespace Server

variable (s : Server)

def status (t : ℕ) : Option TxStatus := (s.txs[t]?).map TxState.status

def owns (t : ℕ) (eventId : Uuid) : Bool := (eventId, t) ∈ s.owners

/-- The progress of a transaction that is still open. -/
def open? (t : ℕ) : Option Progress :=
  (s.txs[t]?).bind fun tx => if tx.status = .active then some tx.progress else none

/-- The upsert of `key` waits for another open transaction that has written the key. -/
def waits (t : ℕ) (key : String × String) : Bool :=
  s.locks.any fun (locked, holder) =>
    locked = key && holder ≠ t && s.status holder = some .active

/-- A call that fails before its upsert, or in it, does not wait. -/
def blocked (t : ℕ) (c : Call) : Bool :=
  (prepare c).isOk && c.faults.reserve.isNone && c.key.any (s.waits t)

def setProgress (t : ℕ) (progress : Progress) : List TxState :=
  s.txs.set t ⟨.active, progress⟩

/-- The call returns to the application. -/
def answer (t : ℕ) (c : Call) (heap : Database) (locks : List ((String × String) × ℕ))
    (result : Except DispatchError DispatchOutcome) : Server :=
  { s with
    heap := heap
    txs := s.setProgress t .idle
    locks := locks
    log := ⟨t, c, result⟩ :: s.log }

/-- The locks after a transaction has written the key of a call. -/
def locked (t : ℕ) (c : Call) : List ((String × String) × ℕ) :=
  (c.key.map fun key => (key, t)).toList ++ s.locks

def reserved (t : ℕ) (c : Call) : Server :=
  match reserveStep c s.heap with
  | (heap, .returned (.ok outcome)) => s.answer t c heap (s.locked t c) (.ok outcome)
  | (heap, .returned (.error e)) => s.answer t c heap s.locks (.error e)
  | (heap, .inserting payload handlerIds) =>
    { s with
      heap := heap
      txs := s.setProgress t (.inserting c payload handlerIds)
      locks := s.locked t c }

def inserted (t : ℕ) (c : Call) (payload : Bytes) (handlerIds : List String) : Server :=
  match insertStep c payload handlerIds s.heap with
  | (heap, .returned result) => s.answer t c heap s.locks result
  | (heap, .pushing handlerIds) =>
    { s with heap := heap, txs := s.setProgress t (.pushing c handlerIds) }

def pushed (t : ℕ) (c : Call) (handlerIds : List String) : Server :=
  s.answer t c (pushStep c handlerIds s.heap).1 s.locks (pushStep c handlerIds s.heap).2

/-- The application commits only if every dispatch returned `Ok`; the deferred foreign key
is checked on the keys of this transaction. -/
def mayCommit (t : ℕ) : Bool :=
  s.log.all (fun x => x.tx ≠ t || x.result.isOk) &&
    s.heap.dispatchKeys.rows.all fun k =>
      !s.owns t k.eventId || s.heap.events.rows.any fun e => e.id = k.eventId

def step : TxLabel → Option Server
  | .begin => some { s with txs := s.txs ++ [⟨.active, .idle⟩] }
  | .call t c =>
    match s.open? t with
    | some .idle => some { s with
        txs := s.setProgress t (.reserving c)
        owners := (c.eventId, t) :: s.owners }
    | _ => none
  | .reserve t =>
    match s.open? t with
    | some (.reserving c) => if s.blocked t c then none else some (s.reserved t c)
    | _ => none
  | .insert t =>
    match s.open? t with
    | some (.inserting c payload handlerIds) => some (s.inserted t c payload handlerIds)
    | _ => none
  | .push t =>
    match s.open? t with
    | some (.pushing c handlerIds) => some (s.pushed t c handlerIds)
    | _ => none
  | .commit t =>
    match s.open? t with
    | some .idle =>
      if s.mayCommit t then some { s with txs := s.txs.set t ⟨.committed, .idle⟩ } else none
    | _ => none
  | .rollback t =>
    match s.open? t with
    | some _ => some { s with
        heap := retract (s.owns t) s.heap
        txs := s.txs.set t ⟨.rolledBack, .idle⟩ }
    | none => none

/-- `Uuid::now_v7` never returns an id twice. -/
def freshId : TxLabel → Bool
  | .call _ c => s.owners.all fun (eventId, _) => eventId ≠ c.eventId
  | _ => true

end Server

def server : Machine Server TxLabel := (Machine.mk Server.step).restrict Server.freshId

/-- Everything a step of the server can do. -/
inductive ServerStep (s : Server) : TxLabel → Server → Prop where
  | begin : ServerStep s .begin { s with txs := s.txs ++ [⟨.active, .idle⟩] }
  | call (t : ℕ) (c : Call) (idle : s.txs[t]? = some ⟨.active, .idle⟩)
      (fresh : ∀ u, (c.eventId, u) ∉ s.owners) :
      ServerStep s (.call t c) { s with
        txs := s.setProgress t (.reserving c)
        owners := (c.eventId, t) :: s.owners }
  | reserve (t : ℕ) (c : Call) (stage : s.txs[t]? = some ⟨.active, .reserving c⟩)
      (free : s.blocked t c = false) :
      ServerStep s (.reserve t) (s.reserved t c)
  | insert (t : ℕ) (c : Call) (payload : Bytes) (handlerIds : List String)
      (stage : s.txs[t]? = some ⟨.active, .inserting c payload handlerIds⟩) :
      ServerStep s (.insert t) (s.inserted t c payload handlerIds)
  | push (t : ℕ) (c : Call) (handlerIds : List String)
      (stage : s.txs[t]? = some ⟨.active, .pushing c handlerIds⟩) :
      ServerStep s (.push t) (s.pushed t c handlerIds)
  | commit (t : ℕ) (idle : s.txs[t]? = some ⟨.active, .idle⟩) (may : s.mayCommit t = true) :
      ServerStep s (.commit t) { s with txs := s.txs.set t ⟨.committed, .idle⟩ }
  | rollback (t : ℕ) (progress : Progress) (stage : s.txs[t]? = some ⟨.active, progress⟩) :
      ServerStep s (.rollback t) { s with
        heap := retract (s.owns t) s.heap
        txs := s.txs.set t ⟨.rolledBack, .idle⟩ }

theorem open?_some {s : Server} {t : ℕ} {progress : Progress} (found : s.open? t = some progress) :
    s.txs[t]? = some ⟨.active, progress⟩ := by
  obtain ⟨tx, stored, eqn⟩ := Option.bind_eq_some_iff.mp found
  split at eqn
  · next active =>
    rw [stored, ← active, ← Option.some.inj eqn]
  · cases eqn

theorem serverStep_sound {s s' : Server} {a : TxLabel} (taken : server.step s a = some s') :
    ServerStep s a s' := by
  obtain ⟨fresh, step⟩ := Machine.restrict_step.mp taken
  change s.step a = some s' at step
  cases a with
  | begin =>
    cases step
    exact .begin
  | call t c =>
    simp only [Server.step] at step
    split at step
    · next found =>
      cases step
      refine .call t c (open?_some found) ?_
      intro u owned
      have differ := List.all_eq_true.mp fresh (c.eventId, u) owned
      simp at differ
    · cases step
  | reserve t =>
    simp only [Server.step] at step
    split at step
    · next c found =>
      split at step
      · cases step
      · next free =>
        cases step
        exact .reserve t c (open?_some found) (by simpa using free)
    · cases step
  | insert t =>
    simp only [Server.step] at step
    split at step
    · next c payload handlerIds found =>
      cases step
      exact .insert t c payload handlerIds (open?_some found)
    · cases step
  | push t =>
    simp only [Server.step] at step
    split at step
    · next c handlerIds found =>
      cases step
      exact .push t c handlerIds (open?_some found)
    · cases step
  | commit t =>
    simp only [Server.step] at step
    split at step
    · next found =>
      split at step
      · next may =>
        cases step
        exact .commit t (open?_some found) may
      · cases step
    · cases step
  | rollback t =>
    simp only [Server.step] at step
    split at step
    · next progress found =>
      cases step
      exact .rollback t progress (open?_some found)
    · cases step

end RustEvents.Dispatch.Concurrent
