/- module: RustEvents/Model/Purge
   layer: model
   source: src/purge.rs
   digest: The three chunked purge loops: what a chunk may select, what it deletes, when the loop stops. -/

import RustEvents.Foundation.LabelledRuns
import RustEvents.Model.Schema
import Mathlib.Algebra.Group.Int.Defs
import Mathlib.Algebra.Group.Nat.Defs

set_option autoImplicit false
set_option relaxedAutoImplicit false

namespace RustEvents.Model.Purge

open RustEvents.Foundation.LabelledRuns (Machine)
open RustEvents.Model.Text
open RustEvents.Model.Errors
open RustEvents.Model.Schema

/-- `purge_terminal_deliveries`, `purge_dispatch_keys` or `purge_events`. -/
inductive PurgeKind where
  | terminalDeliveries | dispatchKeys | events
  deriving DecidableEq

/-- The result of a chunk's `victims` CTE. A key row is named by its whole tuple: DELETE
does not see a row that was inserted under the same key after the snapshot. -/
inductive Victims where
  | terminalDeliveries (ids : List ℕ)
  | dispatchKeys (rows : List DispatchKeyRow)
  | events (ids : List Uuid)

def Victims.kind : Victims → PurgeKind
  | .terminalDeliveries _ => .terminalDeliveries
  | .dispatchKeys _ => .dispatchKeys
  | .events _ => .events

/-- The event has a delivery in `queued`, `running` or `awaiting_retry`. -/
def active (db : Database) (eventId : Uuid) : Bool :=
  db.handlerDeliveries.rows.any fun hd => hd.eventId = eventId && !hd.status.isTerminal

/-- The WHERE clause of each CTE; every candidate comes with its sort column. -/
def eligibleDeliveries (cutoff : Timestamp) (db : Database) : List (Timestamp × ℕ) :=
  db.handlerDeliveries.rows.filterMap fun hd =>
    if hd.status.isTerminal then
      (hd.finishedAt.filter (· < cutoff)).map fun finishedAt => (finishedAt, hd.id)
    else none

def eligibleKeys (cutoff : Timestamp) (db : Database) : List (Timestamp × DispatchKeyRow) :=
  (db.dispatchKeys.rows.filter (·.createdAt < cutoff)).map fun d => (d.createdAt, d)

def eligibleEvents (cutoff : Timestamp) (db : Database) : List (Timestamp × Uuid) :=
  (db.events.rows.filter fun e => e.createdAt < cutoff && !active db e.id).map
    fun e => (e.createdAt, e.id)

/-- A result that `ORDER BY .. ASC LIMIT limit` allows: the order of ties is free. -/
def isChunk {κ : Type} [DecidableEq κ] (limit : ℕ) (eligible : List (Timestamp × κ))
    (victims : List κ) : Bool :=
  victims.Nodup && victims.length = min limit eligible.length &&
    victims.all fun v => eligible.any fun (stamp, key) =>
      key = v && eligible.all fun (other, rest) => rest ∈ victims || stamp ≤ other

def Victims.selected (cutoff : Timestamp) (db : Database) : Victims → Bool
  | .terminalDeliveries ids => isChunk purgeChunkSize (eligibleDeliveries cutoff db) ids
  | .dispatchKeys rows => isChunk purgeChunkSize (eligibleKeys cutoff db) rows
  | .events ids => isChunk purgeChunkSize (eligibleEvents cutoff db) ids

/-- The tables after the DELETE of a chunk. -/
def Victims.delete (db : Database) : Victims → Database
  | .terminalDeliveries ids => db.deleteDeliveries (·.id ∈ ids)
  | .dispatchKeys rows => db.deleteKeys (· ∈ rows)
  | .events ids => db.deleteEvents (· ∈ ids)

def Victims.rowsAffected (db : Database) : Victims → ℕ
  | .terminalDeliveries ids => db.handlerDeliveries.rows.countP (·.id ∈ ids)
  | .dispatchKeys rows => db.dispatchKeys.rows.countP (· ∈ rows)
  | .events ids => db.events.rows.countP (·.id ∈ ids)

def Victims.statement (victims : Victims) (db : Database) : Except SqlxError (Database × ℕ) :=
  .ok (victims.delete db, victims.rowsAffected db)

/-- Where a purge call stands: each chunk reads its snapshot and then deletes. -/
inductive PurgePhase where
  | selecting
  | deleting (victims : Victims)
  | returned (result : Except SqlxError ℕ)

structure PurgeCall where
  kind : PurgeKind
  cutoff : Timestamp
  total : ℕ
  phase : PurgePhase

def PurgeCall.begin (kind : PurgeKind) (cutoff : Timestamp) : PurgeCall :=
  ⟨kind, cutoff, 0, .selecting⟩

/-- `std::time::Duration`, in nanoseconds: below `2^64` seconds. -/
structure StdDuration where
  nanos : ℕ
  fits : nanos < 2 ^ 64 * 10 ^ 9

/-- `chrono::TimeDelta` counts at most `i64::MAX` milliseconds either way. -/
def deltaLimit : ℤ := (2 ^ 63 - 1) * 10 ^ 6

structure TimeDelta where
  nanos : ℤ
  fits : -deltaLimit ≤ nanos ∧ nanos ≤ deltaLimit

def TimeDelta.max : TimeDelta := ⟨deltaLimit, by decide, by decide⟩

def TimeDelta.fromStd (d : StdDuration) : Option TimeDelta :=
  if h : (d.nanos : ℤ) ≤ deltaLimit then
    some ⟨d.nanos, by simp only [deltaLimit]; omega, h⟩
  else none

/-- The range of `chrono::DateTime<Utc>`, in nanoseconds since 1970: from the first day of
the year -262143 to the last nanosecond of 262142. -/
def minUtc : ℤ := -8334601228800 * 10 ^ 9

def maxUtc : ℤ := 8210266876799 * 10 ^ 9 + 999999999

structure DateTime where
  nanos : ℤ
  fits : minUtc ≤ nanos ∧ nanos ≤ maxUtc

/-- `DateTime - TimeDelta`; `none` is the panic of the operator. -/
def DateTime.sub (t : DateTime) (d : TimeDelta) : Option DateTime :=
  if h : minUtc ≤ t.nanos - d.nanos ∧ t.nanos - d.nanos ≤ maxUtc then
    some ⟨t.nanos - d.nanos, h⟩
  else none

/-- `now` is the reading of `Utc::now`. -/
def cutoffFrom (now : DateTime) (olderThan : StdDuration) : Option DateTime :=
  now.sub ((TimeDelta.fromStd olderThan).getD .max)

/-- The bound value as sqlx encodes it: microseconds since 2000, rounded towards zero. -/
def DateTime.encoded (t : DateTime) : Timestamp := (t.nanos - 946684800 * 10 ^ 9).tdiv 1000

/-- The head of the three functions; `none` when `cutoff_from` panics. -/
def PurgeCall.open (kind : PurgeKind) (now : DateTime) (olderThan : StdDuration) :
    Option PurgeCall :=
  (cutoffFrom now olderThan).map fun cutoff => .begin kind cutoff.encoded

/-- The end of the loop body: a short chunk is the last one, an error ends the call. -/
def PurgeCall.afterDelete (call : PurgeCall) : Except SqlxError ℕ → PurgeCall
  | .error e => { call with phase := .returned (.error e) }
  | .ok n =>
    { call with
      total := call.total + n
      phase := if n < purgeChunkSize then .returned (.ok (call.total + n)) else .selecting }

/-- A purge call and the tables, with no other session. -/
structure Purging where
  call : PurgeCall
  db : Database

/-- One turn of the loop: Postgres picks the victims and deletes them in a single statement. -/
def Purging.turn (s : Purging) (victims : Victims) : Option Purging :=
  match s.call.phase with
  | .selecting =>
    if victims.kind = s.call.kind ∧ victims.selected s.call.cutoff s.db = true then
      some ⟨s.call.afterDelete (.ok (victims.rowsAffected s.db)), victims.delete s.db⟩
    else none
  | _ => none

/-- The loop on its own; its labels are the choices that the ties leave to Postgres. -/
def purging : Machine Purging Victims := ⟨Purging.turn⟩

theorem isChunk_mem {κ : Type} [DecidableEq κ] {limit : ℕ} {eligible : List (Timestamp × κ)}
    {victims : List κ} (chunk : isChunk limit eligible victims = true) {v : κ}
    (mem : v ∈ victims) : ∃ stamp, (stamp, v) ∈ eligible := by
  simp only [isChunk, Bool.and_eq_true, List.all_eq_true, List.any_eq_true] at chunk
  obtain ⟨⟨stamp, key⟩, found, same⟩ := chunk.2 v mem
  obtain ⟨same, -⟩ := same
  exact ⟨stamp, (of_decide_eq_true same) ▸ found⟩

theorem eligibleKeys_mem {cutoff stamp : Timestamp} {db : Database} {k : DispatchKeyRow}
    (found : (stamp, k) ∈ eligibleKeys cutoff db) :
    k ∈ db.dispatchKeys.rows ∧ k.createdAt < cutoff := by
  simp only [eligibleKeys, List.mem_map, List.mem_filter, decide_eq_true_eq] at found
  obtain ⟨d, facts, same⟩ := found
  cases same
  exact facts

theorem active_iff {db : Database} {eventId : Uuid} :
    active db eventId = true ↔ ∃ hd ∈ db.handlerDeliveries.rows,
      hd.eventId = eventId ∧ hd.status.isTerminal = false := by
  simp [active]

theorem afterDelete_idle (call : PurgeCall) (answer : Except SqlxError ℕ) (victims : Victims) :
    (call.afterDelete answer).phase ≠ .deleting victims := by
  intro phase
  cases answer with
  | error e => cases phase
  | ok n =>
    simp only [PurgeCall.afterDelete] at phase
    split at phase <;> cases phase

end RustEvents.Model.Purge
