/- module: RustEvents/Model/Shutdown
   layer: model
   source: src/handle.rs (OutboxHandle::shutdown), src/outcome.rs (OutboxStats), src/error.rs (ShutdownError)
   digest: The graceful drain and the best-effort count of open deliveries after it. -/

import RustEvents.Model.Builder

set_option autoImplicit false
set_option relaxedAutoImplicit false

namespace RustEvents.Model.Shutdown

open RustEvents.Model.Errors
open RustEvents.Model.Schema
open RustEvents.Model.Builder (millis)

structure OutboxStats where
  pendingDeliveries : ℕ
  deriving DecidableEq

/-- `pgwq` wraps the error of the worker's own drain. -/
inductive ShutdownError (ε : Type) where
  | pgwq (e : ε)
  deriving DecidableEq

/-- `WorkerHandle::shutdown` of `pg_work_queue`: its result, and how long it took. -/
structure Drain (ε σ : Type) where
  result : Except ε σ
  elapsed : Duration

/-- What becomes of the count query: an answer or an error after some time, or neither. -/
inductive CountReply where
  | answered (after : Duration)
  | failed (e : SqlxError) (after : Duration)
  | hangs

/-- `SELECT COUNT(*) .. WHERE status IN ('queued','running','awaiting_retry')`. -/
def pendingCount (db : Database) : ℤ :=
  db.handlerDeliveries.rows.countP fun hd =>
    hd.status = .queued || hd.status = .running || hd.status = .awaitingRetry

/-- The budget of the count query: what the drain has left of the timeout, but 500 ms at least. -/
def remaining (timeout elapsed : Duration) : Duration := max (timeout - elapsed) (millis 500)

/-- `tokio::time::timeout` around the query; the future is polled before the timer. -/
def timedCount (budget : Duration) (db : Database) : CountReply → Option (Except SqlxError ℤ)
  | .answered after => if after ≤ budget then some (.ok (pendingCount db)) else none
  | .failed e after => if after ≤ budget then some (.error e) else none
  | .hangs => none

/-- `u64::try_from(n).unwrap_or(0)`; an error and a timeout degrade to zero. -/
def pendingOf : Option (Except SqlxError ℤ) → ℕ
  | some (.ok n) => n.toNat
  | some (.error _) => 0
  | none => 0

/-- `OutboxHandle::shutdown`, with the tables as the count query finds them. -/
def shutdown {ε σ : Type} (timeout : Duration) (drain : Drain ε σ) (reply : CountReply)
    (db : Database) : Except (ShutdownError ε) (σ × OutboxStats) :=
  match drain.result with
  | .error e => .error (.pgwq e)
  | .ok stats =>
    .ok (stats, ⟨pendingOf (timedCount (remaining timeout drain.elapsed) db reply)⟩)

end RustEvents.Model.Shutdown
