/- module: RustEvents/Model/Errors
   layer: model
   source: src/util.rs, src/error.rs, src/handler.rs, src/runtime.rs (map_sql, map_mark_err)
   digest: Database, handler and queue errors, the SQLSTATE classifier and the redacted texts. -/

import RustEvents.Model.Text

set_option autoImplicit false
set_option relaxedAutoImplicit false

namespace RustEvents.Model.Errors

/-- A `std::time::Duration` in nanoseconds. -/
abbrev Duration := ℕ

/-- The variants of `sqlx::Error`. `text` stands for everything the underlying
error carries beyond its variant: message, DETAIL line, constraint name. -/
inductive SqlxError where
  | configuration (text : String)
  | invalidArgument (text : String)
  | database (code : Option String) (text : String)
  | io (text : String)
  | tls (text : String)
  | protocol (text : String)
  | rowNotFound
  | typeNotFound (text : String)
  | columnIndexOutOfBounds (text : String)
  | columnNotFound (text : String)
  | columnDecode (text : String)
  | encode (text : String)
  | decode (text : String)
  | anyDriverError (text : String)
  | poolTimedOut
  | poolClosed
  | workerCrashed
  | migrate (text : String)
  | invalidSavePointStatement
  | beginFailed
  deriving DecidableEq

/-- `code.starts_with(c)`. -/
def startsWith (code c : String) : Bool := c.toList.isPrefixOf code.toList

/-- SQLSTATE classes that a retry cannot repair. -/
def deterministicClasses : List String := ["0A", "22", "23", "25", "28", "3F", "42", "44"]

def isSqlxDeterministic : SqlxError → Bool
  | .database (some code) _ => deterministicClasses.any (startsWith code)
  | .database none _ => false
  | .protocol _ => true
  | .typeNotFound _ => true
  | .columnDecode _ => true
  | .encode _ => true
  | .decode _ => true
  | .configuration _ => true
  | _ => false

def redactDbError : SqlxError → String
  | .database code _ => "db_error code=" ++ code.getD "unknown"
  | .io _ => "db_error kind=io"
  | .poolTimedOut => "db_error kind=pool_timed_out"
  | .poolClosed => "db_error kind=pool_closed"
  | .rowNotFound => "db_error kind=row_not_found"
  | .tls _ => "db_error kind=tls"
  | .configuration _ => "db_error kind=configuration"
  | _ => "db_error kind=other"

/-- `pg_work_queue::JobError`, as its constructors `retry`, `retry_in` and `abort` build it. -/
inductive JobError where
  | retry (reason : String) (retryIn : Option Duration)
  | abort (reason : String)
  deriving DecidableEq

/-- What `handle_envelope` returns to the queue; `none` is `Ok(())`. -/
abbrev Verdict := Option JobError

/-- A database error on the way to the queue: deterministic ones abort the job. -/
def mapSql (e : SqlxError) (ctx : String) : JobError :=
  if isSqlxDeterministic e then
    .abort (ctx ++ ": deterministic db error: " ++ redactDbError e)
  else
    .retry (ctx ++ ": " ++ redactDbError e) none

/-- The mark helpers classify exactly as the claim does; the pool-starvation
warning that the source also emits is a log line only. -/
def mapMarkErr (e : SqlxError) (kind : String) : JobError := mapSql e kind

/-- `HandlerError`, the verdict of a user handler. -/
inductive HandlerError where
  | retry (reason : String) (retryIn : Option Duration)
  | skip (reason : String)
  | abort (reason : String)
  deriving DecidableEq

/-- `serde_json::Error`, known here by its display text only. -/
structure SerdeError where
  display : String
  deriving DecidableEq

/-- `pg_work_queue::PushError`. -/
structure PushError where
  display : String
  retriable : Bool
  deriving DecidableEq

inductive DispatchError where
  | tenantIdTooLong (len max : ℕ)
  | producerBcTooLong (len max : ℕ)
  | eventTypeInvalid (len max : ℕ)
  | idempotencyKeyInvalid (len max : ℕ)
  | aggregateKeyInvalid (len max : ℕ)
  | payloadTooLarge (size max : ℕ)
  | headersTooLarge (size max : ℕ)
  | noHandlersRegistered (eventType : String)
  | codec (e : SerdeError)
  | pgwqPush (e : PushError)
  | constraint (e : SqlxError)
  | transient (e : SqlxError)
  deriving DecidableEq

/-- `impl From<sqlx::Error> for DispatchError`. -/
def DispatchError.ofSqlx (e : SqlxError) : DispatchError :=
  if isSqlxDeterministic e then .constraint e else .transient e

/-- The nine rejections that `dispatch` raises itself, before or between its
statements; the other three variants report a failed statement. -/
def DispatchError.typed : DispatchError → Bool
  | .pgwqPush _ => false
  | .constraint _ => false
  | .transient _ => false
  | _ => true

inductive BuildError where
  | handlerIdEmpty
  | handlerIdTooLong (len max : ℕ)
  | duplicateHandlerId (eventType handlerId : String)
  | configInvalid (text : String)
  deriving DecidableEq

/-- SQLSTATE of a violated CHECK constraint. -/
def checkViolation (constraint : String) : SqlxError := .database (some "23514") constraint

/-- SQLSTATE of a violated unique index. -/
def uniqueViolation (index : String) : SqlxError := .database (some "23505") index

/-- A text parameter with U+0000 is refused before its statement runs. -/
def characterNotInRepertoire : SqlxError := .database (some "22021") "invalid byte sequence"

/-- The cast to `jsonb` refuses an escaped U+0000. -/
def untranslatableCharacter : SqlxError :=
  .database (some "22P05") "unsupported Unicode escape sequence"

theorem mapSql_of_deterministic {e : SqlxError} (h : isSqlxDeterministic e = true)
    (ctx : String) :
    mapSql e ctx = .abort (ctx ++ ": deterministic db error: " ++ redactDbError e) := by
  simp only [mapSql, h, ↓reduceIte]

theorem mapSql_of_transient {e : SqlxError} (h : isSqlxDeterministic e = false)
    (ctx : String) : mapSql e ctx = .retry (ctx ++ ": " ++ redactDbError e) none := by
  simp only [mapSql, h, Bool.false_eq_true, ↓reduceIte]

example : isSqlxDeterministic (.database (some "23505") "") = true := by decide

end RustEvents.Model.Errors
