/- module: RustEvents/Worker/SafeReasons
   layer: model facts
   source: src/runtime.rs (pgwq_reason, map_sql, map_mark_err), src/util.rs (redact_db_error)
   digest: Which texts handle_envelope hands to the queue: all are clean, and all but a long skip reason fit the limit. -/

import RustEvents.Worker.Rows
import RustEvents.Worker.Verdicts

set_option autoImplicit false
set_option relaxedAutoImplicit false

namespace RustEvents.Worker.SafeReasons

open RustEvents.Model.Text
open RustEvents.Model.Errors
open RustEvents.Model.Schema
open RustEvents.Model.Builder
open RustEvents.Model.Runtime
open RustEvents.Worker.Statements
open RustEvents.Worker.Reasons
open RustEvents.Worker.Rows
open RustEvents.Worker.Superseded (sampleEnv sampleDatabase sampleRuntime sampleContext)
open RustEvents.Worker.Verdicts

/-- A text that the queue can store as it is. -/
structure SafeText (text : String) : Prop where
  clean : clean text = true
  short : len text ≤ maxLastErrorBytes

/-- What a call of `handle_envelope` may return. -/
def SafeVerdict (verdict : Verdict) : Prop := ∀ e, verdict = some e → SafeText (errorText e)

/-- An SQLSTATE is five digits or upper-case letters. -/
def sqlState (code : String) : Bool :=
  code.toList.length = 5 && code.toList.all fun c => c.isDigit || c.isUpper

/-- `DatabaseError::code` returns an SQLSTATE. -/
def coded : SqlxError → Bool
  | .database (some code) _ => sqlState code
  | _ => true

/-- The same for the error that a statement fails with on its way. -/
def codedReply : Reply → Bool
  | .answered => true
  | .failed e => coded e
  | .lost e => coded e

private theorem ascii_of_sqlState {c : Char} (sign : (c.isDigit || c.isUpper) = true) :
    isControl c = false ∧ c.utf8Size = 1 := by
  have upper : c.isUpper = decide (c.val ≥ 'A'.val ∧ c.val ≤ 'Z'.val) := rfl
  have range : 48 ≤ c.toNat ∧ c.toNat ≤ 90 := by
    simp only [Char.isDigit, upper, Bool.or_eq_true, Bool.and_eq_true, decide_eq_true_eq,
      ge_iff_le, UInt32.le_iff_toNat_le] at sign
    rcases sign with ⟨low, high⟩ | ⟨low, high⟩
    · exact ⟨low, Nat.le_trans high (by decide)⟩
    · exact ⟨Nat.le_trans (by decide) low, high⟩
  constructor
  · simp only [isControl, Bool.or_eq_false_iff, Bool.and_eq_false_iff, decide_eq_false_iff_not]
    omega
  · rw [Char.utf8Size_eq_one_iff, UInt32.le_iff_toNat_le]
    exact Nat.le_trans range.2 (by decide)

private theorem sqlState_safe {code : String} (wellFormed : sqlState code = true) :
    clean code = true ∧ len code = 5 := by
  simp only [sqlState, Bool.and_eq_true, decide_eq_true_eq, List.all_eq_true] at wellFormed
  obtain ⟨five, signs⟩ := wellFormed
  refine ⟨?_, ?_⟩
  · simp only [clean, List.all_eq_true, Bool.not_eq_true']
    exact fun c mem => (ascii_of_sqlState (signs c mem)).1
  · rw [len_eq_length fun c mem => (ascii_of_sqlState (signs c mem)).2]
    exact five

private theorem redact_safe {e : SqlxError} (wellFormed : coded e = true) :
    clean (redactDbError e) = true ∧ len (redactDbError e) ≤ 29 := by
  cases e with
  | database code text =>
    cases code with
    | none =>
      simp only [redactDbError, Option.getD_none]
      decide
    | some code =>
      obtain ⟨safe, five⟩ := sqlState_safe wellFormed
      have literal : clean "db_error code=" = true ∧ len "db_error code=" = 14 := by decide
      simp only [redactDbError, Option.getD_some, clean_append, len_append, literal, safe, five]
      decide
  | _ =>
    simp only [redactDbError]
    decide

private theorem mapSql_safe {e : SqlxError} (wellFormed : coded e = true) {ctx : String}
    (plain : clean ctx = true) (short : len ctx ≤ 14) : SafeText (errorText (mapSql e ctx)) := by
  obtain ⟨safe, small⟩ := redact_safe wellFormed
  have abort : clean ": deterministic db error: " = true ∧ len ": deterministic db error: " = 26 := by
    decide
  have retry : clean ": " = true ∧ len ": " = 2 := by decide
  simp only [mapSql]
  split
  · refine ⟨?_, ?_⟩
    · simp only [errorText, clean_append, plain, abort, safe, Bool.and_true]
    · simp only [errorText, len_append, abort, maxLastErrorBytes]
      omega
  · refine ⟨?_, ?_⟩
    · simp only [errorText, clean_append, plain, retry, safe, Bool.and_true]
    · simp only [errorText, len_append, retry, maxLastErrorBytes]
      omega

private theorem trimmed_safe (reason : String) : SafeText (trimmedReason reason) :=
  ⟨trimmedReason_clean reason, trimmedReason_len reason⟩

private theorem skipped_safe_iff (reason : String) :
    SafeText ("skipped: " ++ trimmedReason reason) ↔ len (sanitizeReason reason) ≤ 8183 := by
  -- The prefix of a skip reason takes nine of its bytes.
  have literal : clean "skipped: " = true ∧ len "skipped: " = 9 := by decide
  have size : len (trimmedReason reason) ≤ 8183 ↔ len (sanitizeReason reason) ≤ 8183 := by
    simp only [trimmedReason]
    by_cases long : maxLastErrorBytes < len (sanitizeReason reason)
    · have tight := truncateUtf8_tight long
      simp only [maxLastErrorBytes] at long tight ⊢
      omega
    · rw [truncateUtf8, if_pos (Nat.le_of_not_lt long)]
  rw [← size]
  constructor
  · intro safe
    have short := safe.short
    simp only [len_append, literal, maxLastErrorBytes] at short
    omega
  · intro short
    refine ⟨?_, ?_⟩
    · simp only [clean_append, literal, trimmedReason_clean, Bool.and_true]
    · simp only [len_append, literal, maxLastErrorBytes]
      omega

private theorem coded_update {db : Database} {hit : HandlerDelivery → Bool} {set : SetClause}
    {e : SqlxError} (failed : db.updateDeliveries hit set = .error e) : coded e = true := by
  simp only [Database.updateDeliveries] at failed
  split at failed
  · cases failed
    exact (by decide : sqlState "23514" = true)
  · cases failed

private theorem coded_claim {env : HandlerEnvelope} {ctx : JobContext} {now : Timestamp}
    {db : Database}
    {e : SqlxError} (failed : claimStatement env ctx now db = .error e) : coded e = true := by
  simp only [claimStatement] at failed
  split at failed
  case isFalse =>
    cases failed
    decide
  split at failed
  · cases failed
  split at failed
  · next eqn =>
    cases failed
    exact coded_update eqn
  · cases failed

private theorem coded_mark {env : HandlerEnvelope} {token : Uuid} {now : Timestamp} {mark : Mark}
    {db : Database} {e : SqlxError} (failed : mark.statement env token now db = .error e) :
    coded e = true := by
  have fenced : ∀ {set : SetClause} {texts : List String},
      markFenced set texts env token db = .error e → coded e = true := by
    intro set texts failed
    simp only [markFenced] at failed
    split at failed
    · exact coded_update failed
    · cases failed
      decide
  cases mark <;> exact fenced failed

private theorem coded_answer {β : Type} {reply : Reply} {db : Database} {e : SqlxError}
    {statement : Database → Except SqlxError (Database × β)} (wellFormed : codedReply reply = true)
    (own : ∀ f, statement db = .error f → coded f = true)
    (failed : reply.answer db statement = .error e) : coded e = true := by
  cases reply with
  | failed f => exact Except.error.inj failed ▸ wellFormed
  | lost f => exact Except.error.inj failed ▸ wellFormed
  | answered =>
    cases eqn : statement db with
    | error f =>
      simp only [Reply.answer, eqn] at failed
      exact Except.error.inj failed ▸ own f eqn
    | ok done => simp [Reply.answer, eqn] at failed

private theorem answered_of_ok {β : Type} {reply : Reply} {db : Database} {b : β}
    {statement : Database → Except SqlxError (Database × β)}
    (heard : reply.answer db statement = .ok b) :
    reply = .answered ∧ ∃ db', statement db = .ok (db', b) := by
  cases reply with
  | failed f => cases heard
  | lost f => cases heard
  | answered =>
    cases eqn : statement db with
    | error f => simp [Reply.answer, eqn] at heard
    | ok done =>
      simp only [Reply.answer, eqn] at heard
      exact ⟨rfl, done.1, by rw [← Except.ok.inj heard]⟩

private theorem translated_skip {strategy : DecodeStrategy} {policy : PanicPolicy}
    {run : HandlerRun HandlerOutcome} {reason : String}
    (skips : translated strategy (caughtOutcome policy run) = some (.skip reason)) :
    run = .returned (.handler (.skip reason)) := by
  cases run with
  | returned outcome =>
    cases outcome with
    | ok => cases skips
    | handler e => exact congrArg _ (congrArg _ (Option.some.inj skips))
    | decodeFailed text => cases strategy <;> cases skips
  | panicked payload => cases policy <;> cases skips
  | elapsed => cases skips

private theorem transition_safe {ctx : JobContext} {result : Option HandlerError}
    (short : ∀ reason, result = some (.skip reason) → len (sanitizeReason reason) ≤ 8183) :
    SafeVerdict (terminalTransition ctx result).2 := by
  intro e eqn
  cases result with
  | none => cases eqn
  | some err =>
    cases err with
    | retry reason retryIn =>
      cases Option.some.inj eqn
      exact trimmed_safe reason
    | skip reason =>
      cases Option.some.inj eqn
      exact (skipped_safe_iff reason).mpr (short reason rfl)
    | abort reason =>
      cases Option.some.inj eqn
      exact trimmed_safe reason

/-- The branch that exceeds the limit: the handler skips with a reason of more than 8183
bytes, and the mark does not fail. -/
def LongSkip (others : Database → Database) (rt : OutboxRuntime) (env : HandlerEnvelope)
    (ctx : JobContext) (out : Surroundings) (db : Database) : Prop :=
  ∃ db' row reason n, Claims env ctx out db db' row ∧
    ending rt env ctx out.world row = some (.returned (.handler (.skip reason))) ∧
    8183 < len (sanitizeReason reason) ∧
    out.markReply.answer (others db')
      ((Mark.skipped reason).statement env ctx.leaseToken out.markNow) = .ok n

section Calls

variable {others : Database → Database} {rt : OutboxRuntime} {env : HandlerEnvelope}
  {ctx : JobContext} {out : Surroundings} {db : Database}

private theorem longSkip_unsafe (long : LongSkip others rt env ctx out db) :
    ¬ SafeVerdict (handleEnvelopeAmid others rt env ctx out db).2 := by
  obtain ⟨db', row, reason, n, claims, skips, large, marked⟩ := long
  intro safe
  have verdict : (handleEnvelopeAmid others rt env ctx out db).2 =
      some (.abort ("skipped: " ++ trimmedReason reason)) := by
    rw [handle_claimed claims, skips]
    simp only [finishMark, decided, afterHandler, caughtOutcome, translated, terminalTransition,
      marked, afterMark]
  have short := (skipped_safe_iff reason).mp (safe _ verdict)
  omega

private theorem unclaimed_safe (wellFormed : codedReply out.claimReply = true)
    (unclaimed : ∀ db' row, ¬ Claims env ctx out db db' row) :
    SafeVerdict (handleEnvelopeAmid others rt env ctx out db).2 := by
  have fixed : ∀ text ∈ ["event row missing", "handler_delivery row not found",
      "audit row UPDATE collision"], clean text = true ∧ len text ≤ maxLastErrorBytes := by decide
  have safe : ∀ text ∈ ["event row missing", "handler_delivery row not found",
      "audit row UPDATE collision"], SafeText text :=
    fun text mem => ⟨(fixed text mem).1, (fixed text mem).2⟩
  intro e
  simp only [handleEnvelopeAmid]
  cases heard : out.claimReply.answer db (claimStatement env ctx out.claimNow) with
  | error f =>
    intro eqn
    cases Option.some.inj eqn
    exact mapSql_safe (coded_answer wellFormed (fun _ => coded_claim) heard) (by decide) (by decide)
  | ok selected =>
    cases selected with
    | none =>
      intro eqn
      cases Option.some.inj eqn
      exact safe "event row missing" (by simp)
    | some row =>
      obtain ⟨answered, db', statement⟩ := answered_of_ok heard
      have quiet : row.didUpdate = false :=
        Bool.eq_false_iff.mpr fun updated => unclaimed db' row ⟨answered, statement, updated⟩
      cases prev : row.prevStatus with
      | none =>
        simp only [afterClaim, prev]
        intro eqn
        cases Option.some.inj eqn
        exact safe "handler_delivery row not found" (by simp)
      | some status =>
        cases terminal : status.isTerminal with
        | true =>
          simp only [afterClaim, prev, quiet, terminal, if_true]
          intro eqn
          cases eqn
        | false =>
          simp only [afterClaim, prev, quiet, terminal]
          intro eqn
          cases Option.some.inj eqn
          exact safe "audit row UPDATE collision" (by simp)

private theorem decided_safe {ran : Option (HandlerRun HandlerOutcome)}
    (short : ∀ reason, ran = some (.returned (.handler (.skip reason))) →
      len (sanitizeReason reason) ≤ 8183) : SafeVerdict (decided rt ctx ran).2 := by
  cases ran with
  | none =>
    intro e eqn
    cases Option.some.inj eqn
    exact ⟨by decide, by decide⟩
  | some run =>
    refine transition_safe ?_
    intro reason skips
    exact short reason (congrArg some (translated_skip skips))

private theorem claimed_safe {db' : Database} {row : ClaimRow}
    (wellFormed : codedReply out.markReply = true)
    (claims : Claims env ctx out db db' row) (short : ¬ LongSkip others rt env ctx out db) :
    SafeVerdict (handleEnvelopeAmid others rt env ctx out db).2 := by
  rw [handle_claimed claims]
  simp only [finishMark]
  cases heard : out.markReply.answer (others db') ((decided rt ctx
      (ending rt env ctx out.world row)).1.statement env ctx.leaseToken out.markNow) with
  | error f =>
    intro e eqn
    cases Option.some.inj eqn
    have kind : ∀ mark : Mark, clean mark.kind = true ∧ len mark.kind ≤ 14 := by
      intro mark
      cases mark <;>
        simp only [Mark.kind] <;>
        decide
    exact mapSql_safe (coded_answer wellFormed (fun _ => coded_mark) heard) (kind _).1 (kind _).2
  | ok n =>
    refine decided_safe ?_
    intro reason skips
    by_contra long
    refine short ⟨db', row, reason, n, claims, skips, Nat.lt_of_not_le long, ?_⟩
    rw [skips] at heard
    exact heard

/-- The text that a call hands to the queue is safe to store unless it is a long skip reason. -/
theorem job_error_safe_iff (claimCodes : codedReply out.claimReply = true)
    (markCodes : codedReply out.markReply = true) :
    SafeVerdict (handleEnvelopeAmid others rt env ctx out db).2 ↔
      ¬ LongSkip others rt env ctx out db := by
  constructor
  · intro safe long
    exact longSkip_unsafe long safe
  · intro short
    by_cases claimed : ∃ db' row, Claims env ctx out db db' row
    · obtain ⟨db', row, claims⟩ := claimed
      exact claimed_safe markCodes claims short
    · exact unclaimed_safe claimCodes fun db' row claims => claimed ⟨db', row, claims⟩

end Calls

/-- A claim that Postgres refuses with a serialization failure. -/
def refusedClaim : Surroundings :=
  ⟨1, .failed (.database (some "40001") "could not serialize access"), 0, 2, .answered⟩

theorem job_error_safe_iff_refused :
    (handleEnvelopeAmid id sampleRuntime sampleEnv (sampleContext 1 101#128) refusedClaim
      sampleDatabase).2 = some (.retry "fetch delivery: db_error code=40001" none) ∧
    SafeVerdict (handleEnvelopeAmid id sampleRuntime sampleEnv (sampleContext 1 101#128)
      refusedClaim sampleDatabase).2 := by
  refine ⟨by decide, (job_error_safe_iff (by decide) rfl).mpr ?_⟩
  rintro ⟨db', row, reason, n, claims, -⟩
  cases claims.answered

/-- A reason of `n` letters, and a runtime whose only handler skips with it. -/
def longReason (n : ℕ) : String := String.ofList (List.replicate n 'a')

def skippingRuntime (reason : String) : OutboxRuntime where
  config := OutboxConfig.default
  registry := Registry.new.add
    ⟨"order.created", "mailer", ⟨fun _ _ _ => .returned (.handler (.skip reason))⟩, none, none⟩

private theorem len_longReason (n : ℕ) : len (sanitizeReason (longReason n)) = n := by
  have plain : sanitizeReason (longReason n) = longReason n := by
    simp only [sanitizeReason, longReason, String.toList_ofList, List.map_replicate]
    rfl
  rw [plain]
  exact letters_bytes n

private theorem sampleDatabase_sound : SoundRows sampleDatabase := by
  intro r stored
  rw [List.mem_singleton.mp stored]
  exact sound_queued (by decide) (by decide)

private theorem skip_overflows {n : ℕ} (long : 8183 < n) : ¬ SafeVerdict (handleEnvelopeAmid id
    (skippingRuntime (longReason n)) sampleEnv (sampleContext 1 101#128) sampleSurroundings
    sampleDatabase).2 := by
  have found : sampleDatabase.delivery? sampleEnv = some (Database.queuedRow 0 1#128 0 "mailer") := by
    decide
  obtain ⟨db', row, statement, -, updated, rows⟩ :=
    claim_succeeds sampleDatabase_sound found (by decide : (0 : ℤ) ≤ 1) (sampleContext 1 101#128)
  have claimed := claim_delivery statement sampleEnv
  rw [if_pos rfl, found, Option.map_some] at claimed
  obtain ⟨db'', m, marked, -⟩ :=
    mark_succeeds rows claimed (by decide : (1 : ℤ) ≤ 2) (.skipped (longReason n)) 101#128
  refine longSkip_unsafe ⟨db', row, longReason n, m, ⟨rfl, statement, updated⟩, rfl, ?_, ?_⟩
  · rw [len_longReason]
    exact long
  · simp only [sampleSurroundings, Reply.answer, id, sampleContext, marked]

/-- A skip reason of 8184 letters reaches the queue as a text of 8193 bytes. -/
theorem long_skip_overflows : ¬ SafeVerdict (handleEnvelopeAmid id
    (skippingRuntime (longReason 8184)) sampleEnv (sampleContext 1 101#128) sampleSurroundings
    sampleDatabase).2 := by
  refine skip_overflows ?_
  decide

end RustEvents.Worker.SafeReasons
