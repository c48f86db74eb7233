/- module: RustEvents/Worker/Verdicts
   layer: model facts
   source: src/runtime.rs (handle_envelope steps 3b to 7), tests/decode_abort_not_swallowed.rs
   digest: How each kind of handler outcome becomes a row status and a verdict, and what the two copies of its reason say. -/

import RustEvents.Worker.Reasons
import RustEvents.Worker.Superseded

set_option autoImplicit false
set_option relaxedAutoImplicit false

namespace RustEvents.Worker.Verdicts

open RustEvents.Model.Text
open RustEvents.Model.Errors
open RustEvents.Model.Schema
open RustEvents.Model.Builder
open RustEvents.Model.Runtime
open RustEvents.Worker.Statements
open RustEvents.Worker.Reasons
open RustEvents.Worker.Superseded (sampleEnv sampleDatabase sampleRuntime sampleContext)

/-- The handler's context, as step ④ builds it. -/
def contextOf (env : HandlerEnvelope) (ctx : JobContext) (row : ClaimRow) : HandlerContext where
  eventId := env.eventId
  tenantId := row.tenantId
  producerBc := row.producerBc
  attempt := ctx.attempt
  maxAttempts := ctx.maxAttempts
  deliveryKey := ctx.idempotencyKey
  dispatchIdempotencyKey := row.dispatchIdempotencyKey
  headers := parseHeaders row.headers

/-- How the handler of a claimed delivery ends; `none` if it is not registered. -/
def ending (rt : OutboxRuntime) (env : HandlerEnvelope) (ctx : JobContext) (world : World)
    (row : ClaimRow) : Option (HandlerRun HandlerOutcome) :=
  (rt.registry.lookup env.handlerId).map fun registered =>
    registered.handler.handleErased world row.payload (contextOf env ctx row)

/-- The mark and the verdict that follow from it. -/
def decided (rt : OutboxRuntime) (ctx : JobContext) :
    Option (HandlerRun HandlerOutcome) → Mark × Verdict
  | none => (.dead "handler not registered", some (.abort "handler not registered"))
  | some run => afterHandler rt ctx run

/-- One call of `handle_envelope`; `others` is what other sessions do to the tables between
its claim and its mark. -/
def handleEnvelopeAmid (others : Database → Database) (rt : OutboxRuntime) (env : HandlerEnvelope)
    (ctx : JobContext) (out : Surroundings) (db : Database) : Database × Verdict :=
  let statement := claimStatement env ctx out.claimNow
  let claimed := out.claimReply.after db statement
  match afterClaim rt env ctx (out.claimReply.answer db statement) with
  | .returned verdict => (claimed, verdict)
  | .marking mark verdict => finishMark env ctx out (mark, verdict) (others claimed)
  | .invoking handler payload hctx =>
    finishMark env ctx out (afterHandler rt ctx (handler.handleErased out.world payload hctx))
      (others claimed)

/-- The kinds of outcome, without their texts. -/
inductive Variant where
  | ok | retry | skip | abort | decodeFailed | panicked | timedOut | notRegistered
  deriving DecidableEq

def variant : Option (HandlerRun HandlerOutcome) → Variant
  | none => .notRegistered
  | some (.returned .ok) => .ok
  | some (.returned (.handler (.retry _ _))) => .retry
  | some (.returned (.handler (.skip _))) => .skip
  | some (.returned (.handler (.abort _))) => .abort
  | some (.returned (.decodeFailed _)) => .decodeFailed
  | some (.panicked _) => .panicked
  | some .elapsed => .timedOut

/-- The kinds of verdict, without their texts. -/
inductive VerdictKind where
  | ok | retry | abort
  deriving DecidableEq

def verdictKind : Verdict → VerdictKind
  | none => .ok
  | some (.retry _ _) => .retry
  | some (.abort _) => .abort

def errorText : JobError → String
  | .retry reason _ => reason
  | .abort reason => reason

/-- The classes of outcome that steps ⑤ and ⑥ leave. -/
inductive OutcomeClass where
  | ok | retry | skip | abort

def classify (strategy : DecodeStrategy) (policy : PanicPolicy) : Variant → OutcomeClass
  | .ok => .ok
  | .retry => .retry
  | .skip => .skip
  | .abort => .abort
  | .decodeFailed => match strategy with
    | .retry => .retry
    | .abort => .abort
  | .panicked => match policy with
    | .retry => .retry
    | .dead => .abort
  | .timedOut => .retry
  | .notRegistered => .abort

/-- The routing table. It sees no text: only the class, and whether the attempts are used up. -/
def route (exhausted : Bool) : OutcomeClass → DeliveryStatus × VerdictKind
  | .ok => (.sent, .ok)
  | .retry => (if exhausted then .dead else .awaitingRetry, .retry)
  | .skip => (.skipped, .abort)
  | .abort => (.dead, .abort)

/-- The claim is answered and has stamped the row. -/
structure Claims (env : HandlerEnvelope) (ctx : JobContext) (out : Surroundings)
    (db db' : Database) (row : ClaimRow) : Prop where
  answered : out.claimReply = .answered
  statement : claimStatement env ctx out.claimNow db = .ok (db', some row)
  updated : row.didUpdate = true

/-- The mark is answered and not fenced out. -/
structure Marks (env : HandlerEnvelope) (ctx : JobContext) (out : Surroundings) (db : Database)
    (mark : Mark) : Prop where
  answered : out.markReply = .answered
  statement : ∃ db' n, mark.statement env ctx.leaseToken out.markNow db = .ok (db', n)
  held : (db.delivery? env).any (holds ctx.leaseToken) = true

/-- What an outcome makes of the row and of the verdict. -/
structure Routed (rt : OutboxRuntime) (ctx : JobContext)
    (ran : Option (HandlerRun HandlerOutcome)) (r : HandlerDelivery) (verdict : Verdict) :
    Prop where
  pair : (r.status, verdictKind verdict) = route (decide (ctx.attempt ≥ ctx.maxAttempts))
    (classify rt.config.decodeErrorStrategy rt.config.panicPolicy (variant ran))
  delay : ∀ reason retryIn, ran = some (.returned (.handler (.retry reason retryIn))) →
    ∃ text, verdict = some (.retry text retryIn)
  text : ∀ e, verdict = some e → ∃ lastError, r.lastError = some lastError ∧
    errorText e = if variant ran = .skip then "skipped: " ++ lastError else lastError

private theorem claims_prev {env : HandlerEnvelope} {ctx : JobContext} {out : Surroundings}
    {db db' : Database} {row : ClaimRow} (claims : Claims env ctx out db db' row) :
    ∃ r, db.delivery? env = some r ∧ r.status.isTerminal = false ∧
      row.prevStatus = some r.status := by
  have quiet : ∀ {prev : Option DeliveryStatus},
      some row = claimSelect db env.eventId prev false → False := by
    intro prev selected
    obtain ⟨e, -, eqn⟩ := Option.map_eq_some_iff.mp selected.symm
    have updated := claims.updated
    rw [← eqn] at updated
    cases updated
  rcases claim_cases claims.statement with ⟨-, -, selected⟩ | ⟨r, -, -, -, selected⟩ |
    ⟨r, found, live, -, selected⟩
  · exact (quiet selected).elim
  · exact (quiet selected).elim
  · obtain ⟨e, -, eqn⟩ := Option.map_eq_some_iff.mp selected.symm
    exact ⟨r, found, live, by rw [← eqn]⟩

theorem handle_claimed {others : Database → Database} {rt : OutboxRuntime} {env : HandlerEnvelope}
    {ctx : JobContext} {out : Surroundings} {db db' : Database} {row : ClaimRow}
    (claims : Claims env ctx out db db' row) :
    handleEnvelopeAmid others rt env ctx out db =
      finishMark env ctx out (decided rt ctx (ending rt env ctx out.world row)) (others db') := by
  obtain ⟨r, -, -, prev⟩ := claims_prev claims
  simp only [handleEnvelopeAmid, claims.answered, Reply.after, Reply.effect, Reply.answer,
    claims.statement, Option.map_some, Option.getD_some, afterClaim, prev, claims.updated]
  cases registered : rt.registry.lookup env.handlerId with
  | none => simp only [ending, registered, Option.map_none, decided]
  | some handler => simp only [ending, registered, Option.map_some, decided, contextOf]

/-- What a mark writes to `last_error`. -/
def markText : Mark → Option String
  | .sent => none
  | .awaitingRetry reason => some (trimmedReason reason)
  | .dead reason => some (trimmedReason reason)
  | .skipped reason => some (trimmedReason reason)

theorem set_lastError (now : Timestamp) (mark : Mark) (r : HandlerDelivery) :
    ((Mark.set now mark).apply r).lastError = markText mark := by
  cases mark <;> rfl

/-- The class of a result, once decode failures, panics and timeouts are translated. -/
def resultClass : Option HandlerError → OutcomeClass
  | none => .ok
  | some (.retry _ _) => .retry
  | some (.skip _) => .skip
  | some (.abort _) => .abort

theorem resultClass_translated (strategy : DecodeStrategy) (policy : PanicPolicy)
    (run : HandlerRun HandlerOutcome) :
    resultClass (translated strategy (caughtOutcome policy run)) =
      classify strategy policy (variant (some run)) := by
  cases run with
  | returned outcome =>
    cases outcome with
    | ok => rfl
    | handler e => cases e <;> rfl
    | decodeFailed text => cases strategy <;> rfl
  | panicked payload => cases policy <;> rfl
  | elapsed => rfl

theorem transition_pair (ctx : JobContext) (result : Option HandlerError) :
    ((terminalTransition ctx result).1.status, verdictKind (terminalTransition ctx result).2) =
      route (decide (ctx.attempt ≥ ctx.maxAttempts)) (resultClass result) := by
  cases result with
  | none => rfl
  | some e =>
    cases e with
    | retry reason retryIn =>
      simp only [terminalTransition, resultClass, route, decide_eq_true_eq]
      split <;> rfl
    | skip reason => rfl
    | abort reason => rfl

private theorem transition_text {ctx : JobContext} {result : Option HandlerError} {e : JobError}
    (fails : (terminalTransition ctx result).2 = some e) :
    ∃ text, markText (terminalTransition ctx result).1 = some text ∧
      (resultClass result = .skip ∧ errorText e = "skipped: " ++ text ∨
        resultClass result ≠ .skip ∧ errorText e = text) := by
  cases result with
  | none => cases fails
  | some err =>
    cases err with
    | retry reason retryIn =>
      cases Option.some.inj fails
      refine ⟨trimmedReason reason, ?_, .inr ⟨by simp [resultClass], rfl⟩⟩
      simp only [terminalTransition]
      split <;> rfl
    | skip reason =>
      cases Option.some.inj fails
      exact ⟨trimmedReason reason, rfl, .inl ⟨rfl, rfl⟩⟩
    | abort reason =>
      cases Option.some.inj fails
      exact ⟨trimmedReason reason, rfl, .inr ⟨by simp [resultClass], rfl⟩⟩

private theorem classify_skip {strategy : DecodeStrategy} {policy : PanicPolicy} {kind : Variant} :
    classify strategy policy kind = .skip ↔ kind = .skip := by
  cases kind <;> cases strategy <;> cases policy <;> simp [classify]

private theorem decided_routed (rt : OutboxRuntime) (ctx : JobContext)
    (ran : Option (HandlerRun HandlerOutcome)) (now : Timestamp) (r : HandlerDelivery) :
    Routed rt ctx ran ((Mark.set now (decided rt ctx ran).1).apply r) (decided rt ctx ran).2 := by
  cases ran with
  | none =>
    refine ⟨rfl, fun _ _ eqn => (by cases eqn), ?_⟩
    intro e eqn
    cases Option.some.inj eqn
    have trimmed : trimmedReason "handler not registered" = "handler not registered" := by decide
    exact ⟨"handler not registered", congrArg some trimmed, rfl⟩
  | some run =>
    refine ⟨?_, ?_, ?_⟩
    · rw [set_status, ← resultClass_translated]
      exact transition_pair ctx _
    · intro reason retryIn eqn
      cases eqn
      exact ⟨trimmedReason reason, rfl⟩
    · intro e fails
      obtain ⟨text, marked, skipped⟩ := transition_text fails
      refine ⟨text, (set_lastError now _ r).trans marked, ?_⟩
      simp only [resultClass_translated, classify_skip, ne_eq] at skipped
      rcases skipped with ⟨skip, same⟩ | ⟨other, same⟩
      · rw [if_pos skip, same]
      · rw [if_neg other, same]

theorem finishMark_marks {env : HandlerEnvelope} {ctx : JobContext} {out : Surroundings}
    {db : Database} {mark : Mark} (marks : Marks env ctx out db mark) (verdict : Verdict) :
    ∃ r, db.delivery? env = some r ∧
      (finishMark env ctx out (mark, verdict) db).1.delivery? env =
        some ((Mark.set out.markNow mark).apply r) ∧
      (finishMark env ctx out (mark, verdict) db).2 = verdict := by
  obtain ⟨db', n, done⟩ := marks.statement
  obtain ⟨r, found, held⟩ := (Option.any_eq_true _ _).mp marks.held
  have after : finishMark env ctx out (mark, verdict) db = (db', verdict) := by
    simp only [finishMark, marks.answered, Reply.after, Reply.effect, Reply.answer, done,
      Option.map_some, Option.getD_some, afterMark]
  rw [after]
  refine ⟨r, found, ?_, rfl⟩
  rw [mark_delivery done, if_pos rfl, found, Option.map_some, markRow, if_pos held]

/-- A call whose claim stamps the row and whose mark is not fenced out leaves the row and
returns the verdict that the routing table gives for the kind of its outcome. -/
theorem verdict_routing {others : Database → Database} {rt : OutboxRuntime} {env : HandlerEnvelope}
    {ctx : JobContext} {out : Surroundings} {db db' : Database} {row : ClaimRow}
    (claims : Claims env ctx out db db' row)
    (marks : Marks env ctx out (others db')
      (decided rt ctx (ending rt env ctx out.world row)).1) :
    ∃ r, (handleEnvelopeAmid others rt env ctx out db).1.delivery? env = some r ∧
      Routed rt ctx (ending rt env ctx out.world row) r
        (handleEnvelopeAmid others rt env ctx out db).2 := by
  obtain ⟨r, -, row, verdict⟩ := finishMark_marks marks
    (decided rt ctx (ending rt env ctx out.world row)).2
  rw [handle_claimed claims]
  refine ⟨_, row, ?_⟩
  rw [verdict]
  exact decided_routed rt ctx _ _ r

/-- The answers that one sample call gets. -/
def sampleSurroundings : Surroundings := ⟨1, .answered, 0, 2, .answered⟩

/-- A runtime whose only handler asks for a retry in 30 seconds. -/
def retryingRuntime : OutboxRuntime where
  config := OutboxConfig.default
  registry := Registry.new.add
    ⟨"order.created", "mailer",
      ⟨fun _ _ _ => .returned (.handler (.retry "upstream_5xx" (some (millis 30000))))⟩, none, none⟩

private theorem ending_retrying (row : ClaimRow) :
    ending retryingRuntime sampleEnv (sampleContext 5 101#128) 0 row =
      some (.returned (.handler (.retry "upstream_5xx" (some (millis 30000))))) := rfl

private theorem ok_of_toOption {ε α : Type} {x : Except ε α} {a : α} (eqn : x.toOption = some a) :
    x = .ok a := by
  cases x with
  | error e => cases eqn
  | ok b => exact congrArg Except.ok (Option.some.inj eqn)

/-- The last attempt of a delivery whose handler retries. -/
def exhaustedCall : Database × Verdict :=
  handleEnvelopeAmid id retryingRuntime sampleEnv (sampleContext 5 101#128) sampleSurroundings
    sampleDatabase

theorem verdict_routing_exhausted : ∃ r, exhaustedCall.1.delivery? sampleEnv = some r ∧
    (r.status, verdictKind exhaustedCall.2) = (.dead, .retry) ∧
    ∃ text, exhaustedCall.2 = some (.retry text (some (millis 30000))) := by
  have runs : (claimStatement sampleEnv (sampleContext 5 101#128) 1 sampleDatabase).toOption.any
      (fun done => done.2.any fun row => row.didUpdate &&
        (done.1.delivery? sampleEnv).any (holds 101#128) &&
        ((decided retryingRuntime (sampleContext 5 101#128)
          (ending retryingRuntime sampleEnv (sampleContext 5 101#128) 0 row)).1.statement sampleEnv
            101#128 2 done.1).toOption.isSome) = true := by decide
  obtain ⟨⟨db', selected⟩, claimed, facts⟩ := (Option.any_eq_true _ _).mp runs
  obtain ⟨row, rfl, facts⟩ := (Option.any_eq_true _ _).mp facts
  simp only [Bool.and_eq_true] at facts
  obtain ⟨⟨updated, held⟩, marked⟩ := facts
  obtain ⟨⟨db'', n⟩, done⟩ := Option.isSome_iff_exists.mp marked
  have claims : Claims sampleEnv (sampleContext 5 101#128) sampleSurroundings sampleDatabase db'
      row := ⟨rfl, ok_of_toOption claimed, updated⟩
  have marks : Marks sampleEnv (sampleContext 5 101#128) sampleSurroundings (id db')
      (decided retryingRuntime (sampleContext 5 101#128)
        (ending retryingRuntime sampleEnv (sampleContext 5 101#128) 0 row)).1 :=
    ⟨rfl, ⟨db'', n, ok_of_toOption done⟩, held⟩
  obtain ⟨r, stored, routed⟩ := verdict_routing claims marks
  exact ⟨r, stored, routed.pair, routed.delay "upstream_5xx" _ (ending_retrying row)⟩

end RustEvents.Worker.Verdicts
