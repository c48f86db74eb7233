/- module: RustEvents/Model/Builder
   layer: model
   source: src/handler.rs, src/registry.rs, src/builder.rs, src/util.rs (panic_payload_message)
   digest: Handlers behind type erasure, the registry, and the builder that validates registrations. -/

import RustEvents.Model.Schema
import Mathlib.Data.List.AList

set_option autoImplicit false
set_option relaxedAutoImplicit false

namespace RustEvents.Model.Builder

open RustEvents.Model.Text
open RustEvents.Model.Errors
open RustEvents.Model.Schema

structure HandlerContext where
  eventId : Uuid
  tenantId : String
  producerBc : String
  attempt : UInt32
  maxAttempts : UInt32
  deliveryKey : Uuid
  dispatchIdempotencyKey : Option String
  headers : JsonMap

/-- A panic payload: `&'static str`, `String`, or anything else. -/
inductive PanicPayload where
  | staticStr (s : String)
  | string (s : String)
  | other
  deriving DecidableEq

def panicPayloadMessage : PanicPayload → String
  | .staticStr s => s
  | .string s => s
  | .other => "panic with non-string payload"

/-- How one awaited handler call ends under `catch_unwind` and `timeout`. -/
inductive HandlerRun (α : Type) where
  | returned (a : α)
  | panicked (payload : PanicPayload)
  | elapsed
  deriving DecidableEq

def HandlerRun.map {α β : Type} (f : α → β) : HandlerRun α → HandlerRun β
  | .returned a => .returned (f a)
  | .panicked p => .panicked p
  | .elapsed => .elapsed

inductive HandlerOutcome where
  | ok
  | handler (e : HandlerError)
  | decodeFailed (text : String)
  deriving DecidableEq

/-- What the surroundings of a handler answer this time. Handlers do I/O, so
one handler may end differently on the same payload and context. -/
abbrev World := ℕ

/-- `dyn ErasedHandler`. -/
structure ErasedHandler where
  handleErased : World → Bytes → HandlerContext → HandlerRun HandlerOutcome

/-- `TypedHandler<E, H>`: `serde_json::from_slice` for `E` and the user's `handle`. -/
structure TypedHandler (E : Type) where
  eventType : String
  fromSlice : Bytes → Except SerdeError E
  handle : World → E → HandlerContext → HandlerRun (Except HandlerError Unit)

def TypedHandler.erase {E : Type} (h : TypedHandler E) : ErasedHandler where
  handleErased world payload ctx :=
    match h.fromSlice payload with
    | .error e => .returned (.decodeFailed ("decode " ++ h.eventType ++ ": " ++ e.display))
    | .ok event =>
      (h.handle world event ctx).map fun
        | .ok () => .ok
        | .error err => .handler err

structure RegisteredHandler where
  handler : ErasedHandler
  handlerTimeout : Option Duration
  concurrencyLimit : Option UInt32

/-- Both maps of the registry; a `HashMap` holds each key once. -/
structure Registry where
  handlers : AList fun _ : String => RegisteredHandler
  byType : AList fun _ : String => List String

def Registry.new : Registry := ⟨∅, ∅⟩

def Registry.lookup (reg : Registry) (handlerId : String) : Option RegisteredHandler :=
  reg.handlers.lookup handlerId

def Registry.handlerIdsFor (reg : Registry) (eventType : String) : List String :=
  (reg.byType.lookup eventType).getD []

inductive PanicPolicy where
  | retry | dead
  deriving DecidableEq

inductive DecodeStrategy where
  | retry | abort
  deriving DecidableEq

/-- `OutboxConfig` without `retry_backoff`, which only `pg_work_queue` reads. -/
structure OutboxConfig where
  pollInterval : Duration
  concurrency : UInt32
  maxAttempts : UInt32
  leaseTimeout : Duration
  handlerTimeout : Duration
  panicPolicy : PanicPolicy
  decodeErrorStrategy : DecodeStrategy
  deriving DecidableEq

def millis (n : ℕ) : Duration := n * 1000000

def OutboxConfig.default : OutboxConfig where
  pollInterval := millis 500
  concurrency := 16
  maxAttempts := 5
  leaseTimeout := millis 300000
  handlerTimeout := millis 240000
  panicPolicy := .retry
  decodeErrorStrategy := .retry

def handlerCleanupBudget : Duration := millis 200

/-- Decimal digits of a fraction, padded on the left and without trailing zeros. -/
def fraction (value width : ℕ) : String :=
  let digits := (Nat.repr value).toList
  let padded := List.replicate (width - digits.length) '0' ++ digits
  String.ofList (padded.reverse.dropWhile (· = '0')).reverse

/-- `impl Debug for Duration`. -/
def debugDuration (d : Duration) : String :=
  let show1 (unit width : ℕ) (suffix : String) : String :=
    let rest := d % unit
    Nat.repr (d / unit) ++ (if rest = 0 then "" else "." ++ fraction rest width) ++ suffix
  if 1000000000 ≤ d then show1 1000000000 9 "s"
  else if 1000000 ≤ d then show1 1000000 6 "ms"
  else if 1000 ≤ d then show1 1000 3 "µs"
  else Nat.repr d ++ "ns"

def handlerTimeoutFloorCheck (d : Duration) (label : String) : Except BuildError Unit :=
  let min := handlerCleanupBudget * 2
  if d ≤ min then
    .error (.configInvalid (label ++ ": handler_timeout " ++ debugDuration d ++ " must be > " ++
      debugDuration min ++ " (2× HANDLER_CLEANUP_BUDGET) so mark_*_fenced has headroom before " ++
      "pgwq's outer cancellation"))
  else .ok ()

/-- `OutboxConfigBuilder::build`. -/
def OutboxConfig.build (cfg : OutboxConfig) : Except BuildError OutboxConfig :=
  if cfg.concurrency = 0 then .error (.configInvalid "concurrency must be >= 1")
  else if cfg.maxAttempts = 0 then .error (.configInvalid "max_attempts must be >= 1")
  else if cfg.leaseTimeout ≤ cfg.handlerTimeout then
    .error (.configInvalid "handler_timeout must be < lease_timeout")
  else
    match handlerTimeoutFloorCheck cfg.handlerTimeout "OutboxConfig" with
    | .error e => .error e
    | .ok () => .ok cfg

structure PendingHandler where
  eventType : String
  handlerId : String
  handler : ErasedHandler
  handlerTimeout : Option Duration
  concurrencyLimit : Option UInt32

/-- The override of one registration: above the floor and at most the global budget. -/
def checkTimeout (config : OutboxConfig) (entry : PendingHandler) : Except BuildError Unit :=
  match entry.handlerTimeout with
  | none => .ok ()
  | some ht =>
    match handlerTimeoutFloorCheck ht ("handler '" ++ entry.handlerId ++ "'") with
    | .error e => .error e
    | .ok () =>
      if config.handlerTimeout < ht then
        .error (.configInvalid ("handler '" ++ entry.handlerId ++
          "': a per-handler handler_timeout may only match or tighten the global budget, " ++
          "never exceed it — " ++ debugDuration ht ++
          " is larger than the global OutboxConfig handler_timeout " ++
          debugDuration config.handlerTimeout ++
          " (which is the default 240s when .config(...) was not called). The global value " ++
          "is the hard ceiling: pg_work_queue's worker-wide outer cancellation enforces it. " ++
          "Fix: lower this override, or raise the global handler_timeout."))
      else .ok ()

/-- A concurrency limit lies in `1..=i32::MAX`. -/
def checkLimit (entry : PendingHandler) : Except BuildError Unit :=
  match entry.concurrencyLimit with
  | none => .ok ()
  | some limit =>
    if limit = 0 ∨ 2147483647 < limit.toNat then
      .error (.configInvalid ("handler '" ++ entry.handlerId ++
        "': concurrency_limit must be in 1..=2147483647, got " ++ Nat.repr limit.toNat))
    else .ok ()

/-- Both map writes of the loop body. -/
def Registry.add (reg : Registry) (entry : PendingHandler) : Registry where
  handlers := reg.handlers.insert entry.handlerId
    ⟨entry.handler, entry.handlerTimeout, entry.concurrencyLimit⟩
  byType := reg.byType.insert entry.eventType
    (reg.handlerIdsFor entry.eventType ++ [entry.handlerId])

/-- The loop body of `OutboxBuilder::build`. -/
def registerEntry (config : OutboxConfig) (reg : Registry) (entry : PendingHandler) :
    Except BuildError Registry :=
  if len entry.handlerId = 0 then .error .handlerIdEmpty
  else if maxHandlerIdBytes < len entry.handlerId then
    .error (.handlerIdTooLong (len entry.handlerId) maxHandlerIdBytes)
  else if (reg.lookup entry.handlerId).isSome then
    .error (.duplicateHandlerId entry.eventType entry.handlerId)
  else
    match checkTimeout config entry with
    | .error e => .error e
    | .ok () =>
      match checkLimit entry with
      | .error e => .error e
      | .ok () => .ok (reg.add entry)

def registerAll (config : OutboxConfig) : Registry → List PendingHandler → Except BuildError Registry
  | reg, [] => .ok reg
  | reg, entry :: rest =>
    match registerEntry config reg entry with
    | .error e => .error e
    | .ok next => registerAll config next rest

structure OutboxBuilder where
  config : Option OutboxConfig
  pending : List PendingHandler
  allowNoHandlers : Bool

/-- `Outbox` without its pool and its start flag. -/
structure Outbox where
  config : OutboxConfig
  registry : Registry
  allowNoHandlers : Bool

structure HandlerOptions where
  handlerTimeout : Option Duration
  concurrencyLimit : Option UInt32

/-- `OutboxBuilder::register_handler`. -/
def OutboxBuilder.registerHandler {E : Type} (b : OutboxBuilder) (handlerId : String)
    (handler : TypedHandler E) (options : HandlerOptions) : OutboxBuilder :=
  { b with pending := b.pending ++
      [⟨handler.eventType, handlerId, handler.erase, options.handlerTimeout,
        options.concurrencyLimit⟩] }

def OutboxBuilder.build (b : OutboxBuilder) : Except BuildError Outbox :=
  let config := b.config.getD OutboxConfig.default
  match registerAll config Registry.new b.pending with
  | .error e => .error e
  | .ok registry => .ok ⟨config, registry, b.allowNoHandlers⟩

theorem default_build : OutboxConfig.default.build = .ok OutboxConfig.default := by decide

theorem registerEntry_ok {config : OutboxConfig} {reg next : Registry} {entry : PendingHandler}
    (accepted : registerEntry config reg entry = .ok next) :
    between1 128 entry.handlerId = true ∧ reg.lookup entry.handlerId = none ∧
      checkTimeout config entry = .ok () ∧ checkLimit entry = .ok () ∧ next = reg.add entry := by
  simp only [registerEntry, maxHandlerIdBytes] at accepted
  by_cases nonempty : len entry.handlerId = 0
  · simp [nonempty] at accepted
  by_cases short : 128 < len entry.handlerId
  · simp [nonempty, short] at accepted
  by_cases unused : (reg.lookup entry.handlerId).isSome = true
  · simp [nonempty, short, unused] at accepted
  simp only [nonempty, short, unused, if_false, Bool.false_eq_true] at accepted
  cases timeout : checkTimeout config entry with
  | error e => simp [timeout] at accepted
  | ok _ =>
  cases limit : checkLimit entry with
  | error e => simp [timeout, limit] at accepted
  | ok _ =>
  simp only [timeout, limit] at accepted
  refine ⟨?_, by simpa using unused, rfl, rfl, (Except.ok.inj accepted).symm⟩
  simp only [between1, Bool.and_eq_true, decide_eq_true_eq]
  omega

private theorem handlerIdsFor_add (reg : Registry) (entry : PendingHandler) (eventType : String) :
    (reg.add entry).handlerIdsFor eventType =
      reg.handlerIdsFor eventType ++
        if entry.eventType = eventType then [entry.handlerId] else [] := by
  by_cases same : entry.eventType = eventType
  · subst same
    simp [Registry.handlerIdsFor, Registry.add]
  · simp [Registry.handlerIdsFor, Registry.add, AList.lookup_insert_ne (Ne.symm same), same]

theorem lookup_add (reg : Registry) (entry : PendingHandler) (handlerId : String) :
    (reg.add entry).lookup handlerId =
      if entry.handlerId = handlerId then
        some ⟨entry.handler, entry.handlerTimeout, entry.concurrencyLimit⟩
      else reg.lookup handlerId := by
  by_cases same : entry.handlerId = handlerId
  · subst same
    simp [Registry.lookup, Registry.add]
  · simp [Registry.lookup, Registry.add, AList.lookup_insert_ne (Ne.symm same), same]

theorem registerAll_invariant {config : OutboxConfig} {I : Registry → List PendingHandler → Prop}
    (keeps : ∀ {reg next : Registry} {seen : List PendingHandler} {entry : PendingHandler},
      I reg seen → registerEntry config reg entry = .ok next → I next (seen ++ [entry]))
    (start : I Registry.new []) {final : Registry} {pending : List PendingHandler}
    (accepted : registerAll config Registry.new pending = .ok final) : I final pending := by
  have rest : ∀ reg seen, I reg seen → registerAll config reg pending = .ok final →
      I final (seen ++ pending) := by
    clear accepted
    induction pending with
    | nil =>
      intro reg seen here accepted
      cases Except.ok.inj accepted
      rw [List.append_nil]
      exact here
    | cons entry pending ih =>
      intro reg seen here accepted
      simp only [registerAll] at accepted
      split at accepted
      · cases accepted
      · next next first =>
        have whole := ih next (seen ++ [entry]) (keeps here first) accepted
        rwa [List.append_assoc, List.singleton_append] at whole
  exact rest Registry.new [] start accepted

/-- The ids registered for one event type, in registration order. -/
def idsFor (pending : List PendingHandler) (eventType : String) : List String :=
  (pending.filter fun p => p.eventType = eventType).map PendingHandler.handlerId

/-- The state of the builder loop: both maps index exactly the entries seen so far. -/
structure Indexes (reg : Registry) (seen : List PendingHandler) : Prop where
  types : ∀ t, reg.handlerIdsFor t = idsFor seen t
  known : ∀ p ∈ seen, (reg.lookup p.handlerId).isSome
  nodup : (seen.map PendingHandler.handlerId).Nodup
  bytes : ∀ p ∈ seen, between1 128 p.handlerId = true

private theorem indexes_new : Indexes Registry.new [] where
  types t := rfl
  known := by simp
  nodup := List.nodup_nil
  bytes := by simp

private theorem Indexes.add {config : OutboxConfig} {reg next : Registry}
    {seen : List PendingHandler} {entry : PendingHandler} (index : Indexes reg seen)
    (accepted : registerEntry config reg entry = .ok next) : Indexes next (seen ++ [entry]) := by
  obtain ⟨bytes, unused, -, -, rfl⟩ := registerEntry_ok accepted
  have fresh : entry.handlerId ∉ seen.map PendingHandler.handlerId := by
    intro used
    obtain ⟨p, hp, same⟩ := List.mem_map.mp used
    have some := index.known p hp
    rw [same, unused] at some
    cases some
  refine ⟨?_, ?_, ?_, ?_⟩
  · intro t
    rw [handlerIdsFor_add, index.types]
    by_cases same : entry.eventType = t <;> simp [idsFor, same]
  · intro p hp
    rw [lookup_add]
    rcases List.mem_append.mp hp with old | new
    · split
      · rfl
      · exact index.known p old
    · rw [List.mem_singleton.mp new, if_pos rfl]
      rfl
  · rw [List.map_append, List.nodup_append]
    refine ⟨index.nodup, List.nodup_singleton _, ?_⟩
    intro a ha b hb same
    have last : b = entry.handlerId := by simpa using hb
    exact fresh (last ▸ same ▸ ha)
  · intro p hp
    rcases List.mem_append.mp hp with old | new
    · exact index.bytes p old
    · exact List.mem_singleton.mp new ▸ bytes

/-- A successful build indexes every registration of the builder. -/
theorem build_indexes {b : OutboxBuilder} {o : Outbox} (built : b.build = .ok o) :
    Indexes o.registry b.pending := by
  simp only [OutboxBuilder.build] at built
  split at built
  · cases built
  · next registry accepted =>
    cases Except.ok.inj built
    exact registerAll_invariant Indexes.add indexes_new accepted

theorem idsFor_nodup {pending : List PendingHandler}
    (nodup : (pending.map PendingHandler.handlerId).Nodup) (t : String) :
    (idsFor pending t).Nodup :=
  nodup.sublist (List.filter_sublist.map PendingHandler.handlerId)

theorem mem_idsFor {pending : List PendingHandler} {t h : String} :
    h ∈ idsFor pending t ↔ ∃ p ∈ pending, p.eventType = t ∧ p.handlerId = h := by
  simp only [idsFor, List.mem_map, List.mem_filter, decide_eq_true_eq, and_assoc]

end RustEvents.Model.Builder
