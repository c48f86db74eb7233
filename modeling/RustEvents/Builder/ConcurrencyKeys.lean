/- module: RustEvents/Builder/ConcurrencyKeys
   layer: model facts
   source: src/outbox.rs (Outbox::dispatch step 9, Outbox::start), src/builder.rs, tests/per_handler_concurrency.rs
   digest: The keys that dispatch stamps on jobs are the keys that start hands to the worker, each with its limit. -/

import RustEvents.Builder.Registrations
import RustEvents.Dispatch.Effects
import RustEvents.Model.Start

set_option autoImplicit false
set_option relaxedAutoImplicit false

namespace RustEvents.Builder.ConcurrencyKeys

open RustEvents.Model.Errors
open RustEvents.Model.Schema
open RustEvents.Model.Builder
open RustEvents.Model.Dispatch
open RustEvents.Model.Start
open RustEvents.Dispatch.Effects
open RustEvents.Builder.Registrations

/-- The handlers that a result has pushed a job for. -/
def fanOut (c : Call) : Except DispatchError DispatchOutcome → List String
  | .ok (.dispatched _ _) => c.outbox.registry.handlerIdsFor c.event.eventType
  | _ => []

/-- `p` has a limit, and the worker knows it under exactly one entry. -/
def LimitedTo (limits : List (String × UInt32)) (p : PendingHandler) : Prop :=
  ∃ n, p.concurrencyLimit = some n ∧ 1 ≤ n.toNat ∧ n.toNat ≤ 2147483647 ∧
    limits.filter (fun pair => pair.1 = p.handlerId) = [(p.handlerId, n)]

/-- The jobs of a built outbox and the limits of its worker belong together. -/
structure KeysMatch (b : OutboxBuilder) (o : Outbox) (limits : List (String × UInt32)) : Prop where
  pushed : ∀ c db, c.outbox = o →
    (dispatch c db).1.jobs = db.jobs ++ (fanOut c (dispatch c db).2).map (jobFor c)
  keyed : ∀ c, c.outbox = o → ∀ h ∈ o.registry.handlerIdsFor c.event.eventType,
    ∃ p ∈ b.pending, p.handlerId = h ∧ p.eventType = c.event.eventType ∧
      (∀ k, (jobFor c h).concurrencyKey = some k ↔ k = h ∧ LimitedTo limits p) ∧
      ((jobFor c h).concurrencyKey = none ↔ ∀ pair ∈ limits, pair.1 ≠ h)
  owned : ∀ pair ∈ limits, ∃ t, pair.1 ∈ o.registry.handlerIdsFor t ∧
    (∀ t', pair.1 ∈ o.registry.handlerIdsFor t' → t' = t) ∧
    ∀ c db, c.outbox = o → ∀ h ∈ fanOut c (dispatch c db).2,
      (jobFor c h).concurrencyKey = some pair.1 → c.event.eventType = t

private theorem dispatch_jobs (c : Call) (db : Database) :
    (dispatch c db).1.jobs = db.jobs ++ (fanOut c (dispatch c db).2).map (jobFor c) := by
  have cases := dispatch_cases c db
  generalize dispatch c db = result at cases
  cases cases with
  | unreserved result reserving =>
    cases reserving <;> simp [fanOut]
  | uninserted e payload handlerIds db1 passed reserves =>
    simp [fanOut, reserves.jobs]
  | noHandlers payload db1 db2 passed reserves inserts =>
    simp [fanOut, inserts.jobs, reserves.jobs]
  | unpushed e payload handlerIds db1 db2 passed reserves inserts fault =>
    simp [fanOut, inserts.jobs, reserves.jobs]
  | dispatched payload handlerIds db1 db2 passed some reserves inserts =>
    have ids := (prepare_ok passed).handlerIds
    simp [fanOut, Database.pushJobs, inserts.jobs, reserves.jobs, ids]

private theorem limits_filter {visited : List (Sigma fun _ : String => RegisteredHandler)}
    (nodup : visited.NodupKeys) (k : String) :
    (concurrencyLimits visited).filter (fun pair => pair.1 = k) =
      (((visited.dlookup k).bind RegisteredHandler.concurrencyLimit).map (k, ·)).toList := by
  induction visited with
  | nil => rfl
  | cons entry visited ih =>
    obtain ⟨id, h⟩ := entry
    obtain ⟨unused, nodup⟩ := List.nodupKeys_cons.mp nodup
    have rest := ih nodup
    simp only [concurrencyLimits, List.filterMap_cons] at rest ⊢
    by_cases same : id = k
    · subst same
      rw [List.dlookup_cons_eq]
      rw [List.dlookup_eq_none.mpr unused] at rest
      cases limit : h.concurrencyLimit with
      | none => simpa [limit] using rest
      | some n => simpa [limit] using rest
    · rw [List.dlookup_cons_ne visited ⟨id, h⟩ (Ne.symm same)]
      cases h.concurrencyLimit with
      | none => exact rest
      | some n => simpa [same] using rest

section Built

variable {b : OutboxBuilder} {o : Outbox}
  {visited : List (Sigma fun _ : String => RegisteredHandler)}

private theorem limits_of_lookup (order : visited.Perm o.registry.handlers.entries) (k : String) :
    (concurrencyLimits visited).filter (fun pair => pair.1 = k) =
      (((o.registry.lookup k).bind RegisteredHandler.concurrencyLimit).map (k, ·)).toList := by
  have nodup : visited.NodupKeys := (List.perm_nodupKeys order).mpr o.registry.handlers.nodupKeys
  rw [limits_filter nodup, List.perm_dlookup k nodup order]
  rfl

private theorem limits_of_registration (built : b.build = .ok o)
    (order : visited.Perm o.registry.handlers.entries) {p : PendingHandler} (mem : p ∈ b.pending) :
    (concurrencyLimits visited).filter (fun pair => pair.1 = p.handlerId) =
      (p.concurrencyLimit.map (p.handlerId, ·)).toList := by
  obtain ⟨valid, looks⟩ := build_ok built
  rw [limits_of_lookup order, looks_given looks valid.distinct mem]
  rfl

private theorem key_of_registration (built : b.build = .ok o) {p : PendingHandler}
    (mem : p ∈ b.pending) {c : Call} (own : c.outbox = o) :
    (jobFor c p.handlerId).concurrencyKey = p.concurrencyLimit.map fun _ => p.handlerId := by
  obtain ⟨valid, looks⟩ := build_ok built
  simp only [jobFor, own, looks_given looks valid.distinct mem]
  rfl

private theorem limitedTo_iff (built : b.build = .ok o)
    (order : visited.Perm o.registry.handlers.entries) {p : PendingHandler} (mem : p ∈ b.pending) :
    LimitedTo (concurrencyLimits visited) p ↔ p.concurrencyLimit.isSome = true := by
  have entries := limits_of_registration built order mem
  constructor
  · rintro ⟨n, limit, -⟩
    rw [limit]
    rfl
  · intro limited
    obtain ⟨n, limit⟩ := Option.isSome_iff_exists.mp limited
    obtain ⟨low, high⟩ := (build_ok built).1.limits p mem n limit
    rw [limit] at entries
    exact ⟨n, limit, low, high, entries⟩

private theorem unlimited_iff (built : b.build = .ok o)
    (order : visited.Perm o.registry.handlers.entries) {p : PendingHandler} (mem : p ∈ b.pending) :
    (∀ pair ∈ concurrencyLimits visited, pair.1 ≠ p.handlerId) ↔ p.concurrencyLimit = none := by
  have entries := limits_of_registration built order mem
  have empty : (concurrencyLimits visited).filter (fun pair => pair.1 = p.handlerId) = [] ↔
      ∀ pair ∈ concurrencyLimits visited, pair.1 ≠ p.handlerId := by
    simp [List.filter_eq_nil_iff]
  rw [← empty, entries]
  cases p.concurrencyLimit <;> simp

private theorem limits_registered (built : b.build = .ok o)
    (order : visited.Perm o.registry.handlers.entries) {pair : String × UInt32}
    (mem : pair ∈ concurrencyLimits visited) : ∃ p ∈ b.pending, p.handlerId = pair.1 := by
  have listed : pair ∈ (concurrencyLimits visited).filter (fun q => q.1 = pair.1) :=
    List.mem_filter.mpr ⟨mem, decide_eq_true rfl⟩
  rw [limits_of_lookup order] at listed
  have known : (o.registry.lookup pair.1).isSome = true := by
    cases found : o.registry.lookup pair.1 with
    | none =>
      rw [found] at listed
      cases listed
    | some r => rfl
  exact List.mem_map.mp ((looks_used (build_ok built).2 pair.1).mp known)

private theorem type_unique (built : b.build = .ok o) {p : PendingHandler} (mem : p ∈ b.pending)
    {t : String} (listed : p.handlerId ∈ o.registry.handlerIdsFor t) : p.eventType = t := by
  have index := build_indexes built
  rw [index.types] at listed
  obtain ⟨q, stored, type, same⟩ := mem_idsFor.mp listed
  cases List.inj_on_of_nodup_map index.nodup stored mem same
  exact type

private theorem fanOut_subset (c : Call) (result : Except DispatchError DispatchOutcome) :
    fanOut c result ⊆ c.outbox.registry.handlerIdsFor c.event.eventType := by
  intro h mem
  simp only [fanOut] at mem
  split at mem
  · exact mem
  · cases mem

/-- In whatever order `start` visits the handlers, a job carries a key exactly when its
handler has a limit, and the worker knows that limit under that key. -/
theorem keys_match_limits (built : b.build = .ok o)
    (order : visited.Perm o.registry.handlers.entries) :
    KeysMatch b o (concurrencyLimits visited) := by
  have index := build_indexes built
  refine ⟨fun c db _ => dispatch_jobs c db, ?_, ?_⟩
  · intro c own h listed
    rw [index.types] at listed
    obtain ⟨p, mem, type, rfl⟩ := mem_idsFor.mp listed
    refine ⟨p, mem, rfl, type, ?_, ?_⟩
    · intro k
      rw [key_of_registration built mem own, limitedTo_iff built order mem]
      cases p.concurrencyLimit <;> simp [eq_comm]
    · rw [key_of_registration built mem own, unlimited_iff built order mem]
      simp
  · intro pair mem
    obtain ⟨p, stored, same⟩ := limits_registered built order mem
    rw [← same]
    refine ⟨p.eventType, ?_, ?_, ?_⟩
    · rw [index.types]
      exact mem_idsFor.mpr ⟨p, stored, rfl, rfl⟩
    · exact fun t listed => (type_unique built stored listed).symm
    · intro c db own h pushed key
      have listed := fanOut_subset c _ pushed
      -- A job is keyed by its own handler, so the key names a handler of this event type.
      have handler : h = p.handlerId := by
        obtain ⟨r, -, eqn⟩ := Option.map_eq_some_iff.mp key
        exact eqn
      rw [own, handler] at listed
      exact (type_unique built stored listed).symm

end Built

theorem keys_match_limits_indexer : ∃ o, limitedBuilder.build = .ok o ∧
    concurrencyLimits o.registry.handlers.entries = [("indexer", 4)] ∧
    KeysMatch limitedBuilder o [("indexer", 4)] := by
  obtain ⟨o, built, limits⟩ : ∃ o, limitedBuilder.build = .ok o ∧
      concurrencyLimits o.registry.handlers.entries = [("indexer", 4)] := ⟨_, rfl, rfl⟩
  refine ⟨o, built, limits, ?_⟩
  have matching := keys_match_limits built (List.Perm.refl o.registry.handlers.entries)
  rw [limits] at matching
  exact matching

end RustEvents.Builder.ConcurrencyKeys
