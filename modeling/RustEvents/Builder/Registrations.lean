/- module: RustEvents/Builder/Registrations
   layer: model facts
   source: src/builder.rs (OutboxBuilder::build), src/registry.rs, src/runtime.rs (effective_timeout, our_timeout)
   digest: The builder accepts exactly the valid lists of registrations and indexes them faithfully. -/

import RustEvents.Worker.Timeouts

set_option autoImplicit false
set_option relaxedAutoImplicit false

namespace RustEvents.Builder.Registrations

open RustEvents.Model.Text
open RustEvents.Model.Errors
open RustEvents.Model.Schema
open RustEvents.Model.Builder
open RustEvents.Model.Runtime
open RustEvents.Worker.Timeouts

/-- What a list of registrations has to satisfy, whatever the order of the checks. -/
structure Valid (config : OutboxConfig) (pending : List PendingHandler) : Prop where
  bytes : ∀ p ∈ pending, 1 ≤ len p.handlerId ∧ len p.handlerId ≤ 128
  distinct : (pending.map PendingHandler.handlerId).Nodup
  timeouts : ∀ p ∈ pending, ∀ d, p.handlerTimeout = some d →
    millis 400 < d ∧ d ≤ config.handlerTimeout
  limits : ∀ p ∈ pending, ∀ n, p.concurrencyLimit = some n →
    1 ≤ n.toNat ∧ n.toNat ≤ 2147483647

def failure : Except BuildError Unit → List BuildError
  | .error e => [e]
  | .ok () => []

/-- Everything that is wrong with a registration behind `before`, in the order of the
source. -/
def offences (config : OutboxConfig) (before : List PendingHandler) (p : PendingHandler) :
    List BuildError :=
  (if len p.handlerId = 0 then [.handlerIdEmpty] else []) ++
  (if maxHandlerIdBytes < len p.handlerId then
    [.handlerIdTooLong (len p.handlerId) maxHandlerIdBytes] else []) ++
  (if p.handlerId ∈ before.map PendingHandler.handlerId then
    [.duplicateHandlerId p.eventType p.handlerId] else []) ++
  failure (checkTimeout config p) ++ failure (checkLimit p)

/-- What the registry remembers of a registration. -/
def registered (p : PendingHandler) : RegisteredHandler :=
  ⟨p.handler, p.handlerTimeout, p.concurrencyLimit⟩

/-- The budget that step ⑤ gives to a handler, which leaves room for the mark. -/
def reserved (config : OutboxConfig) (r : RegisteredHandler) : Duration :=
  effectiveTimeout config r - handlerCleanupBudget

/-- A built outbox knows its registrations: dispatch by event type, the worker by id. -/
structure Faithful (b : OutboxBuilder) (o : Outbox) : Prop where
  settings : o.config = b.config.getD .default ∧ o.allowNoHandlers = b.allowNoHandlers
  types : ∀ t, o.registry.handlerIdsFor t = idsFor b.pending t
  once : ∀ p ∈ b.pending, ∀ t,
    (o.registry.handlerIdsFor t).count p.handlerId = if p.eventType = t then 1 else 0
  given : ∀ p ∈ b.pending, o.registry.lookup p.handlerId = some (registered p)
  others : ∀ id, id ∉ b.pending.map PendingHandler.handlerId → o.registry.lookup id = none
  budgets : ∀ id r, o.registry.lookup id = some r →
    millis 200 < reserved o.config r ∧
      reserved o.config r ≤ o.config.handlerTimeout - millis 200 ∧
      ourTimeout (effectiveTimeout o.config r) = reserved o.config r

/-- The build succeeds on the valid registrations and on no others; otherwise it reports the
first offence of the first offending registration. -/
structure BuildsExactly (b : OutboxBuilder) : Prop where
  accepts : (∃ o, b.build = .ok o) ↔ Valid (b.config.getD .default) b.pending
  rejects : ∀ e, b.build = .error e → ∃ before p after, b.pending = before ++ p :: after ∧
    Valid (b.config.getD .default) before ∧
    (offences (b.config.getD .default) before p).head? = some e
  indexes : ∀ o, b.build = .ok o → Faithful b o

/-- A registration that may follow `before`. -/
structure Admissible (config : OutboxConfig) (before : List PendingHandler) (p : PendingHandler) :
    Prop where
  bytes : 1 ≤ len p.handlerId ∧ len p.handlerId ≤ 128
  fresh : p.handlerId ∉ before.map PendingHandler.handlerId
  timeout : ∀ d, p.handlerTimeout = some d → millis 400 < d ∧ d ≤ config.handlerTimeout
  limit : ∀ n, p.concurrencyLimit = some n → 1 ≤ n.toNat ∧ n.toNat ≤ 2147483647

variable {config : OutboxConfig}

private theorem valid_nil : Valid config [] where
  bytes := by simp
  distinct := List.nodup_nil
  timeouts := by simp
  limits := by simp

private theorem valid_snoc {seen : List PendingHandler} {p : PendingHandler}
    (valid : Valid config seen) (next : Admissible config seen p) : Valid config (seen ++ [p]) where
  bytes q mem := by
    rcases List.mem_append.mp mem with old | new
    · exact valid.bytes q old
    · exact List.mem_singleton.mp new ▸ next.bytes
  distinct := by
    rw [List.map_append, List.nodup_append]
    refine ⟨valid.distinct, List.nodup_singleton _, ?_⟩
    intro a used b new same
    have last : b = p.handlerId := by simpa using new
    exact next.fresh (last ▸ same ▸ used)
  timeouts q mem := by
    rcases List.mem_append.mp mem with old | new
    · exact valid.timeouts q old
    · exact List.mem_singleton.mp new ▸ next.timeout
  limits q mem := by
    rcases List.mem_append.mp mem with old | new
    · exact valid.limits q old
    · exact List.mem_singleton.mp new ▸ next.limit

private theorem admissible_of_valid {before after : List PendingHandler} {p : PendingHandler}
    (valid : Valid config (before ++ p :: after)) : Admissible config before p where
  bytes := valid.bytes p (by simp)
  fresh := by
    have distinct := valid.distinct
    rw [List.map_append, List.map_cons, List.nodup_append] at distinct
    intro used
    exact distinct.2.2 _ used _ List.mem_cons_self rfl
  timeout := valid.timeouts p (by simp)
  limit := valid.limits p (by simp)

private theorem failure_timeout {p : PendingHandler} : failure (checkTimeout config p) = [] ↔
    ∀ d, p.handlerTimeout = some d → millis 400 < d ∧ d ≤ config.handlerTimeout := by
  constructor
  · intro none d given
    have passed : checkTimeout config p = .ok () := by
      cases checked : checkTimeout config p with
      | error e => rw [checked] at none; cases none
      | ok => rfl
    exact checkTimeout_tightens passed d given
  · intro tight
    cases given : p.handlerTimeout with
    | none => simp [checkTimeout, given, failure]
    | some d =>
      obtain ⟨floor, ceiling⟩ := tight d given
      have high : ¬ d ≤ handlerCleanupBudget * 2 := Nat.not_le.mpr floor
      have low : ¬ config.handlerTimeout < d := Nat.not_lt.mpr ceiling
      simp [checkTimeout, given, handlerTimeoutFloorCheck, high, low, failure]

private theorem failure_limit {p : PendingHandler} : failure (checkLimit p) = [] ↔
    ∀ n, p.concurrencyLimit = some n → 1 ≤ n.toNat ∧ n.toNat ≤ 2147483647 := by
  cases given : p.concurrencyLimit with
  | none => simp [checkLimit, given, failure]
  | some n =>
    have zero : n = 0 ↔ n.toNat = 0 := ⟨fun eqn => by rw [eqn]; rfl, fun eqn => UInt32.toNat.inj eqn⟩
    have range : ¬ (n = 0 ∨ 2147483647 < n.toNat) ↔ 1 ≤ n.toNat ∧ n.toNat ≤ 2147483647 := by
      rw [zero]
      omega
    simp only [checkLimit, given, Option.some.injEq, forall_eq']
    rw [← range]
    by_cases out : n = 0 ∨ 2147483647 < n.toNat
    · rw [if_pos out]
      exact ⟨(nomatch ·), fun within => absurd out within⟩
    · rw [if_neg out]
      exact ⟨fun _ => out, fun _ => rfl⟩

private theorem offences_nil {before : List PendingHandler} {p : PendingHandler} :
    offences config before p = [] ↔ Admissible config before p := by
  have most : maxHandlerIdBytes = 128 := rfl
  simp only [offences, List.append_eq_nil_iff, failure_timeout, failure_limit, ite_eq_right_iff,
    List.cons_ne_nil, imp_false]
  constructor
  · rintro ⟨⟨⟨⟨filled, short⟩, fresh⟩, timeout⟩, limit⟩
    exact ⟨by omega, fresh, timeout, limit⟩
  · rintro ⟨bytes, fresh, timeout, limit⟩
    exact ⟨⟨⟨⟨by omega, by omega⟩, fresh⟩, timeout⟩, limit⟩

/-- Looking an id up finds the registration under that id. -/
def Looks (reg : Registry) (seen : List PendingHandler) : Prop :=
  ∀ id, reg.lookup id = (seen.find? fun p => p.handlerId = id).map registered

theorem looks_used {reg : Registry} {seen : List PendingHandler} (looks : Looks reg seen)
    (id : String) :
    (reg.lookup id).isSome = true ↔ id ∈ seen.map PendingHandler.handlerId := by
  rw [looks id, Option.isSome_map, List.find?_isSome, List.mem_map]
  simp only [decide_eq_true_eq]

private theorem looks_add {reg : Registry} {seen : List PendingHandler} {p : PendingHandler}
    (looks : Looks reg seen) (fresh : p.handlerId ∉ seen.map PendingHandler.handlerId) :
    Looks (reg.add p) (seen ++ [p]) := by
  intro id
  rw [lookup_add, List.find?_append]
  by_cases own : p.handlerId = id
  · subst own
    have missing : (seen.find? fun q => q.handlerId = p.handlerId) = none := by
      rw [List.find?_eq_none]
      intro q mem same
      exact fresh (List.mem_map.mpr ⟨q, mem, of_decide_eq_true same⟩)
    simp [missing, registered]
  · simp [own, looks id]

private theorem registerEntry_eq {reg : Registry} {seen : List PendingHandler}
    (looks : Looks reg seen) (p : PendingHandler) :
    registerEntry config reg p =
      match offences config seen p with
      | [] => .ok (reg.add p)
      | e :: _ => .error e := by
  have used := looks_used looks p.handlerId
  simp only [registerEntry, offences]
  by_cases empty : len p.handlerId = 0
  · simp [empty]
  by_cases long : maxHandlerIdBytes < len p.handlerId
  · simp [empty, long]
  by_cases taken : p.handlerId ∈ seen.map PendingHandler.handlerId
  · simp [empty, long, used.mpr taken, taken]
  have free : ¬ (reg.lookup p.handlerId).isSome = true := fun found => taken (used.mp found)
  rw [if_neg empty, if_neg long, if_neg free, if_neg empty, if_neg long, if_neg taken]
  cases checkTimeout config p with
  | error e => rfl
  | ok =>
    cases checkLimit p with
    | error e => rfl
    | ok => rfl

private theorem registerAll_cases {reg : Registry} {seen : List PendingHandler}
    (looks : Looks reg seen) (valid : Valid config seen) (pending : List PendingHandler) :
    (∃ final, registerAll config reg pending = .ok final ∧ Valid config (seen ++ pending) ∧
      Looks final (seen ++ pending)) ∨
    ∃ before p after e, pending = before ++ p :: after ∧ Valid config (seen ++ before) ∧
      (offences config (seen ++ before) p).head? = some e ∧
      registerAll config reg pending = .error e := by
  induction pending generalizing reg seen with
  | nil =>
    rw [List.append_nil]
    exact .inl ⟨reg, rfl, valid, looks⟩
  | cons p pending ih =>
    have entry : registerEntry config reg p = _ := registerEntry_eq looks p
    cases found : offences config seen p with
    | cons e rest =>
      rw [found] at entry
      refine .inr ⟨[], p, pending, e, rfl, by rw [List.append_nil]; exact valid, ?_, ?_⟩
      · rw [List.append_nil, found]
        rfl
      · rw [registerAll, entry]
    | nil =>
      rw [found] at entry
      have next := offences_nil.mp found
      have rest := ih (looks_add looks next.fresh) (valid_snoc valid next)
      simp only [List.append_assoc, List.singleton_append] at rest
      rw [registerAll, entry]
      rcases rest with done | ⟨before, q, after, e, rfl, facts⟩
      · exact .inl done
      · exact .inr ⟨p :: before, q, after, e, rfl, facts⟩

private theorem looks_new : Looks Registry.new [] := fun _ => rfl

private theorem build_cases (b : OutboxBuilder) :
    (∃ o, b.build = .ok o ∧ Valid (b.config.getD .default) b.pending ∧
      Looks o.registry b.pending) ∨
    ∃ before p after e, b.pending = before ++ p :: after ∧
      Valid (b.config.getD .default) before ∧
      (offences (b.config.getD .default) before p).head? = some e ∧ b.build = .error e := by
  rcases registerAll_cases looks_new valid_nil b.pending with
    ⟨final, done, valid, looks⟩ | ⟨before, p, after, e, split, valid, first, failed⟩
  · refine .inl ⟨⟨b.config.getD .default, final, b.allowNoHandlers⟩, ?_, valid, looks⟩
    simp only [OutboxBuilder.build, done]
  · refine .inr ⟨before, p, after, e, split, valid, first, ?_⟩
    simp only [OutboxBuilder.build, failed]

theorem build_ok {b : OutboxBuilder} {o : Outbox} (built : b.build = .ok o) :
    Valid (b.config.getD .default) b.pending ∧ Looks o.registry b.pending := by
  rcases build_cases b with ⟨o', done, facts⟩ | ⟨_, _, _, e, -, -, -, failed⟩
  · cases built.symm.trans done
    exact facts
  · cases built.symm.trans failed

private theorem build_settings {b : OutboxBuilder} {o : Outbox} (built : b.build = .ok o) :
    o.config = b.config.getD .default ∧ o.allowNoHandlers = b.allowNoHandlers := by
  simp only [OutboxBuilder.build] at built
  split at built
  · cases built
  · cases built
    exact ⟨rfl, rfl⟩

private theorem count_idsFor {pending : List PendingHandler}
    (distinct : (pending.map PendingHandler.handlerId).Nodup) {p : PendingHandler}
    (mem : p ∈ pending) (t : String) :
    (idsFor pending t).count p.handlerId = if p.eventType = t then 1 else 0 := by
  by_cases own : p.eventType = t
  · rw [if_pos own]
    exact List.count_eq_one_of_mem (idsFor_nodup distinct t) (mem_idsFor.mpr ⟨p, mem, own, rfl⟩)
  · rw [if_neg own, List.count_eq_zero]
    intro listed
    obtain ⟨q, stored, type, same⟩ := mem_idsFor.mp listed
    cases List.inj_on_of_nodup_map distinct stored mem same
    exact own type

theorem looks_given {reg : Registry} {pending : List PendingHandler} (looks : Looks reg pending)
    (distinct : (pending.map PendingHandler.handlerId).Nodup) {p : PendingHandler}
    (mem : p ∈ pending) : reg.lookup p.handlerId = some (registered p) := by
  rw [looks]
  cases found : pending.find? fun q => q.handlerId = p.handlerId with
  | none =>
    rw [List.find?_eq_none] at found
    exact absurd rfl (of_decide_eq_false (Bool.eq_false_iff.mpr (found p mem)))
  | some q =>
    have same := List.find?_some found
    cases List.inj_on_of_nodup_map distinct (List.mem_of_find?_eq_some found) mem
      (of_decide_eq_true same)
    rfl

private theorem budget_left {d budget global : ℕ} (floor : budget * 2 < d) (ceiling : d ≤ global) :
    budget < d - budget ∧ d - budget ≤ global - budget := by
  omega

private theorem build_faithful {b : OutboxBuilder} (accepted : Accepted b) {o : Outbox}
    (built : b.build = .ok o) : Faithful b o := by
  have index := build_indexes built
  have looks := (build_ok built).2
  refine ⟨build_settings built, index.types, ?_, ?_, ?_, ?_⟩
  · intro p mem t
    rw [index.types]
    exact count_idsFor index.nodup mem t
  · exact fun p mem => looks_given looks index.nodup mem
  · intro id unknown
    rw [← looks_used looks, Option.not_isSome_iff_eq_none] at unknown
    exact unknown
  · intro id r found
    obtain ⟨floor, within⟩ := built_budgets accepted built found
    obtain ⟨low, high⟩ := budget_left floor within
    exact ⟨low, high, Nat.eq_sub_of_add_eq (ourTimeout_eq floor)⟩

/-- Whatever is registered on an accepted configuration, `build` sorts the lists into valid
and invalid ones exactly, and both maps of the registry then agree with the list. -/
theorem builds_exactly {b : OutboxBuilder} (accepted : Accepted b) : BuildsExactly b := by
  refine ⟨⟨?_, ?_⟩, ?_, fun o built => build_faithful accepted built⟩
  · rintro ⟨o, built⟩
    exact (build_ok built).1
  · intro valid
    rcases build_cases b with ⟨o, built, -⟩ | ⟨before, p, after, e, split, -, first, -⟩
    · exact ⟨o, built⟩
    · -- An offending registration cannot stand in a valid list.
      rw [split] at valid
      rw [offences_nil.mpr (admissible_of_valid valid)] at first
      cases first
  · intro e failed
    rcases build_cases b with ⟨o, built, -⟩ | ⟨before, p, after, e', split, valid, first, failed'⟩
    · cases built.symm.trans failed
    · cases failed'.symm.trans failed
      exact ⟨before, p, after, split, valid, first⟩

/-- Two handlers of one event type, the second with both overrides. -/
def limitedBuilder : OutboxBuilder where
  config := none
  pending :=
    [⟨"order.created", "mailer", ⟨fun _ _ _ => .returned .ok⟩, none, none⟩,
      ⟨"order.created", "indexer", ⟨fun _ _ _ => .elapsed⟩, some (millis 500), some 4⟩]
  allowNoHandlers := false

theorem builds_exactly_limited :
    BuildsExactly limitedBuilder ∧ ∃ o, limitedBuilder.build = .ok o :=
  ⟨builds_exactly (.inl rfl), _, rfl⟩

-- An id is taken across event types, and the first check that fails is reported.
example : (OutboxBuilder.mk none (limitedBuilder.pending ++
    [⟨"order.shipped", "mailer", ⟨fun _ _ _ => .elapsed⟩, none, some 0⟩]) false).build =
    .error (.duplicateHandlerId "order.shipped" "mailer") := rfl

end RustEvents.Builder.Registrations
