/- module: RustEvents/Dispatch/Admission
   layer: system
   source: src/outbox.rs (Outbox::dispatch), src/error.rs (DispatchError::is_retriable), migrations/20260513000001_v01_outbox_init.sql
   digest: Which requests dispatch accepts when nothing fails outside, and that a refusal of the others stands. -/

import RustEvents.Dispatch.Plans

set_option autoImplicit false
set_option relaxedAutoImplicit false

namespace RustEvents.Dispatch.Admission

open RustEvents.Model.Text
open RustEvents.Model.Errors
open RustEvents.Model.Schema
open RustEvents.Model.Builder
open RustEvents.Model.Dispatch
open RustEvents.Dispatch.Effects
open RustEvents.Dispatch.Rejections
open RustEvents.Dispatch.Fanout
open RustEvents.Dispatch.Plans

/-- `lo..=hi` bytes. -/
def BytesIn (lo hi : ℕ) (s : String) : Prop := lo ≤ len s ∧ len s ≤ hi

/-- What a request has to look like for the checks that precede every statement. -/
structure WellFormed (c : Call) : Prop where
  eventType : BytesIn 1 128 c.event.eventType
  tenantId : BytesIn 0 64 c.ctx.tenantId
  producerBc : BytesIn 0 64 c.ctx.producerBc
  idempotencyKey : ∀ key, c.ctx.idempotencyKey = some key → BytesIn 1 128 key
  aggregateKey : ∀ key, c.event.aggregateKey = some key → BytesIn 1 128 key
  payload : ∃ payload, c.event.toVec = .ok payload ∧ payload.length ≤ 1048576
  handlers : c.outbox.registry.handlerIdsFor c.event.eventType ≠ [] ∨
    c.outbox.allowNoHandlers = true

/-- The texts that the key's INSERT encodes. -/
def KeyEncodes (c : Call) : Prop :=
  ∀ key, c.ctx.idempotencyKey = some key → storable c.ctx.tenantId = true ∧ storable key = true

/-- What a new event has to satisfy besides, in dispatch and in the tables. -/
structure Fits (c : Call) : Prop where
  compact : len (headersText c) ≤ 16384
  jsonb : len (jsonbText (.object (c.ctx.headers.getD []))) ≤ 16384
  headers : castable (.object (c.ctx.headers.getD [])) = true
  texts : ∀ text ∈ [c.event.eventType, c.ctx.producerBc, c.ctx.tenantId] ++
    c.event.aggregateKey.toList ++ c.outbox.registry.handlerIdsFor c.event.eventType,
    storable text = true

private theorem checkFilled_iff {s : String} {reject : ℕ → ℕ → DispatchError} :
    checkFilled s 128 reject = .ok () ↔ BytesIn 1 128 s := by
  unfold checkFilled BytesIn
  split
  · next bad =>
    constructor
    · intro passed
      cases passed
    · intro good
      omega
  · next good =>
    constructor
    · intro _
      omega
    · intro _
      rfl

private theorem checkLength_iff {s : String} {reject : ℕ → ℕ → DispatchError} :
    checkLength s 64 reject = .ok () ↔ BytesIn 0 64 s := by
  unfold checkLength BytesIn
  split
  · next bad =>
    constructor
    · intro passed
      cases passed
    · intro good
      omega
  · next good =>
    constructor
    · intro _
      omega
    · intro _
      rfl

private theorem prepare_iff {c : Call} : (∃ result, prepare c = .ok result) ↔ WellFormed c := by
  constructor
  · rintro ⟨⟨payload, handlerIds⟩, passed⟩
    have prepared := prepare_ok passed
    have bytes : ∀ {s : String}, between1 128 s = true → BytesIn 1 128 s := by
      intro s fits
      simp only [between1, Bool.and_eq_true, decide_eq_true_eq] at fits
      exact fits
    refine ⟨bytes prepared.eventType, ⟨Nat.zero_le _, prepared.tenantId⟩,
      ⟨Nat.zero_le _, prepared.producerBc⟩, ?_, ?_, ⟨payload, prepared.toVec, prepared.payload⟩, ?_⟩
    · intro key keyed
      have fits := prepared.idempotencyKey
      rw [keyed] at fits
      exact bytes fits
    · intro key keyed
      have fits := prepared.aggregateKey
      rw [keyed] at fits
      exact bytes fits
    · by_contra none
      rw [not_or] at none
      obtain ⟨empty, strict⟩ := none
      have refused : lookupHandlers c.outbox c.event =
          .error (.noHandlersRegistered c.event.eventType) := by
        unfold lookupHandlers
        exact if_pos ⟨not_not.mp empty, by simpa using strict⟩
      simp only [prepare, refused, bind, Except.bind] at passed
      repeat' split at passed
      all_goals cases passed
  · intro formed
    obtain ⟨payload, toVec, size⟩ := formed.payload
    have eventType : checkEventType c.event = .ok () := checkFilled_iff.mpr formed.eventType
    have tenantId : checkTenantId c.ctx = .ok () := checkLength_iff.mpr formed.tenantId
    have producerBc : checkProducerBc c.ctx = .ok () := checkLength_iff.mpr formed.producerBc
    have idempotencyKey : checkIdempotencyKey c.ctx = .ok () := by
      unfold checkIdempotencyKey
      cases keyed : c.ctx.idempotencyKey with
      | none => rfl
      | some key => exact checkFilled_iff.mpr (formed.idempotencyKey key keyed)
    have aggregateKey : checkAggregateKey c.event = .ok () := by
      unfold checkAggregateKey
      cases keyed : c.event.aggregateKey with
      | none => rfl
      | some key => exact checkFilled_iff.mpr (formed.aggregateKey key keyed)
    have encoded : encodePayload c.event = .ok payload := by
      unfold encodePayload
      simp only [toVec]
      exact if_neg (Nat.not_lt.mpr size)
    have found : lookupHandlers c.outbox c.event =
        .ok (c.outbox.registry.handlerIdsFor c.event.eventType) := by
      unfold lookupHandlers
      refine if_neg ?_
      rintro ⟨empty, strict⟩
      rcases formed.handlers with some | lax
      · exact some empty
      · rw [lax] at strict
        cases strict
    refine ⟨(payload, c.outbox.registry.handlerIdsFor c.event.eventType), ?_⟩
    unfold prepare
    rw [eventType, tenantId, producerBc, idempotencyKey, aggregateKey, encoded, found]
    rfl

private theorem insertError_iff {c : Call} {payload : Bytes} {handlerIds : List String}
    (built : ∃ b : OutboxBuilder, b.build = .ok c.outbox)
    (prepared : Prepared c payload handlerIds) :
    (len (headersText c) ≤ 16384 ∧ insertError c payload handlerIds = none) ↔ Fits c := by
  obtain ⟨b, eqn⟩ := built
  have index := build_indexes eqn
  have ids := prepared.handlerIds
  have deliveries : deliveriesError handlerIds = none := by
    have long : (handlerIds.find? fun h => !between1 128 h) = none := by
      rw [List.find?_eq_none]
      intro h mem
      rw [ids, index.types] at mem
      obtain ⟨p, stored, -, rfl⟩ := mem_idsFor.mp mem
      simp [index.bytes p stored]
    have distinct : handlerIds.Nodup := by
      rw [ids, index.types]
      exact idsFor_nodup index.nodup _
    unfold deliveriesError
    rw [long]
    exact if_pos distinct
  have checks : (eventRow c payload).violated = none ↔
      len (jsonbText (.object (c.ctx.headers.getD []))) ≤ 16384 := by
    constructor
    · intro clean
      unfold EventRow.violated violated at clean
      rw [Option.map_eq_none_iff, List.find?_eq_none] at clean
      have holds := clean ("events_headers_size", .headersSize) (by simp [eventChecks])
      have small : EventCheck.holds (eventRow c payload) .headersSize = true := by
        simpa using holds
      exact of_decide_eq_true small
    · intro small
      apply violated_eq_none
      intro check
      by_cases last : check = .headersSize
      · rw [last]
        exact decide_eq_true small
      · exact eventRow_checks prepared check last
  unfold insertError
  constructor
  · rintro ⟨compact, clean⟩
    simp only at clean
    split at clean
    · next encodes =>
      rw [Bool.and_eq_true, List.all_eq_true] at encodes
      split at clean
      · cases clean
      · next valid =>
        refine ⟨compact, checks.mp valid, encodes.2, ?_⟩
        rw [← ids]
        exact encodes.1
    · cases clean
  · intro fits
    have encodes : (([(eventRow c payload).eventType, (eventRow c payload).producerBc,
        (eventRow c payload).tenantId] ++ (eventRow c payload).aggregateKey.toList ++
          handlerIds).all storable && castable (eventRow c payload).headers) = true := by
      rw [Bool.and_eq_true, List.all_eq_true, ids]
      exact ⟨fits.texts, fits.headers⟩
    refine ⟨fits.compact, ?_⟩
    simp only [encodes, if_true, checks.mpr fits.jsonb, deliveries]

/-- The three ways in which the reservation of a key ends when nothing fails outside. -/
private theorem keyPlan_cases {c : Call} (db : Database) (calm : c.faults.reserve = none) :
    (KeyEncodes c ∧ ∃ stored, known c db = some stored ∧
        keyPlan c (known c db) = .error (.ok (.duplicate stored))) ∨
      (KeyEncodes c ∧ known c db = none ∧ ∃ keys, keyPlan c (known c db) = .ok keys) ∨
        (¬ KeyEncodes c ∧
          keyPlan c (known c db) = .error (.error (.ofSqlx characterNotInRepertoire))) := by
  unfold keyPlan
  cases keyed : c.ctx.idempotencyKey with
  | none =>
    have unknown : known c db = none := by
      unfold known
      rw [keyed]
      rfl
    have encodes : KeyEncodes c := by
      intro key wrong
      rw [keyed] at wrong
      cases wrong
    exact .inr (.inl ⟨encodes, unknown, [], rfl⟩)
  | some key =>
    simp only [calm]
    by_cases texts : (storable c.ctx.tenantId && storable key) = true
    · have encodes : KeyEncodes c := by
        intro key' same
        rw [keyed] at same
        cases Option.some.inj same
        exact (Bool.and_eq_true _ _).mp texts
      rw [if_pos texts]
      cases seen : known c db with
      | none => exact .inr (.inl ⟨encodes, rfl, _, rfl⟩)
      | some stored => exact .inl ⟨encodes, stored, rfl, rfl⟩
    · have refuses : ¬ KeyEncodes c := by
        intro encodes
        exact texts ((Bool.and_eq_true _ _).mpr (encodes key keyed))
      rw [if_neg texts]
      exact .inr (.inr ⟨refuses, rfl⟩)

private theorem writePlan_ok_iff {c : Call} {payload : Bytes} {handlerIds : List String}
    {keys : List DispatchKeyRow} (calm : c.faults = .none) :
    (writePlan c payload handlerIds keys).result.isOk = true ↔
      len (headersText c) ≤ 16384 ∧ insertError c payload handlerIds = none := by
  have insert : c.faults.insert = none := by rw [calm]; rfl
  have push : c.faults.push = none := by rw [calm]; rfl
  unfold writePlan
  by_cases large : maxHeadersBytes < len (headersText c)
  · rw [if_pos large]
    have tooLarge : 16384 < len (headersText c) := large
    constructor
    · intro ok
      cases ok
    · rintro ⟨compact, -⟩
      omega
  · rw [if_neg large, insert]
    have small : len (headersText c) ≤ 16384 := Nat.not_lt.mp large
    cases failure : insertError c payload handlerIds with
    | some e =>
      constructor
      · intro ok
        cases ok
      · rintro ⟨-, clean⟩
        cases clean
    | none =>
      constructor
      · intro _
        exact ⟨small, rfl⟩
      · intro _
        simp only [push]
        split <;> rfl

/-- When nothing fails outside, a request with a fresh id succeeds exactly if it is well formed,
its key can be encoded, and the key is known already or the event fits the tables. -/
theorem dispatch_accepts_iff {c : Call} {db : Database}
    (built : ∃ b : OutboxBuilder, b.build = .ok c.outbox) (unused : Unused c.eventId db)
    (calm : c.faults = .none) :
    (dispatch c db).2.isOk = true ↔
      WellFormed c ∧ KeyEncodes c ∧ ((known c db).isSome = true ∨ Fits c) := by
  rw [(dispatch_planned unused).1]
  unfold plan
  cases passed : prepare c with
  | error e =>
    have refused : ¬ WellFormed c := by
      intro formed
      obtain ⟨result, accepted⟩ := prepare_iff.mpr formed
      rw [passed] at accepted
      cases accepted
    constructor
    · intro ok
      cases ok
    · rintro ⟨formed, -⟩
      exact absurd formed refused
  | ok result =>
    obtain ⟨payload, handlerIds⟩ := result
    have formed : WellFormed c := prepare_iff.mp ⟨_, passed⟩
    simp only [formed, true_and]
    rcases keyPlan_cases db (by rw [calm]; rfl : c.faults.reserve = none) with
      ⟨encodes, stored, seen, planned⟩ | ⟨encodes, unseen, keys, planned⟩ | ⟨refuses, planned⟩
    · rw [planned, seen]
      constructor
      · intro _
        exact ⟨encodes, .inl rfl⟩
      · intro _
        rfl
    · rw [planned, unseen]
      change (writePlan c payload handlerIds keys).result.isOk = true ↔ _
      rw [writePlan_ok_iff calm, insertError_iff built (prepare_ok passed)]
      constructor
      · intro fits
        exact ⟨encodes, .inr fits⟩
      · rintro ⟨-, wrong | fits⟩
        · cases wrong
        · exact fits
    · rw [planned]
      constructor
      · intro ok
        cases ok
      · rintro ⟨encodes, -⟩
        exact absurd encodes refuses

theorem dispatch_accepts_iff_sample :
    (dispatch (sampleCall "order.created" (some "order:42") 1#128) Database.empty).2.isOk = true ↔
      WellFormed (sampleCall "order.created" (some "order:42") 1#128) ∧
        KeyEncodes (sampleCall "order.created" (some "order:42") 1#128) ∧
        ((known (sampleCall "order.created" (some "order:42") 1#128) Database.empty).isSome = true ∨
          Fits (sampleCall "order.created" (some "order:42") 1#128)) := by
  apply dispatch_accepts_iff ⟨sampleBuilder, rfl⟩ _ rfl
  constructor <;> intro row stored <;> cases stored

/-- The same request, made again with the id and the time of a later call. -/
def again (c : Call) (eventId : Uuid) (now : Timestamp) : Call :=
  { c with eventId := eventId, now := now }

end RustEvents.Dispatch.Admission
