/- module: RustEvents/Dispatch/Interleaved
   layer: system
   source: src/outbox.rs (Outbox::dispatch steps 7 to 9)
   digest: The transactional fan-out, carried over from one transaction at a time to every interleaving. -/

import RustEvents.Dispatch.Serial

set_option autoImplicit false
set_option relaxedAutoImplicit false

namespace RustEvents.Dispatch.Interleaved

open RustEvents.Foundation.IndexedTable (Table)
open RustEvents.Model.Errors
open RustEvents.Model.Schema
open RustEvents.Model.Builder
open RustEvents.Model.Dispatch
open RustEvents.Dispatch.Effects
open RustEvents.Dispatch.Fanout
open RustEvents.Dispatch.Plans
open RustEvents.Dispatch.Concurrent
open RustEvents.Dispatch.Ownership
open RustEvents.Dispatch.Traces
open RustEvents.Dispatch.Serial

/-- The deliveries of a server whose event is kept, by their handler. -/
def deliveriesOf (s : Server) (keep : Uuid → Bool) : List HandlerEnvelope :=
  (s.heap.handlerDeliveries.rows.filter fun d => keep d.eventId).map HandlerDelivery.envelope

def jobsOf (s : Server) (keep : Uuid → Bool) : List HandlerEnvelope :=
  (s.heap.jobs.filter fun j => keep j.envelope.eventId).map Job.envelope

def deliveryEnvelope : Row → Option HandlerEnvelope
  | .delivery d => some d.envelope
  | _ => none

def jobEnvelope : Row → Option HandlerEnvelope
  | .job j => some j.envelope
  | _ => none

private theorem bundle_filterMap {β : Type} (f : Row → Option β) (keys : List DispatchKeyRow)
    (events : List EventRow) (deliveries : List HandlerDelivery) (jobs : List Job) :
    (bundle keys events deliveries jobs).filterMap f =
      ↑(keys.filterMap fun k => f (.key k)) + ↑(events.filterMap fun e => f (.event e)) +
        ↑(deliveries.filterMap fun d => f (unnumbered d)) +
        ↑(jobs.filterMap fun j => f (.job j)) := by
  unfold bundle
  simp only [Multiset.filterMap_add, Multiset.filterMap_coe, List.filterMap_map]
  rfl

private theorem bundle_deliveries (keys : List DispatchKeyRow) (events : List EventRow)
    (deliveries : List HandlerDelivery) (jobs : List Job) :
    (bundle keys events deliveries jobs).filterMap deliveryEnvelope =
      ↑(deliveries.map HandlerDelivery.envelope) := by
  rw [bundle_filterMap, ← List.filterMap_eq_map]
  simp [deliveryEnvelope, unnumbered, HandlerDelivery.envelope, Function.comp_def]

private theorem bundle_jobs (keys : List DispatchKeyRow) (events : List EventRow)
    (deliveries : List HandlerDelivery) (jobs : List Job) :
    (bundle keys events deliveries jobs).filterMap jobEnvelope = ↑(jobs.map Job.envelope) := by
  rw [bundle_filterMap, ← List.filterMap_eq_map]
  simp [jobEnvelope, unnumbered]

private theorem deliveriesOf_rows (s : Server) (keep : Uuid → Bool) :
    ((rowsOf s.heap).filter fun r => keep r.eventId).filterMap deliveryEnvelope =
      ↑(deliveriesOf s keep) := by
  unfold rowsOf
  rw [bundle_filter, bundle_deliveries]
  rfl

private theorem jobsOf_rows (s : Server) (keep : Uuid → Bool) :
    ((rowsOf s.heap).filter fun r => keep r.eventId).filterMap jobEnvelope =
      ↑(jobsOf s keep) := by
  unfold rowsOf
  rw [bundle_filter, bundle_jobs]
  rfl

private theorem queuedRows_length (eventId : Uuid) (now : Timestamp) (id : ℕ) (hs : List String) :
    (Database.queuedRows eventId now id hs).length = hs.length := by
  have envelopes := congrArg List.length (Database.queuedRows_envelope eventId now id hs)
  rwa [List.length_map, List.length_map] at envelopes

private theorem plan_dispatched {c : Call} {known : Option Uuid} {eventId : Uuid} {n : ℕ}
    (result : (plan c known).result = .ok (.dispatched eventId n)) :
    eventId = c.eventId ∧ (plan c known).handlers.length = n ∧
      (plan c known).jobs = (plan c known).handlers.map (jobFor c) := by
  generalize shape : plan c known = p at result ⊢
  unfold plan at shape
  split at shape
  · subst shape
    cases result
  · split at shape
    · next planned =>
      subst shape
      cases result
      exact absurd planned (keyPlan_never rfl)
    · next payload handlerIds _ _ keys _ =>
      rcases writePlan_cases c payload handlerIds keys with ⟨e, stops⟩ | silent | ⟨e, unpushed⟩ |
        done
      · rw [← shape, stops] at result
        cases result
      · rw [← shape, silent] at result
        cases result
      · rw [← shape, unpushed] at result
        cases result
      · rw [done] at shape
        subst shape
        cases result
        exact ⟨rfl, rfl, rfl⟩

private theorem rows_of_call {s : Server} (inv : Inv s) (traced : Traced s) {x : Entry}
    (logged : x ∈ s.log) (done : s.status x.tx = some .committed) :
    ((rowsOf s.heap).filter fun r => decide (r.eventId = x.call.eventId)) = Entry.rows x := by
  have own := inv.logged x logged
  have inside : ((rowsOf s.heap).filter fun r => decide (r.eventId = x.call.eventId)) =
      (written x.tx s.log).filter fun r => decide (r.eventId = x.call.eventId) := by
    rw [← rows_settled inv traced done, Multiset.filter_filter]
    apply Multiset.filter_congr
    intro r mem
    rw [decide_eq_true_eq]
    constructor
    · intro same
      refine ⟨same, ?_⟩
      unfold Server.owns
      rw [decide_eq_true_eq, same]
      exact own
    · rintro ⟨same, -⟩
      exact same
  rw [inside]
  have once := inv.once
  generalize s.log = log at logged once
  clear inside own inv traced done
  induction log with
  | nil => cases logged
  | cons y older ih =>
    rw [List.map_cons, List.nodup_cons] at once
    change ((if y.tx = x.tx then Entry.rows y else 0) + written x.tx older).filter _ = _
    rw [Multiset.filter_add]
    rcases List.mem_cons.mp logged with rfl | later
    · have all : (Entry.rows x).filter (fun r => decide (r.eventId = x.call.eventId) = true) =
          Entry.rows x := by
        rw [Multiset.filter_eq_self]
        intro r mem
        exact decide_eq_true (planRows_eventId mem)
      have rest : (written x.tx older).filter
          (fun r => decide (r.eventId = x.call.eventId) = true) = 0 := by
        rw [Multiset.filter_eq_nil]
        intro r mem same
        obtain ⟨z, past, -, row⟩ := mem_written mem
        have ids := (planRows_eventId row).symm.trans (of_decide_eq_true same)
        exact once.1 (ids ▸ List.mem_map_of_mem past)
      rw [if_pos rfl, all, rest, add_zero]
    · have none : (if y.tx = x.tx then Entry.rows y else 0).filter
          (fun r => decide (r.eventId = x.call.eventId) = true) = 0 := by
        rw [Multiset.filter_eq_nil]
        intro r mem same
        by_cases here : y.tx = x.tx
        · rw [if_pos here] at mem
          have ids := (planRows_eventId mem).symm.trans (of_decide_eq_true same)
          exact once.1 (ids ▸ List.mem_map_of_mem later)
        · rw [if_neg here] at mem
          cases Multiset.notMem_zero r mem
      rw [none, zero_add]
      exact ih later once.2

/-- What is committed, whatever the interleaving: each delivery has its job and each job its
delivery, once; each key has its event; and a call that was told of `n` deliveries stands
behind exactly these. -/
structure FansOutTogether (s : Server) : Prop where
  paired : (deliveriesOf s (visible s)).Perm (jobsOf s (visible s))
  once : (jobsOf s (visible s)).Nodup
  keys : ∀ k ∈ s.heap.dispatchKeys.rows, visible s k.eventId = true →
    ∃ e ∈ s.heap.events.rows, e.id = k.eventId
  counted : ∀ x ∈ s.log, s.status x.tx = some .committed → ∀ eventId n,
    x.result = .ok (.dispatched eventId n) →
      (deliveriesOf s fun id => decide (id = eventId)).length = n ∧
        (jobsOf s fun id => decide (id = eventId)).length = n

/-- The transactional fan-out holds of every interleaving of dispatching transactions. -/
theorem fan_out_together {as : List TxLabel} {s : Server}
    (reached : server.run Server.start as = some s)
    (built : ∀ x ∈ s.log, ∃ b : OutboxBuilder, b.build = .ok x.call.outbox) :
    FansOutTogether s := by
  obtain ⟨inv, traced⟩ := traced_run reached
  have ordered := ordered_run reached
  have contents := contents_visible inv traced ordered
  have allBuilt : AllBuilt ((history as).map Settled.transaction) := by
    intro tx mem c call
    obtain ⟨x, listed, rfl⟩ := List.mem_map.mp mem
    have own : x.calls = callsOf x.tx s.log := congrArg Settled.calls (ordered.told x listed)
    change c ∈ x.calls at call
    rw [own] at call
    obtain ⟨y, entry, rfl⟩ := List.mem_map.mp call
    exact built y (List.mem_filter.mp (List.mem_reverse.mp entry)).1
  obtain ⟨-, consistent⟩ := committed_invariant allBuilt (history_ids inv ordered)
  have deliveries : ((serially (history as)).handlerDeliveries.rows.map HandlerDelivery.envelope :
      Multiset HandlerEnvelope) = ↑(deliveriesOf s (visible s)) := by
    rw [← deliveriesOf_rows, ← contents]
    exact (bundle_deliveries _ _ _ _).symm
  have jobs : ((serially (history as)).jobs.map Job.envelope : Multiset HandlerEnvelope) =
      ↑(jobsOf s (visible s)) := by
    rw [← jobsOf_rows, ← contents]
    exact (bundle_jobs _ _ _ _).symm
  have paired : (deliveriesOf s (visible s)).Perm (jobsOf s (visible s)) := by
    apply Multiset.coe_eq_coe.mp
    rw [← deliveries, ← jobs]
    exact congrArg _ consistent.paired
  refine ⟨paired, ?_, ?_, ?_⟩
  · apply paired.nodup
    have table := s.heap.handlerDeliveries.unique.filter fun d => visible s d.eventId
    exact List.pairwise_map.mpr (table.imp fun apart => apart.2)
  · intro k stored seen
    have row : Row.key k ∈ rowsOf (serially (history as)) := by
      rw [contents]
      exact Multiset.mem_filter.mpr ⟨key_mem.mpr stored, seen⟩
    obtain ⟨e, there, ids⟩ := ordered.referents k (key_mem.mp row)
    have event := event_mem.mpr there
    rw [contents] at event
    exact ⟨e, event_mem.mp (Multiset.mem_filter.mp event).1, ids⟩
  · intro x logged done eventId n result
    have told := traced.told x logged
    rw [result] at told
    obtain ⟨rfl, length, jobs⟩ := plan_dispatched told.symm
    have rows := rows_of_call inv traced logged done
    have handlers := deliveriesOf_rows s fun id => decide (id = x.call.eventId)
    have pushed := jobsOf_rows s fun id => decide (id = x.call.eventId)
    rw [rows] at handlers pushed
    unfold Entry.rows planRows at handlers pushed
    rw [bundle_deliveries] at handlers
    rw [bundle_jobs] at pushed
    refine ⟨?_, ?_⟩
    · rw [← (Multiset.coe_eq_coe.mp handlers).length_eq, List.length_map, queuedRows_length]
      exact length
    · rw [← (Multiset.coe_eq_coe.mp pushed).length_eq, List.length_map, jobs, List.length_map]
      exact length

theorem fan_out_together_overlapping :
    ∃ s, server.run Server.start overlapping = some s ∧ FansOutTogether s ∧
      jobsOf s (visible s) = [⟨1#128, "mailer"⟩, ⟨1#128, "ledger"⟩] := by
  have outboxes : (server.run Server.start overlapping).map (fun s =>
      s.log.map fun x => x.call.outbox) = some [sampleOutbox, sampleOutbox, sampleOutbox] := rfl
  have jobs : (server.run Server.start overlapping).map (fun s => jobsOf s (visible s)) =
      some [⟨1#128, "mailer"⟩, ⟨1#128, "ledger"⟩] := by decide
  obtain ⟨s, reached, logged⟩ := Option.map_eq_some_iff.mp outboxes
  rw [reached] at jobs
  refine ⟨s, reached, fan_out_together reached ?_, Option.some.inj jobs⟩
  intro x mem
  have own : x.call.outbox ∈ s.log.map fun x => x.call.outbox := List.mem_map_of_mem mem
  rw [logged] at own
  have same : x.call.outbox = sampleOutbox := by
    simp only [List.mem_cons, List.not_mem_nil, or_false, or_self] at own
    exact own
  exact ⟨sampleBuilder, by rw [same]; rfl⟩

end RustEvents.Dispatch.Interleaved
