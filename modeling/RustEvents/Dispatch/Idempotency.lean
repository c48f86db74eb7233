/- module: RustEvents/Dispatch/Idempotency
   layer: system
   source: src/outbox.rs (idempotency reservation), tests/proptest_idempotency.rs
   digest: One committed event per tenant and key, under any interleaving of any number of transactions. -/

import RustEvents.Dispatch.Ownership
import RustEvents.Dispatch.Fanout

set_option autoImplicit false
set_option relaxedAutoImplicit false

namespace RustEvents.Dispatch.Idempotency

open RustEvents.Foundation.IndexedTable (Table)
open RustEvents.Model.Schema
open RustEvents.Model.Dispatch
open RustEvents.Dispatch.Concurrent
open RustEvents.Dispatch.Ownership
open RustEvents.Dispatch.Fanout (sampleCall)

/-- The returned dispatches of committed transactions that gave this tenant and key. -/
def committedUnder (s : Server) (key : String × String) : List Entry :=
  s.log.filter fun x => s.status x.tx = some .committed && x.call.key = some key

/-- The event rows that these dispatches inserted. -/
def eventsUnder (s : Server) (key : String × String) : List EventRow :=
  s.heap.events.rows.filter fun e => (committedUnder s key).any fun x => x.call.eventId = e.id

/-- All committed dispatches of one key agree on one event, which exactly one of them created. -/
structure Agree (s : Server) (key : String × String) (event : EventRow) (creator : Entry) :
    Prop where
  stored : eventsUnder s key = [event]
  creator : (committedUnder s key).filter Entry.creates = [creator]
  named : ∀ x ∈ committedUnder s key, ∃ o, x.result = .ok o ∧ o.eventId = event.id
  others : ∀ x ∈ committedUnder s key, x.creates = false → x.result = .ok (.duplicate event.id)

/-- The event was created by the caller's own transaction or by a committed one. -/
structure RestsOn (s : Server) (caller : ℕ) (eventId : Uuid) : Prop where
  created : ∃ t, (eventId, t) ∈ s.owners
  settled : ∀ t, (eventId, t) ∈ s.owners → t = caller ∨ s.status t = some .committed

private theorem mem_committedUnder {s : Server} {key : String × String} {x : Entry} :
    x ∈ committedUnder s key ↔
      x ∈ s.log ∧ s.status x.tx = some .committed ∧ x.call.key = some key := by
  simp [committedUnder]

private theorem mem_eventsUnder {s : Server} {key : String × String} {e : EventRow} :
    e ∈ eventsUnder s key ↔
      e ∈ s.heap.events.rows ∧ ∃ x ∈ committedUnder s key, x.call.eventId = e.id := by
  simp [eventsUnder]

private theorem eq_singleton {α : Type} {l : List α} {a : α} (nodup : l.Nodup) (mem : a ∈ l)
    (only : ∀ b ∈ l, b = a) : l = [a] := by
  refine List.perm_singleton.mp ((List.perm_ext_iff_of_nodup nodup (List.nodup_singleton a)).mpr ?_)
  intro b
  rw [List.mem_singleton]
  exact ⟨only b, fun same => same ▸ mem⟩

section Reached

variable {s : Server} {key : String × String}

private theorem committed_names_row (inv : Inv s) {x : Entry} (mem : x ∈ committedUnder s key) :
    ∃ o, x.result = .ok o ∧
      ∃ k ∈ s.heap.dispatchKeys.rows, k.key = key ∧ k.eventId = o.eventId := by
  obtain ⟨logged, done, keyed⟩ := mem_committedUnder.mp mem
  have ok := inv.finished x logged done
  cases result : x.result with
  | error e => simp [result, Except.isOk, Except.toBool] at ok
  | ok o =>
    have live : s.status x.tx ≠ some .rolledBack := by simp [done]
    exact ⟨o, rfl, (inv.answered x logged live o result key keyed).1⟩

private theorem row_unique {j k : DispatchKeyRow} (stored : j ∈ s.heap.dispatchKeys.rows)
    (stored' : k ∈ s.heap.dispatchKeys.rows) (same : j.key = k.key) : j = k :=
  Table.eq_of_key keys_separates_key stored stored' same

private theorem committed_agree (inv : Inv s) {x y : Entry} {o o' : DispatchOutcome}
    (mem : x ∈ committedUnder s key) (mem' : y ∈ committedUnder s key) (result : x.result = .ok o)
    (result' : y.result = .ok o') : o.eventId = o'.eventId := by
  obtain ⟨_, eqn, j, stored, keyed, ids⟩ := committed_names_row inv mem
  obtain ⟨_, eqn', k, stored', keyed', ids'⟩ := committed_names_row inv mem'
  rw [result] at eqn
  rw [result'] at eqn'
  cases eqn
  cases eqn'
  rw [← ids, ← ids', row_unique stored stored' (keyed.trans keyed'.symm)]

private theorem creator_event (inv : Inv s) {x : Entry} {o : DispatchOutcome}
    (mem : x ∈ committedUnder s key) (result : x.result = .ok o) (creates : o.creates = true) :
    o.eventId = x.call.eventId ∧ ∃ e ∈ s.heap.events.rows, e.id = o.eventId := by
  obtain ⟨logged, done, keyed⟩ := mem_committedUnder.mp mem
  have live : s.status x.tx ≠ some .rolledBack := by simp [done]
  exact (inv.answered x logged live o result key keyed).2 creates

private theorem entry_unique (inv : Inv s) {x y : Entry} (logged : x ∈ s.log) (logged' : y ∈ s.log)
    (ids : x.call.eventId = y.call.eventId) : x = y :=
  List.inj_on_of_nodup_map inv.once logged logged' ids

private theorem creator_exists (inv : Inv s) {x : Entry} (mem : x ∈ committedUnder s key) :
    ∃ y ∈ committedUnder s key, y.creates = true := by
  obtain ⟨logged, done, keyed⟩ := mem_committedUnder.mp mem
  obtain ⟨o, result, k, stored, sameKey, ids⟩ := committed_names_row inv mem
  cases creates : o.creates with
  | true => exact ⟨x, mem, by simp [Entry.creates, result, creates]⟩
  | false =>
  obtain ⟨t, own, backed⟩ := inv.rows k stored
  have committed : s.status t = some .committed := by
    cases o with
    | dispatched => cases creates
    | noHandlers => cases creates
    | duplicate e =>
      obtain ⟨u, own', who⟩ := inv.duplicates x logged e result
      change k.eventId = e at ids
      have same : t = u := owner_unique inv (ids ▸ own) own'
      subst same
      rcases who with rfl | committed
      · exact done
      · exact committed
  rcases backed.origin with ⟨y, logged', ids', keyed', creating⟩ | ⟨tx, c, found, granted, -⟩
  · have owner : t = y.tx := owner_unique inv own (ids' ▸ inv.logged y logged')
    have mem' : y ∈ committedUnder s key :=
      mem_committedUnder.mpr ⟨logged', owner ▸ committed, keyed'.trans (congrArg some sameKey)⟩
    obtain ⟨o', result', -⟩ := committed_names_row inv mem'
    exact ⟨y, mem', by simp [Entry.creates, result', creating o' result']⟩
  · have active := (inv.pending t tx c found (granted?_call granted)).active
    simp [Server.status, found, active] at committed

private theorem creates_ok {x : Entry} (creates : x.creates = true) :
    ∃ o, x.result = .ok o ∧ o.creates = true := by
  simp only [Entry.creates] at creates
  split at creates
  · next o result => exact ⟨o, result, creates⟩
  · cases creates

private theorem event_named (inv : Inv s) {e : EventRow} (stored : e ∈ eventsUnder s key) :
    ∃ x ∈ committedUnder s key, ∃ o, x.result = .ok o ∧ o.eventId = e.id := by
  obtain ⟨row, x, mem, ids⟩ := mem_eventsUnder.mp stored
  obtain ⟨logged, -, -⟩ := mem_committedUnder.mp mem
  obtain ⟨o, result, -⟩ := committed_names_row inv mem
  refine ⟨x, mem, o, result, ?_⟩
  rcases inv.written e row with ⟨y, logged', ids', creating⟩ |
    ⟨t, tx, c, handlerIds, found, busy, own⟩
  · have same := entry_unique inv logged logged' (ids.trans ids'.symm)
    subst same
    rw [(creator_event inv mem result (creating o result)).1, ids]
  · have pend := inv.pending t tx c found (by rw [busy]; rfl)
    exact absurd (ids.trans own.symm) (pend.unlogged x logged)

private theorem agree_of_committed (inv : Inv s) {x : Entry} (mem : x ∈ committedUnder s key) :
    ∃ event creator, Agree s key event creator := by
  obtain ⟨y, memY, createsY⟩ := creator_exists inv mem
  obtain ⟨o, result, creates⟩ := creates_ok createsY
  obtain ⟨mine, event, stored, ids⟩ := creator_event inv memY result creates
  have named : ∀ x ∈ committedUnder s key, ∃ o, x.result = .ok o ∧ o.eventId = event.id := by
    intro x memX
    obtain ⟨o', result', -⟩ := committed_names_row inv memX
    exact ⟨o', result', (committed_agree inv memX memY result' result).trans ids.symm⟩
  refine ⟨event, y, ?_, ?_, named, ?_⟩
  · have nodup : (eventsUnder s key).Nodup := by
      refine List.Nodup.filter _ (s.heap.events.unique.imp ?_)
      intro a b apart same
      exact apart (congrArg EventRow.id same)
    refine eq_singleton nodup ?_ ?_
    · exact mem_eventsUnder.mpr ⟨stored, y, memY, by rw [← mine, ids]⟩
    · intro e under
      obtain ⟨x, memX, o', result', ids'⟩ := event_named inv under
      have same : e.id = event.id := by
        rw [← ids', ids]
        exact committed_agree inv memX memY result' result
      exact Table.eq_of_key events_separates_id (mem_eventsUnder.mp under).1 stored same
  · have nodup : ((committedUnder s key).filter Entry.creates).Nodup :=
      ((List.Nodup.of_map _ inv.once).filter _).filter _
    refine eq_singleton nodup (List.mem_filter.mpr ⟨memY, createsY⟩) ?_
    intro x found
    obtain ⟨memX, createsX⟩ := List.mem_filter.mp found
    obtain ⟨o', result', creates'⟩ := creates_ok createsX
    refine entry_unique inv (mem_committedUnder.mp memX).1 (mem_committedUnder.mp memY).1 ?_
    rw [← (creator_event inv memX result' creates').1, ← mine]
    exact committed_agree inv memX memY result' result
  · intro x memX plain
    obtain ⟨o', result', ids'⟩ := named x memX
    cases o' with
    | dispatched => simp [Entry.creates, result', DispatchOutcome.creates] at plain
    | noHandlers => simp [Entry.creates, result', DispatchOutcome.creates] at plain
    | duplicate e =>
      rw [result']
      exact congrArg (fun e => Except.ok (DispatchOutcome.duplicate e)) ids'

private theorem duplicate_restsOn (inv : Inv s) {x : Entry} {e : Uuid} (logged : x ∈ s.log)
    (result : x.result = .ok (.duplicate e)) : RestsOn s x.tx e := by
  obtain ⟨u, own, who⟩ := inv.duplicates x logged e result
  refine ⟨⟨u, own⟩, ?_⟩
  intro t own'
  rw [owner_unique inv own' own]
  exact who

end Reached

theorem one_event_per_key {as : List TxLabel} {s : Server}
    (reached : server.run Server.start as = some s) :
    (∀ key, (eventsUnder s key).length ≤ 1) ∧
    (∀ key, committedUnder s key ≠ [] → ∃ event creator, Agree s key event creator) ∧
    ∀ x ∈ s.log, ∀ e, x.result = .ok (.duplicate e) → RestsOn s x.tx e := by
  have inv := inv_run reached
  refine ⟨?_, ?_, fun x logged e result => duplicate_restsOn inv logged result⟩
  · intro key
    cases under : eventsUnder s key with
    | nil => exact Nat.zero_le 1
    | cons e rest =>
      obtain ⟨-, x, mem, -⟩ := mem_eventsUnder.mp (under ▸ List.mem_cons_self)
      obtain ⟨event, creator, agree⟩ := agree_of_committed inv mem
      rw [← under, agree.stored]
      exact Nat.le_refl 1
  · intro key some
    obtain ⟨x, mem⟩ := List.exists_mem_of_ne_nil _ some
    exact agree_of_committed inv mem

/-- Two transactions give the same key; the second waits for the first to commit. A third
one has rolled back with the key before. -/
def contended : List TxLabel :=
  [.begin, .call 0 (sampleCall "order.created" (some "order:42") 1#128), .reserve 0, .insert 0,
    .push 0, .rollback 0,
    .begin, .begin, .call 1 (sampleCall "order.created" (some "order:42") 2#128),
    .call 2 (sampleCall "order.created" (some "order:42") 3#128), .reserve 1, .insert 1, .push 1,
    .commit 1, .reserve 2, .commit 2]

theorem one_event_per_key_contended :
    ∃ s, server.run Server.start contended = some s ∧
      (committedUnder s ("t1", "order:42")).length = 2 ∧
      ∃ event creator, Agree s ("t1", "order:42") event creator ∧ event.id = 2#128 := by
  have runs : (server.run Server.start contended).any (fun s =>
      (committedUnder s ("t1", "order:42")).length = 2 ∧
        (eventsUnder s ("t1", "order:42")).map EventRow.id = [2#128]) = true := by decide
  obtain ⟨s, reached, facts⟩ := (Option.any_eq_true _ _).mp runs
  simp only [decide_eq_true_eq] at facts
  obtain ⟨-, agree, -⟩ := one_event_per_key reached
  have some : committedUnder s ("t1", "order:42") ≠ [] := by
    intro none
    rw [none] at facts
    cases facts.1
  obtain ⟨event, creator, agreed⟩ := agree ("t1", "order:42") some
  refine ⟨s, reached, facts.1, event, creator, agreed, ?_⟩
  rw [agreed.stored] at facts
  exact (List.cons.inj facts.2).1

end RustEvents.Dispatch.Idempotency
