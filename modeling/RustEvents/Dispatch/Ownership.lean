/- module: RustEvents/Dispatch/Ownership
   layer: system
   source: src/outbox.rs (idempotency reservation)
   digest: Which transaction stands behind each key row and each event row, at every moment of every interleaving. -/

import RustEvents.Dispatch.Concurrent

set_option autoImplicit false
set_option relaxedAutoImplicit false

namespace RustEvents.Dispatch.Ownership

open RustEvents.Foundation.LabelledRuns (Machine)
open RustEvents.Foundation.IndexedTable (Table)
open RustEvents.Model.Errors
open RustEvents.Model.Schema
open RustEvents.Model.Dispatch
open RustEvents.Dispatch.Effects
open RustEvents.Dispatch.Concurrent

/-- Which call of `t` reserved a key row: it has returned without naming another event, or
it is in progress. -/
def ReservedBy (s : Server) (k : DispatchKeyRow) (t : ℕ) : Prop :=
  (∃ x ∈ s.log, x.call.eventId = k.eventId ∧ x.call.key = some k.key ∧
      ∀ o, x.result = .ok o → o.creates = true) ∨
    ∃ (tx : TxState) (c : Call), s.txs[t]? = some tx ∧ tx.progress.granted? = some c ∧
      c.eventId = k.eventId ∧ c.key = some k.key

/-- Why a key row is in the heap: its transaction `t` has not rolled back, and holds the key
while it is open. -/
structure Backed (s : Server) (k : DispatchKeyRow) (t : ℕ) : Prop where
  alive : s.status t ≠ some .rolledBack
  lock : s.status t = some .active → (k.key, t) ∈ s.locks
  origin : ReservedBy s k t

/-- What holds of a call in progress. -/
structure Pending (s : Server) (t : ℕ) (tx : TxState) (c : Call) : Prop where
  active : tx.status = .active
  own : (c.eventId, t) ∈ s.owners
  unlogged : ∀ x ∈ s.log, x.call.eventId ≠ c.eventId
  row : tx.progress.granted? = some c → ∀ key, c.key = some key →
    ∃ k ∈ s.heap.dispatchKeys.rows, k.key = key ∧ k.eventId = c.eventId
  event : ∀ handlerIds, tx.progress = .pushing c handlerIds →
    ∃ e ∈ s.heap.events.rows, e.id = c.eventId

/-- A keyed call that returned `Ok` named the event stored under its key. -/
def Answered (heap : Database) (x : Entry) : Prop :=
  ∀ o, x.result = .ok o → ∀ key, x.call.key = some key →
    (∃ k ∈ heap.dispatchKeys.rows, k.key = key ∧ k.eventId = o.eventId) ∧
      (o.creates = true → o.eventId = x.call.eventId ∧ ∃ e ∈ heap.events.rows, e.id = o.eventId)

/-- Which call wrote an event row: it has returned without naming another event, or it is
about to push its jobs. -/
def Written (s : Server) (e : EventRow) : Prop :=
  (∃ x ∈ s.log, x.call.eventId = e.id ∧ ∀ o, x.result = .ok o → o.creates = true) ∨
    ∃ (t : ℕ) (tx : TxState) (c : Call) (handlerIds : List String), s.txs[t]? = some tx ∧
      tx.progress = .pushing c handlerIds ∧ c.eventId = e.id

structure Inv (s : Server) : Prop where
  ids : (s.owners.map Prod.fst).Nodup
  known : ∀ u t, (u, t) ∈ s.owners → t < s.txs.length
  rows : ∀ k ∈ s.heap.dispatchKeys.rows, ∃ t, (k.eventId, t) ∈ s.owners ∧ Backed s k t
  written : ∀ e ∈ s.heap.events.rows, Written s e
  logged : ∀ x ∈ s.log, (x.call.eventId, x.tx) ∈ s.owners
  once : (s.log.map fun x => x.call.eventId).Nodup
  pending : ∀ t tx c, s.txs[t]? = some tx → tx.progress.call? = some c → Pending s t tx c
  answered : ∀ x ∈ s.log, s.status x.tx ≠ some .rolledBack → Answered s.heap x
  duplicates : ∀ x ∈ s.log, ∀ e, x.result = .ok (.duplicate e) →
    ∃ u, (e, u) ∈ s.owners ∧ (u = x.tx ∨ s.status u = some .committed)
  finished : ∀ x ∈ s.log, s.status x.tx = some .committed → x.result.isOk = true

theorem inv_start : Inv Server.start := by
  refine ⟨List.nodup_nil, ?_, ?_, ?_, ?_, List.nodup_nil, ?_, ?_, ?_, ?_⟩ <;>
    simp [Server.start, Database.empty, Table.empty]

theorem owner_unique {s : Server} (inv : Inv s) {u : Uuid} {t t' : ℕ} (own : (u, t) ∈ s.owners)
    (own' : (u, t') ∈ s.owners) : t = t' :=
  congrArg Prod.snd (List.inj_on_of_nodup_map inv.ids own own' rfl)

theorem granted?_call {p : Progress} {c : Call} (granted : p.granted? = some c) :
    p.call? = some c := by
  cases p <;> first | exact granted | cases granted

theorem get_set {s : Server} {t : ℕ} {tx : TxState} (stage : s.txs[t]? = some tx) (tx' : TxState)
    (u : ℕ) : (s.txs.set t tx')[u]? = if t = u then some tx' else s.txs[u]? := by
  rw [List.getElem?_set]
  simp only [(List.getElem?_eq_some_iff.mp stage).1, if_true]

theorem status_progress {s s' : Server} {t : ℕ} {p p' : Progress}
    (stage : s.txs[t]? = some ⟨.active, p⟩) (txs : s'.txs = s.setProgress t p') (u : ℕ) :
    s'.status u = s.status u := by
  simp only [Server.status, txs, Server.setProgress, get_set stage]
  split
  · next same =>
    subst same
    simp [stage]
  · rfl

/-- A heap with the key rows and event rows of another, and maybe more. -/
structure Extends (db db' : Database) : Prop where
  keys : ∀ k ∈ db.dispatchKeys.rows, k ∈ db'.dispatchKeys.rows
  events : ∀ e ∈ db.events.rows, e ∈ db'.events.rows

private theorem Answered.mono {db db' : Database} {x : Entry} (answered : Answered db x)
    (more : Extends db db') : Answered db' x := by
  intro o result key keyed
  obtain ⟨⟨k, stored, facts⟩, created⟩ := answered o result key keyed
  refine ⟨⟨k, more.keys k stored, facts⟩, ?_⟩
  intro creates
  obtain ⟨ids, e, event, same⟩ := created creates
  exact ⟨ids, e, more.events e event, same⟩

private theorem Pending.mono {s s' : Server} {t : ℕ} {tx : TxState} {c : Call}
    (pending : Pending s t tx c)
    (more : Extends s.heap s'.heap) (owners : ∀ o ∈ s.owners, o ∈ s'.owners)
    (unlogged : ∀ x ∈ s'.log, x.call.eventId ≠ c.eventId) : Pending s' t tx c := by
  refine ⟨pending.active, owners _ pending.own, unlogged, ?_, ?_⟩
  · intro granted key keyed
    obtain ⟨k, stored, facts⟩ := pending.row granted key keyed
    exact ⟨k, more.keys k stored, facts⟩
  · intro handlerIds pushing
    obtain ⟨e, stored, facts⟩ := pending.event handlerIds pushing
    exact ⟨e, more.events e stored, facts⟩

private theorem Backed.mono {s s' : Server} {k : DispatchKeyRow} {t : ℕ} (backed : Backed s k t)
    (status : s'.status t = s.status t) (locks : ∀ l ∈ s.locks, l ∈ s'.locks)
    (log : ∀ x ∈ s.log, x ∈ s'.log)
    (busy : ∀ tx c, s.txs[t]? = some tx → tx.progress.granted? = some c → c.eventId = k.eventId →
      c.key = some k.key → ReservedBy s' k t) : Backed s' k t := by
  -- A key row stays backed as long as nothing happens to its transaction; a call in progress
  -- has to be accounted for.
  refine ⟨by rw [status]; exact backed.alive, ?_, ?_⟩
  · rw [status]
    exact fun open_ => locks _ (backed.lock open_)
  · rcases backed.origin with ⟨x, logged, facts⟩ | ⟨tx, c, found, granted, ids, keyed⟩
    · exact .inl ⟨x, log x logged, facts⟩
    · exact busy tx c found granted ids keyed

private theorem Written.mono {s s' : Server} {e : EventRow} (written : Written s e)
    (log : ∀ x ∈ s.log, x ∈ s'.log)
    (busy : ∀ (t : ℕ) (tx : TxState) (c : Call) (handlerIds : List String), s.txs[t]? = some tx →
      tx.progress = .pushing c handlerIds → c.eventId = e.id → Written s' e) : Written s' e := by
  rcases written with ⟨x, logged, facts⟩ | ⟨t, tx, c, handlerIds, found, pushing, ids⟩
  · exact .inl ⟨x, log x logged, facts⟩
  · exact busy t tx c handlerIds found pushing ids

section Answers

variable {s : Server} {t : ℕ} {p : Progress} {c : Call} {heap : Database}
  {locks : List ((String × String) × ℕ)} {r : Except DispatchError DispatchOutcome}

private theorem get_answer (stage : s.txs[t]? = some ⟨.active, p⟩) (u : ℕ) :
    (s.answer t c heap locks r).txs[u]? = if t = u then some ⟨.active, .idle⟩ else s.txs[u]? :=
  get_set stage _ u

private theorem status_answer (stage : s.txs[t]? = some ⟨.active, p⟩) (u : ℕ) :
    (s.answer t c heap locks r).status u = s.status u :=
  status_progress stage rfl u

private theorem rows_answer (inv : Inv s) (stage : s.txs[t]? = some ⟨.active, p⟩)
    (call : p.call? = some c) (wider : ∀ l ∈ s.locks, l ∈ locks)
    (creating : p.granted? = some c → ∀ o, r = .ok o → o.creates = true) {k : DispatchKeyRow}
    (stored : k ∈ s.heap.dispatchKeys.rows) :
    ∃ u, (k.eventId, u) ∈ s.owners ∧ Backed (s.answer t c heap locks r) k u := by
  obtain ⟨u, own, backed⟩ := inv.rows k stored
  refine ⟨u, own, backed.mono (status_answer stage u) wider (fun _ => List.mem_cons_of_mem _) ?_⟩
  intro tx c' found granted ids keyed
  by_cases same : t = u
  · subst same
    rw [stage] at found
    cases Option.some.inj found
    cases Option.some.inj (call.symm.trans (granted?_call granted))
    exact .inl ⟨⟨t, c, r⟩, List.mem_cons_self, ids, keyed, creating granted⟩
  · exact .inr ⟨tx, c', by rw [get_answer stage, if_neg same]; exact found, granted, ids, keyed⟩

private theorem written_answer (inv : Inv s) (stage : s.txs[t]? = some ⟨.active, p⟩)
    (call : p.call? = some c)
    (creating : p.granted? = some c → ∀ o, r = .ok o → o.creates = true) {e : EventRow}
    (origin : e ∈ s.heap.events.rows ∨ e.id = c.eventId ∧ p.granted? = some c) :
    Written (s.answer t c heap locks r) e := by
  have here : c.eventId = e.id → p.granted? = some c → Written (s.answer t c heap locks r) e :=
    fun ids granted => Or.inl ⟨⟨t, c, r⟩, List.mem_cons_self, ids, creating granted⟩
  rcases origin with old | ⟨ids, granted⟩
  · refine (inv.written e old).mono (fun _ => List.mem_cons_of_mem _) ?_
    intro u tx c' handlerIds found pushing ids
    by_cases same : t = u
    · subst same
      rw [stage] at found
      cases Option.some.inj found
      change p = .pushing c' handlerIds at pushing
      subst pushing
      cases Option.some.inj call
      exact here ids rfl
    · exact .inr ⟨u, tx, c', handlerIds, by rw [get_answer stage, if_neg same]; exact found,
        pushing, ids⟩
  · exact here ids.symm granted

private theorem pending_answer (inv : Inv s) (stage : s.txs[t]? = some ⟨.active, p⟩)
    (call : p.call? = some c) (more : Extends s.heap heap) {u : ℕ} {tx : TxState} {c' : Call}
    (found : (s.answer t c heap locks r).txs[u]? = some tx) (call' : tx.progress.call? = some c') :
    Pending (s.answer t c heap locks r) u tx c' := by
  have pend := inv.pending t _ c stage call
  rw [get_answer stage] at found
  by_cases same : t = u
  · rw [if_pos same] at found
    cases Option.some.inj found
    cases call'
  · rw [if_neg same] at found
    have old := inv.pending u tx c' found call'
    refine old.mono more (fun _ own => own) ?_
    intro x mem
    rcases List.mem_cons.mp mem with rfl | logged
    · intro ids
      exact same (owner_unique inv pend.own (ids.symm ▸ old.own))
    · exact old.unlogged x logged

private theorem inv_answer (inv : Inv s) (stage : s.txs[t]? = some ⟨.active, p⟩)
    (call : p.call? = some c) (more : Extends s.heap heap)
    (keys : ∀ k ∈ heap.dispatchKeys.rows, k ∈ s.heap.dispatchKeys.rows)
    (origin : ∀ e ∈ heap.events.rows,
      e ∈ s.heap.events.rows ∨ e.id = c.eventId ∧ p.granted? = some c)
    (wider : ∀ l ∈ s.locks, l ∈ locks) (ok : Answered heap ⟨t, c, r⟩)
    (dup : ∀ e, r = .ok (.duplicate e) →
      ∃ u, (e, u) ∈ s.owners ∧ (u = t ∨ s.status u = some .committed))
    (creating : p.granted? = some c → ∀ o, r = .ok o → o.creates = true) :
    Inv (s.answer t c heap locks r) := by
  have pend := inv.pending t _ c stage call
  have status : ∀ u, (s.answer t c heap locks r).status u = s.status u := status_answer stage
  have active : s.status t = some .active := by simp [Server.status, stage]
  refine ⟨inv.ids, ?_, ?_, ?_, ?_, ?_, ?_, ?_, ?_, ?_⟩
  · intro u t' own
    simpa [Server.answer, Server.setProgress] using inv.known u t' own
  · intro k stored
    exact rows_answer inv stage call wider creating (keys k stored)
  · intro e stored
    exact written_answer inv stage call creating (origin e stored)
  · intro x mem
    rcases List.mem_cons.mp mem with rfl | old
    · exact pend.own
    · exact inv.logged x old
  · refine List.nodup_cons.mpr ⟨?_, inv.once⟩
    intro used
    obtain ⟨x, logged, same⟩ := List.mem_map.mp used
    exact pend.unlogged x logged same
  · intro u tx c' found call'
    exact pending_answer inv stage call more found call'
  · intro x mem live
    rcases List.mem_cons.mp mem with rfl | old
    · exact ok
    · rw [status] at live
      exact (inv.answered x old live).mono more
  · intro x mem e result
    rcases List.mem_cons.mp mem with rfl | old
    · obtain ⟨u, own, who⟩ := dup e result
      exact ⟨u, own, by rw [status]; exact who⟩
    · obtain ⟨u, own, who⟩ := inv.duplicates x old e result
      exact ⟨u, own, by rw [status]; exact who⟩
  · intro x mem done
    rw [status] at done
    rcases List.mem_cons.mp mem with rfl | old
    · rw [active] at done
      cases done
    · exact inv.finished x old done

end Answers

/-- A granted call goes on to its next statement: the rows it has written so far carry its
own event id. -/
private theorem inv_move {s : Server} (inv : Inv s) {t : ℕ} {p p' : Progress} {c : Call}
    {heap : Database} {locks : List ((String × String) × ℕ)} (stage : s.txs[t]? = some ⟨.active, p⟩)
    (call : p.call? = some c) (granted' : p'.granted? = some c)
    (idle : ∀ handlerIds, p ≠ .pushing c handlerIds)
    (more : Extends s.heap heap)
    (newKeys : ∀ k ∈ heap.dispatchKeys.rows, k ∈ s.heap.dispatchKeys.rows ∨
      k.eventId = c.eventId ∧ c.key = some k.key ∧ (k.key, t) ∈ locks)
    (newEvents : ∀ e ∈ heap.events.rows, e ∈ s.heap.events.rows ∨
      e.id = c.eventId ∧ ∃ handlerIds, p' = .pushing c handlerIds)
    (wider : ∀ l ∈ s.locks, l ∈ locks)
    (row : ∀ key, c.key = some key →
      ∃ k ∈ heap.dispatchKeys.rows, k.key = key ∧ k.eventId = c.eventId)
    (event : ∀ handlerIds, p' = .pushing c handlerIds → ∃ e ∈ heap.events.rows, e.id = c.eventId) :
    Inv { s with heap := heap, txs := s.setProgress t p', locks := locks } := by
  have pend := inv.pending t _ c stage call
  have status : ∀ u, Server.status { s with
      heap := heap, txs := s.setProgress t p', locks := locks } u = s.status u :=
    status_progress stage rfl
  have get : ∀ u, (s.setProgress t p')[u]? =
      if t = u then some ⟨.active, p'⟩ else s.txs[u]? := get_set stage _
  have active : s.status t = some .active := by simp [Server.status, stage]
  refine ⟨inv.ids, ?_, ?_, ?_, inv.logged, inv.once, ?_, ?_, ?_, ?_⟩
  · intro u t' own
    simpa [Server.setProgress] using inv.known u t' own
  · intro k stored
    rcases newKeys k stored with old | ⟨ids, keyed, lock⟩
    · obtain ⟨t', own, backed⟩ := inv.rows k old
      refine ⟨t', own, backed.mono (status t') wider (fun _ logged => logged) ?_⟩
      intro tx c' found granted ids keyed
      refine .inr ?_
      by_cases same : t = t'
      · subst same
        rw [stage] at found
        cases Option.some.inj found
        cases Option.some.inj (call.symm.trans (granted?_call granted))
        exact ⟨⟨.active, p'⟩, c, by rw [get, if_pos rfl], granted', ids, keyed⟩
      · exact ⟨tx, c', by rw [get, if_neg same]; exact found, granted, ids, keyed⟩
    · refine ⟨t, ids ▸ pend.own, ?_, fun _ => lock, ?_⟩
      · rw [status, active]
        simp
      · exact .inr ⟨⟨.active, p'⟩, c, by rw [get, if_pos rfl], granted', ids.symm, keyed⟩
  · intro e stored
    rcases newEvents e stored with old | ⟨ids, handlerIds, pushing⟩
    · refine (inv.written e old).mono (fun _ logged => logged) ?_
      intro t' tx c' handlerIds found pushing ids
      have differ : t ≠ t' := by
        rintro rfl
        rw [stage] at found
        cases Option.some.inj found
        change p = .pushing c' handlerIds at pushing
        subst pushing
        cases Option.some.inj call
        exact idle handlerIds rfl
      exact .inr ⟨t', tx, c', handlerIds, by rw [get, if_neg differ]; exact found, pushing, ids⟩
    · exact Or.inr ⟨t, ⟨.active, p'⟩, c, handlerIds, by rw [get, if_pos rfl], pushing, ids.symm⟩
  · intro u tx c' found call'
    rw [get] at found
    by_cases same : t = u
    · subst same
      rw [if_pos rfl] at found
      cases Option.some.inj found
      cases Option.some.inj ((granted?_call granted').symm.trans call')
      refine ⟨rfl, pend.own, pend.unlogged, fun _ => row, event⟩
    · rw [if_neg same] at found
      have old := inv.pending u tx c' found call'
      exact old.mono more (fun _ own => own) old.unlogged
  · intro x logged live
    rw [status] at live
    exact (inv.answered x logged live).mono more
  · intro x logged e result
    obtain ⟨u, own, who⟩ := inv.duplicates x logged e result
    exact ⟨u, own, by rw [status]; exact who⟩
  · intro x logged done
    rw [status] at done
    exact inv.finished x logged done

private theorem inv_outcome {s : Server} (inv : Inv s) {txs : List TxState}
    (longer : s.txs.length ≤ txs.length)
    (calls : ∀ (t : ℕ) (tx : TxState) (c : Call), tx.progress.call? = some c →
      (txs[t]? = some tx ↔ s.txs[t]? = some tx))
    (ends : ∀ t st, t < s.txs.length → Server.status { s with txs := txs } t = some st →
      s.status t = some st ∨ s.status t = some .active ∧ st = .committed)
    (final : ∀ t, s.status t = some .committed →
      Server.status { s with txs := txs } t = some .committed)
    (may : ∀ x ∈ s.log, Server.status { s with txs := txs } x.tx = some .committed →
      x.result.isOk = true) :
    Inv { s with txs := txs } := by
  -- BEGIN and COMMIT touch no row: they only say which transactions there are and how they
  -- ended, and no call is in progress in the one they touch.
  have alive : ∀ t, t < s.txs.length →
      Server.status { s with txs := txs } t = some .rolledBack → s.status t = some .rolledBack := by
    intro t known ended
    rcases ends t .rolledBack known ended with same | ⟨-, differ⟩
    · exact same
    · cases differ
  refine ⟨inv.ids, fun u t own => Nat.lt_of_lt_of_le (inv.known u t own) longer, ?_, ?_,
    inv.logged, inv.once, ?_, ?_, ?_, may⟩
  · intro k stored
    obtain ⟨t, own, backed⟩ := inv.rows k stored
    have known := inv.known _ t own
    refine ⟨t, own, fun ended => backed.alive (alive t known ended), ?_, ?_⟩
    · intro active
      rcases ends t .active known active with same | ⟨-, differ⟩
      · exact backed.lock same
      · cases differ
    · rcases backed.origin with logged | ⟨tx, c, found, granted, facts⟩
      · exact .inl logged
      · exact .inr ⟨tx, c, (calls t tx c (granted?_call granted)).mpr found, granted, facts⟩
  · intro e stored
    refine (inv.written e stored).mono (fun _ logged => logged) ?_
    intro t tx c handlerIds found pushing ids
    have call : tx.progress.call? = some c := by rw [pushing]; rfl
    exact .inr ⟨t, tx, c, handlerIds, (calls t tx c call).mpr found, pushing, ids⟩
  · intro t tx c found call
    have old := inv.pending t tx c ((calls t tx c call).mp found) call
    exact old.mono ⟨fun _ mem => mem, fun _ mem => mem⟩ (fun _ own => own) old.unlogged
  · intro x logged live
    refine inv.answered x logged ?_
    intro ended
    have known := inv.known _ _ (inv.logged x logged)
    obtain ⟨st, now⟩ : ∃ st, Server.status { s with txs := txs } x.tx = some st :=
      ⟨_, by rw [Server.status, List.getElem?_eq_getElem (Nat.lt_of_lt_of_le known longer)]; rfl⟩
    rcases ends x.tx st known now with same | ⟨active, -⟩
    · exact live (now.trans (same.symm.trans ended))
    · rw [active] at ended
      cases ended
  · intro x logged e result
    obtain ⟨u, own, who⟩ := inv.duplicates x logged e result
    exact ⟨u, own, who.imp_right (final u)⟩

private theorem inv_begin {s : Server} (inv : Inv s) :
    Inv { s with txs := s.txs ++ [⟨.active, .idle⟩] } := by
  have old : ∀ t, t < s.txs.length → (s.txs ++ [(⟨.active, .idle⟩ : TxState)])[t]? = s.txs[t]? :=
    fun t known => List.getElem?_append_left known
  have status : ∀ t, t < s.txs.length →
      Server.status { s with txs := s.txs ++ [⟨.active, .idle⟩] } t = s.status t := by
    intro t known
    simp only [Server.status, old t known]
  refine inv_outcome inv (by simp) ?_ ?_ ?_ ?_
  · intro t tx c call
    by_cases known : t < s.txs.length
    · rw [old t known]
    · have absent : s.txs[t]? = none := List.getElem?_eq_none (Nat.le_of_not_lt known)
      rw [absent, List.getElem?_append_right (Nat.le_of_not_lt known)]
      refine iff_of_false ?_ (by simp)
      intro found
      obtain ⟨_, same⟩ := List.getElem?_eq_some_iff.mp found
      rw [List.getElem_singleton] at same
      subst same
      cases call
  · intro t st known ended
    exact .inl ((status t known).symm.trans ended)
  · intro t ended
    obtain ⟨tx, found, -⟩ := Option.map_eq_some_iff.mp ended
    rw [status t (List.getElem?_eq_some_iff.mp found).1, ended]
  · intro x logged ended
    exact inv.finished x logged ((status _ (inv.known _ _ (inv.logged x logged))).symm.trans ended)

private theorem inv_commit {s : Server} (inv : Inv s) {t : ℕ}
    (idle : s.txs[t]? = some ⟨.active, .idle⟩)
    (may : s.mayCommit t = true) : Inv { s with txs := s.txs.set t ⟨.committed, .idle⟩ } := by
  have status : ∀ u, Server.status { s with txs := s.txs.set t ⟨.committed, .idle⟩ } u =
      if t = u then some .committed else s.status u := by
    intro u
    simp only [Server.status, get_set idle]
    split <;> rfl
  refine inv_outcome inv (by simp) ?_ ?_ ?_ ?_
  · intro u tx c call
    rw [get_set idle]
    split
    · next same =>
      subst same
      rw [idle]
      constructor <;>
      · intro found
        cases Option.some.inj found
        cases call
    · exact Iff.rfl
  · intro u st known ended
    rw [status] at ended
    split at ended
    · next same =>
      subst same
      exact .inr ⟨by simp [Server.status, idle], (Option.some.inj ended).symm⟩
    · exact .inl ended
  · intro u ended
    rw [status]
    split
    · rfl
    · exact ended
  · intro x logged ended
    rw [status] at ended
    split at ended
    · next same =>
      simp only [Server.mayCommit, Bool.and_eq_true, List.all_eq_true] at may
      simpa [same] using may.1 x logged
    · exact inv.finished x logged ended

private theorem inv_call {s : Server} (inv : Inv s) {t : ℕ} {c : Call}
    (idle : s.txs[t]? = some ⟨.active, .idle⟩) (fresh : ∀ u, (c.eventId, u) ∉ s.owners) :
    Inv { s with txs := s.setProgress t (.reserving c), owners := (c.eventId, t) :: s.owners } := by
  have status : ∀ u, Server.status { s with
      txs := s.setProgress t (.reserving c)
      owners := (c.eventId, t) :: s.owners } u = s.status u := status_progress idle rfl
  have get : ∀ u, (s.setProgress t (.reserving c))[u]? =
      if t = u then some ⟨.active, .reserving c⟩ else s.txs[u]? := get_set idle _
  -- The transaction was idle, so no row is explained by a call that is in progress in it.
  have busy : ∀ (u : ℕ) (tx : TxState) (c' : Call), s.txs[u]? = some tx →
      tx.progress.call? = some c' → (s.setProgress t (.reserving c))[u]? = some tx := by
    intro u tx c' found call
    have differ : t ≠ u := by
      rintro rfl
      rw [idle] at found
      cases Option.some.inj found
      cases call
    rw [get, if_neg differ]
    exact found
  refine ⟨?_, ?_, ?_, ?_, ?_, inv.once, ?_, ?_, ?_, ?_⟩
  · refine List.nodup_cons.mpr ⟨?_, inv.ids⟩
    intro used
    obtain ⟨⟨u, t'⟩, own, same⟩ := List.mem_map.mp used
    cases same
    exact fresh t' own
  · intro u t' own
    rcases List.mem_cons.mp own with new | old
    · cases new
      simpa [Server.setProgress] using (List.getElem?_eq_some_iff.mp idle).1
    · simpa [Server.setProgress] using inv.known u t' old
  · intro k stored
    obtain ⟨t', own, backed⟩ := inv.rows k stored
    refine ⟨t', List.mem_cons_of_mem _ own, backed.mono (status t') (fun _ lock => lock)
      (fun _ logged => logged) ?_⟩
    intro tx c' found granted ids keyed
    exact .inr ⟨tx, c', busy t' tx c' found (granted?_call granted), granted, ids, keyed⟩
  · intro e stored
    refine (inv.written e stored).mono (fun _ logged => logged) ?_
    intro t' tx c' handlerIds found pushing ids
    have call : tx.progress.call? = some c' := by rw [pushing]; rfl
    exact .inr ⟨t', tx, c', handlerIds, busy t' tx c' found call, pushing, ids⟩
  · exact fun x logged => List.mem_cons_of_mem _ (inv.logged x logged)
  · intro u tx c' found call
    rw [get] at found
    by_cases same : t = u
    · subst same
      rw [if_pos rfl] at found
      cases Option.some.inj found
      cases Option.some.inj call
      refine ⟨rfl, List.mem_cons_self, ?_, ?_, ?_⟩
      · intro x logged ids
        exact fresh x.tx (ids ▸ inv.logged x logged)
      · intro granted
        cases granted
      · intro handlerIds pushing
        cases pushing
    · rw [if_neg same] at found
      have old := inv.pending u tx c' found call
      exact old.mono ⟨fun _ mem => mem, fun _ mem => mem⟩ (fun _ own => List.mem_cons_of_mem _ own)
        old.unlogged
  · intro x logged live
    rw [status] at live
    exact inv.answered x logged live
  · intro x logged e result
    obtain ⟨u, own, who⟩ := inv.duplicates x logged e result
    exact ⟨u, List.mem_cons_of_mem _ own, by rw [status]; exact who⟩
  · intro x logged done
    rw [status] at done
    exact inv.finished x logged done

private theorem mem_retract_keys {hit : Uuid → Bool} {db : Database} {k : DispatchKeyRow} :
    k ∈ (retract hit db).dispatchKeys.rows ↔ k ∈ db.dispatchKeys.rows ∧ hit k.eventId = false :=
  Table.mem_delete

private theorem mem_retract_events {hit : Uuid → Bool} {db : Database} {e : EventRow} :
    e ∈ (retract hit db).events.rows ↔ e ∈ db.events.rows ∧ hit e.id = false :=
  Table.mem_delete

theorem not_owns {s : Server} (inv : Inv s) {t u : ℕ} {eventId : Uuid}
    (own : (eventId, u) ∈ s.owners) (differ : t ≠ u) : s.owns t eventId = false := by
  simp only [Server.owns, decide_eq_false_iff_not]
  exact fun mine => differ (owner_unique inv mine own)

private theorem Pending.retract {s s' : Server} {t : ℕ} {tx : TxState} {c : Call}
    {hit : Uuid → Bool} (pending : Pending s t tx c) (kept : hit c.eventId = false)
    (heap : s'.heap = RustEvents.Dispatch.Concurrent.retract hit s.heap)
    (owners : s'.owners = s.owners) (log : s'.log = s.log) : Pending s' t tx c := by
  refine ⟨pending.active, owners ▸ pending.own, log ▸ pending.unlogged, ?_, ?_⟩
  · intro granted key keyed
    obtain ⟨k, stored, keys, ids⟩ := pending.row granted key keyed
    rw [heap]
    exact ⟨k, mem_retract_keys.mpr ⟨stored, ids ▸ kept⟩, keys, ids⟩
  · intro handlerIds pushing
    obtain ⟨e, stored, ids⟩ := pending.event handlerIds pushing
    rw [heap]
    exact ⟨e, mem_retract_events.mpr ⟨stored, ids ▸ kept⟩, ids⟩

private theorem Answered.retract {heap : Database} {x : Entry} {hit : Uuid → Bool}
    (answered : Answered heap x)
    (kept : ∀ o, x.result = .ok o → (o.creates = true → o.eventId = x.call.eventId) →
      hit o.eventId = false) : Answered (RustEvents.Dispatch.Concurrent.retract hit heap) x := by
  intro o result key keyed
  obtain ⟨⟨k, stored, keys, ids⟩, created⟩ := answered o result key keyed
  have survives := kept o result fun creates => (created creates).1
  refine ⟨⟨k, mem_retract_keys.mpr ⟨stored, ids ▸ survives⟩, keys, ids⟩, ?_⟩
  intro creates
  obtain ⟨mine, e, event, same⟩ := created creates
  exact ⟨mine, e, mem_retract_events.mpr ⟨event, same ▸ survives⟩, same⟩

private theorem named_survives {s : Server} (inv : Inv s) {t : ℕ}
    (active : s.status t = some .active)
    {x : Entry} (logged : x ∈ s.log) (differ : t ≠ x.tx) {o : DispatchOutcome}
    (result : x.result = .ok o) (mine : o.creates = true → o.eventId = x.call.eventId) :
    s.owns t o.eventId = false := by
  by_cases creates : o.creates = true
  · rw [mine creates]
    exact not_owns inv (inv.logged x logged) differ
  · cases o with
    | dispatched => exact absurd rfl creates
    | noHandlers => exact absurd rfl creates
    | duplicate e =>
      obtain ⟨u, own, who⟩ := inv.duplicates x logged e result
      refine not_owns inv own ?_
      rintro rfl
      rcases who with self | committed
      · exact differ self
      · rw [active] at committed
        cases committed

private theorem inv_rollback {s : Server} (inv : Inv s) {t : ℕ} {progress : Progress}
    (stage : s.txs[t]? = some ⟨.active, progress⟩) :
    Inv { s with heap := retract (s.owns t) s.heap, txs := s.txs.set t ⟨.rolledBack, .idle⟩ } := by
  have get : ∀ u, (s.txs.set t ⟨.rolledBack, .idle⟩)[u]? =
      if t = u then some ⟨.rolledBack, .idle⟩ else s.txs[u]? := get_set stage _
  have active : s.status t = some .active := by simp [Server.status, stage]
  have status : ∀ u, Server.status { s with
      heap := retract (s.owns t) s.heap, txs := s.txs.set t ⟨.rolledBack, .idle⟩ } u =
      if t = u then some .rolledBack else s.status u := by
    intro u
    simp only [Server.status, get]
    split <;> rfl
  have others : ∀ u, t ≠ u → Server.status { s with
      heap := retract (s.owns t) s.heap, txs := s.txs.set t ⟨.rolledBack, .idle⟩ } u =
      s.status u := by
    intro u differ
    rw [status, if_neg differ]
  refine ⟨inv.ids, ?_, ?_, ?_, inv.logged, inv.once, ?_, ?_, ?_, ?_⟩
  · intro u t' own
    simpa using inv.known u t' own
  · intro k stored
    obtain ⟨stored, kept⟩ := mem_retract_keys.mp stored
    obtain ⟨t', own, backed⟩ := inv.rows k stored
    have differ : t ≠ t' := by
      rintro rfl
      simp [Server.owns, own] at kept
    refine ⟨t', own, backed.mono (others t' differ) (fun _ lock => lock)
      (fun _ logged => logged) ?_⟩
    intro tx c found granted ids keyed
    exact .inr ⟨tx, c, by rw [get, if_neg differ]; exact found, granted, ids, keyed⟩
  · intro e stored
    obtain ⟨stored, kept⟩ := mem_retract_events.mp stored
    refine (inv.written e stored).mono (fun _ logged => logged) ?_
    intro t' tx c handlerIds found pushing ids
    have call : tx.progress.call? = some c := by rw [pushing]; rfl
    have own := (inv.pending t' tx c found call).own
    have differ : t ≠ t' := by
      rintro rfl
      rw [← ids] at kept
      simp [Server.owns, own] at kept
    exact .inr ⟨t', tx, c, handlerIds, by rw [get, if_neg differ]; exact found, pushing, ids⟩
  · intro u tx c found call
    rw [get] at found
    by_cases same : t = u
    · rw [if_pos same] at found
      cases Option.some.inj found
      cases call
    · rw [if_neg same] at found
      have old := inv.pending u tx c found call
      exact old.retract (not_owns inv old.own same) rfl rfl rfl
  · intro x logged live
    have differ : t ≠ x.tx := by
      rintro same
      rw [status, if_pos same] at live
      exact live rfl
    rw [others x.tx differ] at live
    refine (inv.answered x logged live).retract ?_
    intro o result mine
    exact named_survives inv active logged differ result mine
  · intro x logged e result
    obtain ⟨u, own, who⟩ := inv.duplicates x logged e result
    refine ⟨u, own, who.imp_right ?_⟩
    intro committed
    have differ : t ≠ u := by
      rintro rfl
      rw [active] at committed
      cases committed
    rw [others u differ]
    exact committed
  · intro x logged done
    rw [status] at done
    split at done
    · cases done
    · exact inv.finished x logged done

/-- A key row that the upsert meets belongs to the caller or to a committed transaction. -/
theorem met_key_settled {s : Server} (inv : Inv s) {t : ℕ} {c : Call} {key : String}
    {row : DispatchKeyRow} (passes : (prepare c).isOk = true) (reached : c.faults.reserve = none)
    (keyed : c.ctx.idempotencyKey = some key) (free : s.blocked t c = false)
    (stored : row ∈ s.heap.dispatchKeys.rows) (same : row.key = (c.ctx.tenantId, key)) :
    ∃ u, (row.eventId, u) ∈ s.owners ∧ (u = t ∨ s.status u = some .committed) := by
  obtain ⟨u, own, backed⟩ := inv.rows row stored
  refine ⟨u, own, ?_⟩
  by_cases mine : u = t
  · exact .inl mine
  have known : s.txs[u]? = some (s.txs.get ⟨u, inv.known _ u own⟩) :=
    List.getElem?_eq_getElem (inv.known _ u own)
  have status : s.status u = some (s.txs.get ⟨u, inv.known _ u own⟩).status := by
    simp [Server.status, known]
  cases ended : (s.txs.get ⟨u, inv.known _ u own⟩).status with
  | committed => exact .inr (status.trans (congrArg some ended))
  | rolledBack => exact absurd (status.trans (congrArg some ended)) backed.alive
  | active =>
    have active := status.trans (congrArg some ended)
    have waits : s.waits t row.key = true := by
      simp only [Server.waits, List.any_eq_true]
      exact ⟨_, backed.lock active, by simp [mine, active]⟩
    simp [Server.blocked, passes, reached, Call.key, keyed, ← same, waits] at free

private theorem inv_failed {s : Server} (inv : Inv s) {t : ℕ} {p : Progress} {c : Call}
    {heap : Database}
    (stage : s.txs[t]? = some ⟨.active, p⟩) (call : p.call? = some c) (more : Extends s.heap heap)
    (keys : ∀ k ∈ heap.dispatchKeys.rows, k ∈ s.heap.dispatchKeys.rows)
    (events : ∀ e ∈ heap.events.rows, e ∈ s.heap.events.rows) (e : DispatchError) :
    Inv (s.answer t c heap s.locks (.error e)) := by
  refine inv_answer inv stage call more keys (fun e stored => .inl (events e stored))
    (fun _ lock => lock) ?_ ?_ ?_
  · intro o result
    cases result
  · intro e result
    cases result
  · intro granted o result
    cases result

private theorem Extends.refl (db : Database) : Extends db db := ⟨fun _ mem => mem, fun _ mem => mem⟩

private theorem inv_reserved {s : Server} (inv : Inv s) {t : ℕ} {c : Call}
    (stage : s.txs[t]? = some ⟨.active, .reserving c⟩) (free : s.blocked t c = false) :
    Inv (s.reserved t c) := by
  have done := reserve_cases c s.heap
  generalize result : reserveStep c s.heap = after at done
  have wider : ∀ l ∈ s.locks, l ∈ s.locked t c := fun l held => List.mem_append_right _ held
  cases done with
  | rejected e failed =>
    simp only [Server.reserved, result]
    exact inv_failed inv stage rfl (.refl _) (fun _ mem => mem) (fun _ mem => mem) e
  | unreserved e payload handlerIds key prepared keyed cause =>
    simp only [Server.reserved, result]
    exact inv_failed inv stage rfl (.refl _) (fun _ mem => mem) (fun _ mem => mem) (.ofSqlx e)
  | duplicate payload handlerIds key row passed keyed reached found =>
    simp only [Server.reserved, result]
    obtain ⟨stored, same⟩ := Table.find_mem found
    refine inv_answer inv stage rfl (.refl _) (fun _ mem => mem) (fun _ mem => .inl mem) wider
      ?_ ?_ ?_
    · intro o ok key' keyed'
      cases Except.ok.inj ok
      refine ⟨⟨row, stored, ?_, rfl⟩, fun creates => by cases creates⟩
      simpa [Call.key, keyed, same] using keyed'
    · intro e ok
      cases Except.ok.inj ok
      exact met_key_settled inv (by rw [passed]; rfl) reached keyed free stored same
    · intro granted
      cases granted
  | granted payload handlerIds db1 passed reserves =>
    simp only [Server.reserved, result]
    have row : ∀ k ∈ (keyRow c).toList,
        k.eventId = c.eventId ∧ c.key = some k.key ∧ (k.key, t) ∈ s.locked t c := by
      intro k new
      obtain ⟨key, keyed, rfl⟩ := Option.map_eq_some_iff.mp (Option.mem_toList.mp new)
      have same : c.key = some (c.ctx.tenantId, key) := by simp [Call.key, keyed]
      exact ⟨rfl, same, List.mem_append_left _ (by rw [same]; exact List.mem_cons_self)⟩
    refine inv_move inv stage rfl rfl (by simp) ⟨?_, ?_⟩ ?_ ?_ wider ?_ (by simp)
    · intro k stored
      rw [reserves.keys]
      exact List.mem_append_left _ stored
    · rw [reserves.events]
      exact fun _ stored => stored
    · intro k stored
      rw [reserves.keys] at stored
      exact (List.mem_append.mp stored).imp_right (row k)
    · intro e stored
      rw [reserves.events] at stored
      exact .inl stored
    · intro key keyed
      obtain ⟨text, written, rfl⟩ := Option.map_eq_some_iff.mp keyed
      refine ⟨⟨c.ctx.tenantId, text, c.eventId, c.now⟩, ?_, rfl, rfl⟩
      rw [reserves.keys]
      exact List.mem_append_right _ (by simp [keyRow, written])

private theorem inserts_extends {c : Call} {payload : Bytes} {handlerIds : List String}
    {db db' : Database} (inserts : Inserts c payload handlerIds db db') : Extends db db' := by
  refine ⟨?_, ?_⟩
  · rw [inserts.keys]
    exact fun _ stored => stored
  · rw [inserts.events]
    exact fun _ stored => List.mem_append_left _ stored

private theorem inserts_origin {c : Call} {payload : Bytes} {handlerIds : List String}
    {db db' : Database} (inserts : Inserts c payload handlerIds db db') {e : EventRow}
    (stored : e ∈ db'.events.rows) : e ∈ db.events.rows ∨ e.id = c.eventId := by
  rw [inserts.events] at stored
  refine (List.mem_append.mp stored).imp_right ?_
  intro new
  cases List.mem_singleton.mp new
  rfl

private theorem inserts_event {c : Call} {payload : Bytes} {handlerIds : List String}
    {db db' : Database} (inserts : Inserts c payload handlerIds db db') :
    ∃ e ∈ db'.events.rows, e.id = c.eventId := by
  refine ⟨eventRow c payload, ?_, rfl⟩
  rw [inserts.events]
  exact List.mem_append_right _ List.mem_cons_self

private theorem inv_inserted {s : Server} (inv : Inv s) {t : ℕ} {c : Call} {payload : Bytes}
    {handlerIds : List String}
    (stage : s.txs[t]? = some ⟨.active, .inserting c payload handlerIds⟩) :
    Inv (s.inserted t c payload handlerIds) := by
  have pend := inv.pending t _ c stage rfl
  have done := insert_cases c payload handlerIds s.heap
  generalize result : insertStep c payload handlerIds s.heap = after at done
  cases done with
  | oversized large =>
    simp only [Server.inserted, result]
    exact inv_failed inv stage rfl (.refl _) (fun _ mem => mem) (fun _ mem => mem) _
  | uninserted e cause =>
    simp only [Server.inserted, result]
    exact inv_failed inv stage rfl (.refl _) (fun _ mem => mem) (fun _ mem => mem) _
  | noHandlers db2 none inserts =>
    simp only [Server.inserted, result]
    refine inv_answer inv stage rfl (inserts_extends inserts)
      (by rw [inserts.keys]; exact fun _ mem => mem)
      (fun e stored => (inserts_origin inserts stored).imp_right fun ids => ⟨ids, rfl⟩)
      (fun _ lock => lock) ?_ ?_ ?_
    · intro o ok key keyed
      cases Except.ok.inj ok
      refine ⟨?_, fun _ => ⟨rfl, inserts_event inserts⟩⟩
      obtain ⟨k, stored, facts⟩ := pend.row rfl key keyed
      exact ⟨k, (inserts_extends inserts).keys k stored, facts⟩
    · intro e ok
      cases ok
    · intro granted o ok
      cases Except.ok.inj ok
      rfl
  | inserted db2 some inserts =>
    simp only [Server.inserted, result]
    refine inv_move inv stage rfl rfl (by simp) (inserts_extends inserts) ?_ ?_
      (fun _ lock => lock) ?_ (fun _ _ => inserts_event inserts)
    · intro k stored
      rw [inserts.keys] at stored
      exact .inl stored
    · intro e stored
      exact (inserts_origin inserts stored).imp_right fun ids => ⟨ids, handlerIds, rfl⟩
    · intro key keyed
      obtain ⟨k, stored, facts⟩ := pend.row rfl key keyed
      exact ⟨k, (inserts_extends inserts).keys k stored, facts⟩

private theorem inv_pushed {s : Server} (inv : Inv s) {t : ℕ} {c : Call} {handlerIds : List String}
    (stage : s.txs[t]? = some ⟨.active, .pushing c handlerIds⟩) :
    Inv (s.pushed t c handlerIds) := by
  have pend := inv.pending t _ c stage rfl
  simp only [Server.pushed, pushStep]
  split
  · exact inv_failed inv stage rfl (.refl _) (fun _ mem => mem) (fun _ mem => mem) _
  · refine inv_answer inv stage rfl ⟨fun _ mem => mem, fun _ mem => mem⟩ (fun _ mem => mem)
      (fun _ mem => .inl mem) (fun _ lock => lock) ?_ ?_ ?_
    · intro o ok key keyed
      cases Except.ok.inj ok
      exact ⟨pend.row rfl key keyed, fun _ => ⟨rfl, pend.event handlerIds rfl⟩⟩
    · intro e ok
      cases ok
    · intro granted o ok
      cases Except.ok.inj ok
      rfl

theorem inv_step {s s' : Server} {a : TxLabel} (inv : Inv s) (taken : server.step s a = some s') :
    Inv s' := by
  cases serverStep_sound taken with
  | begin => exact inv_begin inv
  | call t c idle fresh => exact inv_call inv idle fresh
  | reserve t c stage free => exact inv_reserved inv stage free
  | insert t c payload handlerIds stage => exact inv_inserted inv stage
  | push t c handlerIds stage => exact inv_pushed inv stage
  | commit t idle may => exact inv_commit inv idle may
  | rollback t progress stage => exact inv_rollback inv stage

theorem inv_run {as : List TxLabel} {s : Server} (reached : server.run Server.start as = some s) :
    Inv s :=
  Machine.run_invariant (fun _ _ _ inv taken => inv_step inv taken) inv_start reached

end RustEvents.Dispatch.Ownership
