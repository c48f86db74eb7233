/- module: RustEvents/Dispatch/Serial
   layer: refinement
   source: src/outbox.rs (Outbox::dispatch), migrations/20260513000001_v01_outbox_init.sql
   digest: Interleaved transactions are serializable: what is committed is what the transactions leave one after another, in the order of their commits. -/

import RustEvents.Foundation.Records
import RustEvents.Dispatch.Traces

set_option autoImplicit false
set_option relaxedAutoImplicit false

namespace RustEvents.Dispatch.Serial

open RustEvents.Foundation.IndexedTable (Table)
open RustEvents.Foundation.LabelledRuns (Machine)
open RustEvents.Model.Errors
open RustEvents.Model.Schema
open RustEvents.Model.Builder
open RustEvents.Model.Dispatch
open RustEvents.Dispatch.Effects
open RustEvents.Dispatch.Fanout
open RustEvents.Dispatch.Plans
open RustEvents.Dispatch.Concurrent
open RustEvents.Dispatch.Ownership
open RustEvents.Dispatch.Traces

/-- One committed transaction: its calls in order, and what the application was told. -/
structure Settled where
  tx : ℕ
  calls : List Call
  results : List (Except DispatchError DispatchOutcome)

def Settled.transaction (x : Settled) : Transaction := ⟨x.calls, true⟩

/-- The returned calls of a transaction, oldest first. -/
def entriesOf (t : ℕ) (log : List Entry) : List Entry := (log.filter fun x => x.tx = t).reverse

def callsOf (t : ℕ) (log : List Entry) : List Call := (entriesOf t log).map Entry.call

def resultsOf (t : ℕ) (log : List Entry) : List (Except DispatchError DispatchOutcome) :=
  (entriesOf t log).map Entry.result

def settledOf (t : ℕ) (log : List Entry) : Settled := ⟨t, callsOf t log, resultsOf t log⟩

/-- The transaction that a step commits. -/
def settles (s : Server) : TxLabel → Server → List Settled
  | .commit t, _ => [settledOf t s.log]
  | _, _ => []

/-- The committed transactions of a run, in the order of their commits. -/
def history (as : List TxLabel) : List Settled := server.record settles Server.start as

/-- The tables that these transactions leave when they run one after another. -/
def serially (h : List Settled) : Database := committed (h.map Settled.transaction)

/-- A transaction that begins now sees the rows of this event. -/
def visible (s : Server) (eventId : Uuid) : Bool :=
  s.owners.any fun (issued, t) => issued = eventId && s.status t = some .committed

/-- The rows that the transactions of a history have written, by the log. -/
def gathered (log : List Entry) : List Settled → Multiset Row
  | [] => 0
  | x :: h => written x.tx log + gathered log h

structure InCommitOrder (h : List Settled) (s : Server) : Prop where
  once : (h.map Settled.tx).Nodup
  members : ∀ t, t ∈ h.map Settled.tx ↔ s.status t = some .committed
  told : ∀ x ∈ h, x = settledOf x.tx s.log
  contents : rowsOf (serially h) = gathered s.log h
  referents : (serially h).KeysReferEvents
  answers : ∀ before x after, h = before ++ x :: after →
    (dispatchAll x.calls (serially before)).2 = x.results

private theorem ordered_start : InCommitOrder [] Server.start := by
  refine ⟨List.nodup_nil, ?_, ?_, rfl, ?_, ?_⟩
  · intro t
    refine iff_of_false List.not_mem_nil ?_
    intro wrong
    cases wrong
  · intro x mem
    cases mem
  · intro k stored
    cases stored
  · intro before x after wrong
    cases before <;> cases wrong

private theorem gathered_append (log : List Entry) (h h' : List Settled) :
    gathered log (h ++ h') = gathered log h + gathered log h' := by
  induction h with
  | nil => exact (zero_add _).symm
  | cons x h ih =>
    change written x.tx log + gathered log (h ++ h') = written x.tx log + gathered log h + _
    rw [ih, add_assoc]

private theorem mem_gathered {log : List Entry} {h : List Settled} {r : Row} :
    r ∈ gathered log h ↔ ∃ x ∈ h, r ∈ written x.tx log := by
  induction h with
  | nil =>
    refine iff_of_false (Multiset.notMem_zero r) ?_
    rintro ⟨x, none, -⟩
    cases none
  | cons x h ih =>
    change r ∈ written x.tx log + gathered log h ↔ _
    rw [Multiset.mem_add, ih]
    constructor
    · rintro (here | ⟨y, mem, later⟩)
      · exact ⟨x, List.mem_cons_self, here⟩
      · exact ⟨y, List.mem_cons_of_mem x mem, later⟩
    · rintro ⟨y, mem, row⟩
      rcases List.mem_cons.mp mem with rfl | later
      · exact .inl row
      · exact .inr ⟨y, later, row⟩

private theorem written_suffix {t : ℕ} {r : Row} (newer : List Entry) {older : List Entry}
    (mem : r ∈ written t older) : r ∈ written t (newer ++ older) := by
  induction newer with
  | nil => exact mem
  | cons x newer ih =>
    change r ∈ (if x.tx = t then Entry.rows x else 0) + written t (newer ++ older)
    exact Multiset.mem_add.mpr (.inr ih)

private theorem dispatchAll_concat (cs : List Call) (c : Call) (db : Database) :
    dispatchAll (cs ++ [c]) db = ((dispatch c (dispatchAll cs db).1).1,
      (dispatchAll cs db).2 ++ [(dispatch c (dispatchAll cs db).1).2]) := by
  induction cs generalizing db with
  | nil => rfl
  | cons d cs ih =>
    have rest := ih (dispatch d db).1
    change ((dispatchAll (cs ++ [c]) (dispatch d db).1).1,
      (dispatch d db).2 :: (dispatchAll (cs ++ [c]) (dispatch d db).1).2) = _
    rw [rest]
    rfl

theorem rows_settled {s : Server} (inv : Inv s) (traced : Traced s) {t : ℕ}
    (done : s.status t = some .committed) :
    ((rowsOf s.heap).filter fun r => s.owns t r.eventId) = written t s.log := by
  obtain ⟨tx, found, ended⟩ := committed_get done
  have live : tx.status ≠ .rolledBack := by
    rw [ended]
    intro wrong
    cases wrong
  have rows := traced.rows t tx found live
  have calm : Progress.rows tx.progress = 0 := by
    cases call : tx.progress.call? with
    | none =>
      cases progress : tx.progress <;> rw [progress] at call <;> first | rfl | cases call
    | some c =>
      have busy := (inv.pending t tx c found call).active
      rw [ended] at busy
      cases busy
  rw [rows, calm, add_zero]

theorem keyPlan_never {c : Call} {known : Option Uuid} {o : DispatchOutcome}
    (creates : o.creates = true) : keyPlan c known ≠ .error (.ok o) := by
  intro planned
  unfold keyPlan at planned
  split at planned
  · cases planned
  · split at planned
    · cases planned
    · split at planned
      · split at planned
        · cases planned
          cases creates
        · cases planned
      · cases planned

private theorem plan_keyed {c : Call} {key : String} {o : DispatchOutcome}
    (keyed : c.ctx.idempotencyKey = some key) (result : (plan c none).result = .ok o)
    (creates : o.creates = true) :
    (⟨c.ctx.tenantId, key, c.eventId, c.now⟩ : DispatchKeyRow) ∈ (plan c none).keys := by
  cases passed : prepare c with
  | error e =>
    unfold plan at result
    rw [passed] at result
    cases result
  | ok prepared =>
    obtain ⟨payload, handlerIds⟩ := prepared
    cases reserved : keyPlan c none with
    | error stopped =>
      rw [plan_stopped passed reserved] at result
      have same : stopped = .ok o := result
      subst same
      cases o with
      | dispatched eventId n => exact absurd reserved (keyPlan_never rfl)
      | noHandlers eventId => exact absurd reserved (keyPlan_never rfl)
      | duplicate eventId => cases creates
    | ok keys =>
      have kept : (writePlan c payload handlerIds keys).keys = keys := by
        rcases writePlan_cases c payload handlerIds keys with ⟨e, stops⟩ | silent | ⟨e, unpushed⟩ |
          done
        · rw [stops]
          rfl
        · rw [silent]
        · rw [unpushed]
        · rw [done]
      rw [plan_granted passed reserved, kept]
      unfold keyPlan at reserved
      simp only [keyed] at reserved
      split at reserved
      · cases reserved
      · split at reserved
        · cases reserved
          exact List.mem_singleton_self _
        · cases reserved

private theorem plan_unkeyed {c : Call} (unkeyed : c.ctx.idempotencyKey = none)
    (k k' : Option Uuid) : plan c k = plan c k' := by
  unfold plan keyPlan
  rw [unkeyed]

private theorem sourced_at {s : Server} {newer older : List Entry} {x : Entry}
    (sourced : Sourced s (newer ++ x :: older)) : Source s x older := by
  induction newer with
  | nil => exact sourced.1
  | cons y newer ih => exact ih sourced.2

/-- What a committing transaction of a reached server comes with. -/
structure Committing (h : List Settled) (s : Server) (t : ℕ) : Prop where
  inv : Inv s
  traced : Traced s
  ordered : InCommitOrder h s
  idle : s.txs[t]? = some ⟨.active, .idle⟩
  may : s.mayCommit t = true

section Committing

variable {h : List Settled} {s : Server} {t : ℕ}

private theorem Committing.rows (k : Committing h s t) :
    ((rowsOf s.heap).filter fun r => s.owns t r.eventId) = written t s.log := by
  have rows := k.traced.rows t _ k.idle (by simp)
  change _ = written t s.log + 0 at rows
  rwa [add_zero] at rows

private theorem Committing.found (k : Committing h s t) {r : Row} (mem : r ∈ rowsOf (serially h)) :
    r ∈ rowsOf s.heap ∧ ∀ u, (r.eventId, u) ∈ s.owners → u ≠ t := by
  rw [k.ordered.contents] at mem
  obtain ⟨x, listed, row⟩ := mem_gathered.mp mem
  have done := (k.ordered.members x.tx).mp (List.mem_map_of_mem listed)
  rw [← rows_settled k.inv k.traced done] at row
  obtain ⟨stored, owned⟩ := Multiset.mem_filter.mp row
  refine ⟨stored, ?_⟩
  intro u own same
  have here : x.tx = t := (owner_unique k.inv (of_decide_eq_true owned) own).trans same
  rw [here] at done
  have active : s.status t = some .active := by
    unfold Server.status
    rw [k.idle]
    rfl
  rw [active] at done
  cases done

private theorem Committing.finds (k : Committing h s t) {r : Row} {u : ℕ}
    (stored : r ∈ rowsOf s.heap)
    (own : (r.eventId, u) ∈ s.owners) (done : s.status u = some .committed) :
    r ∈ rowsOf (serially h) := by
  rw [k.ordered.contents]
  obtain ⟨x, listed, same⟩ := List.mem_map.mp ((k.ordered.members u).mpr done)
  refine mem_gathered.mpr ⟨x, listed, ?_⟩
  rw [same, ← rows_settled k.inv k.traced done]
  exact Multiset.mem_filter.mpr ⟨stored, decide_eq_true own⟩

private theorem Committing.stored (k : Committing h s t) {r : Row} (mem : r ∈ written t s.log) :
    r ∈ rowsOf s.heap := by
  rw [← k.rows] at mem
  exact (Multiset.mem_filter.mp mem).1

private theorem Committing.ok (k : Committing h s t) {x : Entry} (logged : x ∈ s.log)
    (mine : x.tx = t) : x.result.isOk = true := by
  have all := k.may
  unfold Server.mayCommit at all
  rw [Bool.and_eq_true, List.all_eq_true] at all
  have here := all.1 x logged
  simpa [mine] using here

/-- Its calls, the older ones of them, have left `db` when the call of `x` begins. -/
structure Before (h : List Settled) (s : Server) (t : ℕ) (newer older : List Entry) (x : Entry)
    (db : Database) : Prop where
  committing : Committing h s t
  split : s.log = newer ++ x :: older
  mine : x.tx = t
  left : rowsOf db = rowsOf (serially h) + written t older

variable {newer older : List Entry} {x : Entry} {db : Database}

private theorem Before.logged (b : Before h s t newer older x db) : x ∈ s.log := by
  rw [b.split]
  exact List.mem_append_right _ List.mem_cons_self

private theorem Before.written (b : Before h s t newer older x db) {r : Row}
    (mem : r ∈ Entry.rows x + Traces.written t older) : r ∈ Traces.written t s.log := by
  rw [b.split]
  apply written_suffix newer
  rw [written_own b.mine]
  exact mem

private theorem Before.heap (b : Before h s t newer older x db) {r : Row} (mem : r ∈ rowsOf db) :
    r ∈ rowsOf s.heap := by
  rw [b.left] at mem
  rcases Multiset.mem_add.mp mem with found | earlier
  · exact (b.committing.found found).1
  · exact b.committing.stored (b.written (Multiset.mem_add.mpr (.inr earlier)))

private theorem Before.unused (b : Before h s t newer older x db) : Unused x.call.eventId db := by
  have own : (x.call.eventId, t) ∈ s.owners := b.mine ▸ b.committing.inv.logged x b.logged
  have fresh : ∀ r ∈ rowsOf db, r.eventId ≠ x.call.eventId := by
    intro r mem same
    rw [b.left] at mem
    rcases Multiset.mem_add.mp mem with found | earlier
    · exact (b.committing.found found).2 t (same ▸ own) rfl
    · obtain ⟨y, past, -, row⟩ := mem_written earlier
      have ids : y.call.eventId = x.call.eventId := (planRows_eventId row).symm.trans same
      have once := b.committing.inv.once
      rw [b.split, List.map_append, List.map_cons] at once
      have apart := (List.nodup_cons.mp (List.nodup_append.mp once).2.1).1
      exact apart (ids ▸ List.mem_map_of_mem past)
  refine ⟨?_, ?_⟩
  · intro e mem
    exact fresh (.event e) (event_mem.mpr mem)
  · intro j mem
    exact fresh (.key j) (key_mem.mpr mem)

private theorem Before.absent (b : Before h s t newer older x db) {key : String}
    {o : DispatchOutcome} (keyed : x.call.ctx.idempotencyKey = some key) (result : x.result = .ok o)
    (named : Entry.named x = none) (creates : o.creates = true) :
    db.key? x.call.ctx.tenantId key = none := by
  -- A call that created its event finds no row under its key: it would be its own.
  have told := b.committing.traced.told x b.logged
  rw [named, result] at told
  have planned := plan_keyed keyed told.symm creates
  have mine : Row.key ⟨x.call.ctx.tenantId, key, x.call.eventId, x.call.now⟩ ∈ Entry.rows x := by
    unfold Entry.rows
    rw [named]
    exact mem_bundle.mpr (.inl ⟨_, planned, rfl⟩)
  have row := key_mem.mp (b.committing.stored (b.written (Multiset.mem_add.mpr (.inl mine))))
  refine Table.find_eq_none.mpr ?_
  intro j mem same
  have there := key_mem.mp (b.heap (key_mem.mpr mem))
  have equal := Table.eq_of_key keys_separates_key there row same
  exact b.unused.keys j mem (congrArg DispatchKeyRow.eventId equal)

private theorem Before.present (b : Before h s t newer older x db) {key : String} {eventId : Uuid}
    (keyed : x.call.ctx.idempotencyKey = some key) (result : x.result = .ok (.duplicate eventId)) :
    ∃ j, db.key? x.call.ctx.tenantId key = some j ∧ j.eventId = eventId := by
  have sourced := b.committing.traced.sourced
  rw [b.split] at sourced
  obtain ⟨j, sameKey, ids, place⟩ := sourced_at sourced eventId result
  have pair : x.call.key = some (x.call.ctx.tenantId, key) := by
    unfold Call.key
    rw [keyed]
    rfl
  rw [pair] at sameKey
  have inDb : Row.key j ∈ rowsOf db := by
    rw [b.left]
    refine Multiset.mem_add.mpr ?_
    rcases place with earlier | ⟨row, u, owned, done⟩
    · rw [b.mine] at earlier
      exact .inr earlier
    · have owned' : ((Row.key j).eventId, u) ∈ s.owners := by
        change (j.eventId, u) ∈ s.owners
        rw [ids]
        exact owned
      exact .inl (b.committing.finds row owned' done)
  refine ⟨j, ?_, ids⟩
  exact (Table.find_eq_some keys_separates_key).mpr
    ⟨key_mem.mp inDb, (Option.some.inj sameKey).symm⟩

private theorem Before.meets (b : Before h s t newer older x db) :
    plan x.call (known x.call db) = plan x.call (Entry.named x) := by
  cases keyed : x.call.ctx.idempotencyKey with
  | none => exact plan_unkeyed keyed _ _
  | some key =>
    have look : known x.call db = (db.key? x.call.ctx.tenantId key).map DispatchKeyRow.eventId := by
      unfold known
      rw [keyed]
      rfl
    cases result : x.result with
    | error e =>
      have ok := b.committing.ok b.logged b.mine
      rw [result] at ok
      cases ok
    | ok o =>
      by_cases creates : o.creates = true
      · have named : Entry.named x = none := by
          unfold Entry.named
          rw [result]
          cases o <;> first | rfl | cases creates
        rw [look, b.absent keyed result named creates, named]
        rfl
      · cases o with
        | dispatched eventId n => exact absurd rfl creates
        | noHandlers eventId => exact absurd rfl creates
        | duplicate eventId =>
          have named : Entry.named x = some eventId := by
            unfold Entry.named
            rw [result]
          obtain ⟨j, found, ids⟩ := b.present keyed result
          rw [look, found, named, ← ids]
          rfl

private theorem Before.call (b : Before h s t newer older x db) :
    (dispatch x.call db).2 = x.result ∧
      rowsOf (dispatch x.call db).1 = rowsOf db + Entry.rows x := by
  obtain ⟨answer, appended⟩ := dispatch_planned b.unused
  rw [b.meets] at answer appended
  exact ⟨answer.trans (b.committing.traced.told x b.logged).symm, rowsOf_appended appended⟩

/-- The calls of a committing transaction, made alone on what the history has left, return
what they returned in the interleaving, and leave the rows they left there. -/
private theorem Committing.alone (k : Committing h s t) {newer older : List Entry}
    (split : s.log = newer ++ older) :
    (dispatchAll (callsOf t older) (serially h)).2 = resultsOf t older ∧
      rowsOf (dispatchAll (callsOf t older) (serially h)).1 =
        rowsOf (serially h) + written t older := by
  induction older generalizing newer with
  | nil => exact ⟨rfl, (add_zero _).symm⟩
  | cons x older ih =>
    have split' : s.log = (newer ++ [x]) ++ older := by
      rw [split, List.append_assoc, List.singleton_append]
    obtain ⟨answers, left⟩ := ih split'
    by_cases mine : x.tx = t
    · have next : entriesOf t (x :: older) = entriesOf t older ++ [x] := by
        unfold entriesOf
        rw [List.filter_cons_of_pos (by simpa using mine), List.reverse_cons]
      have calls : callsOf t (x :: older) = callsOf t older ++ [x.call] := by
        unfold callsOf
        rw [next, List.map_append]
        rfl
      have results : resultsOf t (x :: older) = resultsOf t older ++ [x.result] := by
        unfold resultsOf
        rw [next, List.map_append]
        rfl
      have before : Before h s t newer older x (dispatchAll (callsOf t older) (serially h)).1 :=
        ⟨k, split, mine, left⟩
      obtain ⟨answer, rows⟩ := before.call
      rw [calls, dispatchAll_concat, results, written_own mine]
      refine ⟨?_, ?_⟩
      · change (dispatchAll (callsOf t older) (serially h)).2 ++ [_] = _
        rw [answers, answer]
      · rw [rows, left]
        ac_rfl
    · have next : entriesOf t (x :: older) = entriesOf t older := by
        unfold entriesOf
        rw [List.filter_cons_of_neg (by simpa using mine)]
      have calls : callsOf t (x :: older) = callsOf t older := congrArg (List.map Entry.call) next
      have results : resultsOf t (x :: older) = resultsOf t older :=
        congrArg (List.map Entry.result) next
      rw [calls, results, written_other mine]
      exact ⟨answers, left⟩

private theorem Committing.answered (k : Committing h s t) :
    (resultsOf t s.log).all Except.isOk = true := by
  rw [List.all_eq_true]
  intro result mem
  obtain ⟨x, listed, rfl⟩ := List.mem_map.mp mem
  obtain ⟨logged, mine⟩ := List.mem_filter.mp (List.mem_reverse.mp listed)
  exact k.ok logged (of_decide_eq_true mine)

private theorem Committing.referents (k : Committing h s t) :
    (dispatchAll (callsOf t s.log) (serially h)).1.KeysReferEvents := by
  obtain ⟨-, rows⟩ := k.alone (List.nil_append s.log).symm
  intro j mem
  have row := key_mem.mpr mem
  rw [rows] at row
  rcases Multiset.mem_add.mp row with found | own
  · obtain ⟨e, stored, ids⟩ := k.ordered.referents j (key_mem.mp found)
    refine ⟨e, event_mem.mp ?_, ids⟩
    rw [rows]
    exact Multiset.mem_add.mpr (.inl (event_mem.mpr stored))
  · have owned : s.owns t j.eventId = true := by
      rw [← k.rows] at own
      exact (Multiset.mem_filter.mp own).2
    have check := k.may
    unfold Server.mayCommit at check
    rw [Bool.and_eq_true, List.all_eq_true, List.all_eq_true] at check
    have here := check.2 j (key_mem.mp (k.stored own))
    rw [owned, Bool.not_true, Bool.false_or, List.any_eq_true] at here
    obtain ⟨e, stored, same⟩ := here
    have ids : e.id = j.eventId := of_decide_eq_true same
    refine ⟨e, event_mem.mp ?_, ids⟩
    rw [rows, ← k.rows]
    refine Multiset.mem_add.mpr (.inr (Multiset.mem_filter.mpr ⟨event_mem.mpr stored, ?_⟩))
    change s.owns t e.id = true
    rw [ids]
    exact owned

private theorem Committing.executes (k : Committing h s t) :
    serially (h ++ [settledOf t s.log]) = (dispatchAll (callsOf t s.log) (serially h)).1 := by
  unfold serially
  rw [List.map_append, List.map_singleton, committed_concat]
  obtain ⟨answers, -⟩ := k.alone (List.nil_append s.log).symm
  have commits : (true && (dispatchAll (callsOf t s.log) (serially h)).2.all Except.isOk &&
      decide (dispatchAll (callsOf t s.log) (serially h)).1.KeysReferEvents) = true := by
    rw [answers, k.answered, decide_eq_true k.referents]
    rfl
  exact if_pos commits

end Committing

private theorem ordered_commit {h : List Settled} {s : Server} {t : ℕ} (k : Committing h s t) :
    InCommitOrder (h ++ [settledOf t s.log]) { s with txs := s.txs.set t ⟨.committed, .idle⟩ } := by
  obtain ⟨answers, rows⟩ := k.alone (List.nil_append s.log).symm
  have status : ∀ u, Server.status { s with txs := s.txs.set t ⟨.committed, .idle⟩ } u =
      if t = u then some .committed else s.status u := by
    intro u
    change ((s.txs.set t _)[u]?).map TxState.status = _
    rw [get_set k.idle]
    split <;> rfl
  have pending : t ∉ h.map Settled.tx := by
    intro listed
    have done := (k.ordered.members t).mp listed
    unfold Server.status at done
    rw [k.idle] at done
    cases done
  refine ⟨?_, ?_, ?_, ?_, ?_, ?_⟩
  · rw [List.map_append, List.map_singleton]
    refine List.nodup_append.mpr ⟨k.ordered.once, List.nodup_singleton t, ?_⟩
    intro u listed v new same
    have here : u = t := same.trans (List.mem_singleton.mp new)
    exact pending (here ▸ listed)
  · intro u
    rw [List.map_append, List.map_singleton, List.mem_append, k.ordered.members, status]
    by_cases here : t = u
    · rw [if_pos here]
      exact iff_of_true (.inr (List.mem_singleton.mpr here.symm)) rfl
    · rw [if_neg here]
      constructor
      · rintro (done | new)
        · exact done
        · exact absurd (List.mem_singleton.mp new).symm here
      · exact .inl
  · intro x mem
    rcases List.mem_append.mp mem with old | new
    · exact k.ordered.told x old
    · rw [List.mem_singleton.mp new]
      rfl
  · rw [k.executes, rows, gathered_append, k.ordered.contents]
    change _ = _ + (written t s.log + 0)
    rw [add_zero]
  · rw [k.executes]
    exact k.referents
  · intro before x after split
    rcases List.eq_nil_or_concat after with last | ⟨rest, y, last⟩
    · subst last
      obtain ⟨rfl, same⟩ := List.append_inj' split rfl
      cases same
      exact answers
    · subst last
      have earlier : h = before ++ x :: rest := by
        rw [List.concat_eq_append, ← List.cons_append, ← List.append_assoc] at split
        exact (List.append_inj' split rfl).1
      exact k.ordered.answers before x rest earlier

private theorem ordered_keeps {h : List Settled} {s s' : Server} (ordered : InCommitOrder h s)
    (ends : ∀ u, s'.status u = some .committed ↔ s.status u = some .committed)
    (log : s'.log = s.log ∨ ∃ x, s'.log = x :: s.log ∧ s.status x.tx = some .active) :
    InCommitOrder h s' := by
  have calm : ∀ u ∈ h.map Settled.tx, ∀ x : Entry, s.status x.tx = some .active → x.tx ≠ u := by
    intro u listed x active same
    have done := (ordered.members u).mp listed
    rw [← same, active] at done
    cases done
  have keepsEntries : ∀ u ∈ h.map Settled.tx, entriesOf u s'.log = entriesOf u s.log := by
    intro u listed
    rcases log with same | ⟨x, more, active⟩
    · rw [same]
    · unfold entriesOf
      rw [more, List.filter_cons_of_neg (by simpa using calm u listed x active)]
  have keepsRows : ∀ u ∈ h.map Settled.tx, written u s'.log = written u s.log := by
    intro u listed
    rcases log with same | ⟨x, more, active⟩
    · rw [same]
    · rw [more, written_other (calm u listed x active)]
  refine ⟨ordered.once, ?_, ?_, ?_, ordered.referents, ordered.answers⟩
  · intro t
    rw [ends]
    exact ordered.members t
  · intro x mem
    have same := keepsEntries x.tx (List.mem_map_of_mem mem)
    have told := ordered.told x mem
    unfold settledOf callsOf resultsOf at told ⊢
    rw [same]
    exact told
  · rw [ordered.contents]
    clear ordered ends log calm keepsEntries
    induction h with
    | nil => rfl
    | cons x h ih =>
      have rest := ih fun u listed => keepsRows u (List.mem_cons_of_mem _ listed)
      have here := keepsRows x.tx List.mem_cons_self
      change written x.tx s.log + gathered s.log h = written x.tx s'.log + gathered s'.log h
      rw [here, rest]

private theorem status_open {s : Server} {t : ℕ} {p : Progress}
    (stage : s.txs[t]? = some ⟨.active, p⟩) : s.status t = some .active := by
  unfold Server.status
  rw [stage]
  rfl

private theorem quiet_step {s s' : Server} {a : TxLabel} (step : ServerStep s a s')
    (other : ∀ t, a ≠ .commit t) :
    (∀ u, s'.status u = some .committed ↔ s.status u = some .committed) ∧
      (s'.log = s.log ∨ ∃ x, s'.log = x :: s.log ∧ s.status x.tx = some .active) := by
  have moves : ∀ {s' : Server} {t : ℕ} {p p' : Progress}, s.txs[t]? = some ⟨.active, p⟩ →
      s'.txs = s.setProgress t p' → ∀ u, s'.status u = some .committed ↔
        s.status u = some .committed := by
    intro s' t p p' stage txs u
    rw [status_progress stage txs u]
  cases step with
  | begin =>
    refine ⟨?_, .inl rfl⟩
    intro u
    change ((s.txs ++ [_])[u]?).map TxState.status = _ ↔ _
    by_cases known : u < s.txs.length
    · rw [List.getElem?_append_left known]
      rfl
    · have old : s.status u = none := by
        unfold Server.status
        rw [List.getElem?_eq_none (Nat.le_of_not_lt known)]
        rfl
      rw [List.getElem?_append_right (Nat.le_of_not_lt known), old]
      refine iff_of_false ?_ (by simp)
      intro done
      obtain ⟨tx, found, ended⟩ := Option.map_eq_some_iff.mp done
      obtain ⟨_, new⟩ := List.getElem?_eq_some_iff.mp found
      rw [List.getElem_singleton] at new
      subst new
      cases ended
  | call t c idle fresh => exact ⟨moves idle rfl, .inl rfl⟩
  | reserve t c stage free =>
    unfold Server.reserved
    split
    · exact ⟨moves stage rfl, .inr ⟨_, rfl, status_open stage⟩⟩
    · exact ⟨moves stage rfl, .inr ⟨_, rfl, status_open stage⟩⟩
    · exact ⟨moves stage rfl, .inl rfl⟩
  | insert t c payload handlerIds stage =>
    unfold Server.inserted
    split
    · exact ⟨moves stage rfl, .inr ⟨_, rfl, status_open stage⟩⟩
    · exact ⟨moves stage rfl, .inl rfl⟩
  | push t c handlerIds stage => exact ⟨moves stage rfl, .inr ⟨_, rfl, status_open stage⟩⟩
  | commit t idle may => exact absurd rfl (other t)
  | rollback t progress stage =>
    refine ⟨?_, .inl rfl⟩
    intro u
    change ((s.txs.set t _)[u]?).map TxState.status = _ ↔ _
    rw [get_set stage]
    by_cases here : t = u
    · subst here
      rw [if_pos rfl, status_open stage]
      refine iff_of_false ?_ ?_
      · intro wrong
        cases wrong
      · intro wrong
        cases wrong
    · rw [if_neg here]
      rfl

private theorem ordered_step {past : List Settled} {s s' : Server} {a : TxLabel} (inv : Inv s)
    (traced : Traced s) (ordered : InCommitOrder past s) (taken : server.step s a = some s') :
    InCommitOrder (past ++ settles s a s') s' := by
  have step := serverStep_sound taken
  by_cases commits : ∃ t, a = .commit t
  · obtain ⟨t, rfl⟩ := commits
    cases step with
    | commit t idle may => exact ordered_commit ⟨inv, traced, ordered, idle, may⟩
  · have other : ∀ t, a ≠ .commit t := fun t same => commits ⟨t, same⟩
    have nothing : settles s a s' = [] := by
      cases a with
      | commit t => exact absurd rfl (other t)
      | begin => rfl
      | call t c => rfl
      | reserve t => rfl
      | insert t => rfl
      | push t => rfl
      | rollback t => rfl
    obtain ⟨ends, log⟩ := quiet_step step other
    rw [nothing, List.append_nil]
    exact ordered_keeps ordered ends log

theorem ordered_run {as : List TxLabel} {s : Server}
    (reached : server.run Server.start as = some s) : InCommitOrder (history as) s := by
  have keeps : ∀ past s a s', ((Inv s ∧ Traced s) ∧ InCommitOrder past s) →
      server.step s a = some s' →
      (Inv s' ∧ Traced s') ∧ InCommitOrder (past ++ settles s a s') s' := by
    rintro past s a s' ⟨⟨inv, traced⟩, ordered⟩ taken
    exact ⟨⟨inv_step inv taken, traced_step inv traced taken⟩, ordered_step inv traced ordered taken⟩
  have all := Machine.record_invariant
    (I := fun past s => (Inv s ∧ Traced s) ∧ InCommitOrder past s) keeps
    ⟨⟨inv_start, traced_start⟩, ordered_start⟩ reached
  exact all.2

private theorem gathered_visible {h : List Settled} {s : Server} (inv : Inv s) (traced : Traced s)
    (once : (h.map Settled.tx).Nodup)
    (done : ∀ x ∈ h, s.status x.tx = some .committed) :
    gathered s.log h =
      (rowsOf s.heap).filter fun r => h.any fun x => s.owns x.tx r.eventId := by
  induction h with
  | nil =>
    have none : (rowsOf s.heap).filter (fun r => ([] : List Settled).any fun x =>
        s.owns x.tx r.eventId) = 0 := by
      rw [Multiset.filter_eq_nil]
      intro r mem wrong
      cases wrong
    exact none.symm
  | cons x h ih =>
    rw [List.map_cons, List.nodup_cons] at once
    have rest := ih once.2 fun y mem => done y (List.mem_cons_of_mem x mem)
    have first := rows_settled inv traced (done x List.mem_cons_self)
    change written x.tx s.log + gathered s.log h = _
    rw [rest, ← first, Multiset.filter_add_filter]
    have apart : (rowsOf s.heap).filter (fun r => s.owns x.tx r.eventId = true ∧
        (h.any fun x => s.owns x.tx r.eventId) = true) = 0 := by
      rw [Multiset.filter_eq_nil]
      rintro r mem ⟨mine, theirs⟩
      obtain ⟨y, listed, owned⟩ := List.any_eq_true.mp theirs
      have same := owner_unique inv (of_decide_eq_true mine) (of_decide_eq_true owned)
      exact once.1 (same ▸ List.mem_map_of_mem listed)
    rw [apart, add_zero]
    apply Multiset.filter_congr
    intro r mem
    rw [List.any_cons, Bool.or_eq_true]

private theorem visible_iff {s : Server} {eventId : Uuid} :
    visible s eventId = true ↔
      ∃ t, (eventId, t) ∈ s.owners ∧ s.status t = some .committed := by
  unfold visible
  rw [List.any_eq_true]
  constructor
  · rintro ⟨⟨issued, t⟩, owned, both⟩
    rw [Bool.and_eq_true, decide_eq_true_eq, decide_eq_true_eq] at both
    exact ⟨t, both.1 ▸ owned, both.2⟩
  · rintro ⟨t, owned, done⟩
    refine ⟨(eventId, t), owned, ?_⟩
    rw [Bool.and_eq_true, decide_eq_true_eq, decide_eq_true_eq]
    exact ⟨rfl, done⟩

theorem contents_visible {h : List Settled} {s : Server} (inv : Inv s) (traced : Traced s)
    (ordered : InCommitOrder h s) :
    rowsOf (serially h) = (rowsOf s.heap).filter fun r => visible s r.eventId := by
  have done : ∀ x ∈ h, s.status x.tx = some .committed :=
    fun x mem => (ordered.members x.tx).mp (List.mem_map_of_mem mem)
  rw [ordered.contents, gathered_visible inv traced ordered.once done]
  apply Multiset.filter_congr
  intro r mem
  rw [visible_iff, List.any_eq_true]
  constructor
  · rintro ⟨x, listed, owned⟩
    exact ⟨x.tx, of_decide_eq_true owned, done x listed⟩
  · rintro ⟨t, owned, ended⟩
    obtain ⟨x, listed, same⟩ := List.mem_map.mp ((ordered.members t).mpr ended)
    exact ⟨x, listed, decide_eq_true (same ▸ owned)⟩

/-- A run is explained by its committed transactions, executed one after another: they leave
the committed rows, and tell the application what it was told. -/
structure Serializable (as : List TxLabel) (s : Server) : Prop where
  once : ((history as).map Settled.tx).Nodup
  members : ∀ t, t ∈ (history as).map Settled.tx ↔ s.status t = some .committed
  told : ∀ x ∈ history as, x.calls = callsOf x.tx s.log ∧ x.results = resultsOf x.tx s.log
  contents : rowsOf (serially (history as)) = (rowsOf s.heap).filter fun r => visible s r.eventId
  answers : ∀ before x after, history as = before ++ x :: after →
    (dispatchAll x.calls (serially before)).2 = x.results ∧ x.results.all Except.isOk = true

/-- Interleaved dispatches are serializable: in every run of any number of transactions, with
keys that they contend for, failures and rollbacks, the committed rows and every answer are
those of the committed transactions executed one at a time in the order of their commits. -/
theorem interleavings_are_serializable {as : List TxLabel} {s : Server}
    (reached : server.run Server.start as = some s) : Serializable as s := by
  obtain ⟨inv, traced⟩ := traced_run reached
  have ordered := ordered_run reached
  refine ⟨ordered.once, ordered.members, ?_, contents_visible inv traced ordered, ?_⟩
  · intro x mem
    have told := ordered.told x mem
    exact ⟨congrArg Settled.calls told, congrArg Settled.results told⟩
  · intro before x after split
    have mem : x ∈ history as := by
      rw [split]
      exact List.mem_append_right _ List.mem_cons_self
    refine ⟨ordered.answers before x after split, ?_⟩
    have results : x.results = resultsOf x.tx s.log := congrArg Settled.results (ordered.told x mem)
    have done := (ordered.members x.tx).mp (List.mem_map_of_mem mem)
    rw [results, List.all_eq_true]
    intro result listed
    obtain ⟨y, entry, rfl⟩ := List.mem_map.mp listed
    obtain ⟨logged, own⟩ := List.mem_filter.mp (List.mem_reverse.mp entry)
    have same : y.tx = x.tx := of_decide_eq_true own
    exact inv.finished y logged (same ▸ done)

/-- The second transaction waits for the key of the first, then is told of its event; an
unkeyed event of the third is committed between them. -/
def overlapping : List TxLabel :=
  [.begin, .begin, .begin,
    .call 0 (sampleCall "order.created" (some "order:42") 1#128),
    .call 1 (sampleCall "order.created" (some "order:42") 2#128),
    .call 2 (sampleCall "audit" none 3#128), .reserve 0, .reserve 2, .insert 2, .insert 0,
    .commit 2, .push 0, .commit 0, .reserve 1, .commit 1]

theorem interleavings_are_serializable_overlapping :
    ∃ s, server.run Server.start overlapping = some s ∧ Serializable overlapping s ∧
      (history overlapping).map Settled.tx = [2, 0, 1] := by
  have runs : (server.run Server.start overlapping).isSome = true := by decide
  have order : (history overlapping).map Settled.tx = [2, 0, 1] := by decide
  obtain ⟨s, reached⟩ := Option.isSome_iff_exists.mp runs
  exact ⟨s, reached, interleavings_are_serializable reached, order⟩

theorem history_ids {h : List Settled} {s : Server} (inv : Inv s) (ordered : InCommitOrder h s) :
    (idsOf (h.map Settled.transaction)).Nodup := by
  have told := ordered.told
  have once := ordered.once
  clear ordered
  have calls : ∀ x ∈ h, ∀ c ∈ x.calls, ∃ y ∈ s.log, y.tx = x.tx ∧ y.call = c := by
    intro x mem c call
    have own : x.calls = callsOf x.tx s.log := congrArg Settled.calls (told x mem)
    rw [own] at call
    obtain ⟨y, entry, same⟩ := List.mem_map.mp call
    obtain ⟨logged, mine⟩ := List.mem_filter.mp (List.mem_reverse.mp entry)
    exact ⟨y, logged, of_decide_eq_true mine, same⟩
  have each : ∀ x ∈ h, (x.calls.map Call.eventId).Nodup := by
    intro x mem
    have own : x.calls = callsOf x.tx s.log := congrArg Settled.calls (told x mem)
    rw [own]
    unfold callsOf entriesOf
    rw [List.map_map, List.map_reverse, List.nodup_reverse]
    exact inv.once.sublist (List.filter_sublist.map _)
  clear told
  induction h with
  | nil => exact List.nodup_nil
  | cons x h ih =>
    rw [List.map_cons, List.nodup_cons] at once
    have rest := ih once.2 (fun y mem => calls y (List.mem_cons_of_mem x mem))
      fun y mem => each y (List.mem_cons_of_mem x mem)
    have split : idsOf ((x :: h).map Settled.transaction) =
        x.calls.map Call.eventId ++ idsOf (h.map Settled.transaction) := by
      unfold idsOf
      rw [List.map_cons, List.flatMap_cons, List.map_append]
      rfl
    rw [split]
    refine List.nodup_append.mpr ⟨each x List.mem_cons_self, rest, ?_⟩
    intro eventId mine theirs other same
    subst same
    obtain ⟨c, call, ids⟩ := List.mem_map.mp mine
    unfold idsOf at other
    obtain ⟨c', call', ids'⟩ := List.mem_map.mp other
    obtain ⟨tx, listed, inTx⟩ := List.mem_flatMap.mp call'
    obtain ⟨y, mem, rfl⟩ := List.mem_map.mp listed
    obtain ⟨u, logged, own, rfl⟩ := calls x List.mem_cons_self c call
    obtain ⟨v, logged', own', rfl⟩ := calls y (List.mem_cons_of_mem x mem) c' inTx
    have equal : u = v := List.inj_on_of_nodup_map inv.once logged logged' (ids.trans ids'.symm)
    have txs : x.tx = y.tx := by rw [← own, ← own', equal]
    exact once.1 (txs ▸ List.mem_map_of_mem mem)

end RustEvents.Dispatch.Serial
