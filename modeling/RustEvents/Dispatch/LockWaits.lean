/- module: RustEvents/Dispatch/LockWaits
   layer: system
   source: src/outbox.rs (idempotency reservation), migrations/20260513000001_v01_outbox_init.sql (dispatch_keys)
   digest: Transactions that wait for each other's keys: where every transaction takes its keys in one common order, all of them end. -/

import RustEvents.Foundation.Drives
import RustEvents.Foundation.LockOrder
import RustEvents.Foundation.Records
import RustEvents.Dispatch.Fanout
import RustEvents.Dispatch.Ownership
import Mathlib.Algebra.GroupWithZero.Nat
import Mathlib.Data.Prod.Lex
import Mathlib.Data.String.Basic

set_option autoImplicit false
set_option relaxedAutoImplicit false

namespace RustEvents.Dispatch.LockWaits

open RustEvents.Foundation.LabelledRuns (Machine)
open RustEvents.Foundation.LockOrder (Holding)
open RustEvents.Model.Errors
open RustEvents.Model.Schema
open RustEvents.Model.Dispatch
open RustEvents.Dispatch.Effects
open RustEvents.Dispatch.Fanout (sampleCall)
open RustEvents.Dispatch.Concurrent
open RustEvents.Dispatch.Ownership

/-- The key that a label asks for, with its transaction. -/
def asked : TxLabel → List (ℕ × (String × String))
  | .call t c => c.key.toList.map fun key => (t, key)
  | _ => []

/-- Every transaction makes its keyed dispatches in one order of the keys. -/
def Ascending {α : Type} [PartialOrder α] (pos : String × String ↪ α) (as : List TxLabel) : Prop :=
  (as.flatMap asked).Pairwise fun p q => p.1 = q.1 → pos p.2 ≤ pos q.2

/-- The steps that bring transactions to their ends: the next statement of a call in progress,
and COMMIT or ROLLBACK between calls. Nothing is begun and no call is cut off. -/
def finishing (s : Server) : TxLabel → Bool
  | .begin => false
  | .call _ _ => false
  | .reserve _ => true
  | .insert _ => true
  | .push _ => true
  | .commit _ => true
  | .rollback t => (s.open? t).any fun p => p.call?.isNone

def finisher : Machine Server TxLabel := server.restrict finishing

/-- What becomes of the key locks: who holds one, and what was asked for before. -/
structure Queued (past : List (ℕ × (String × String))) (s : Server) : Prop where
  known : ∀ key t, (key, t) ∈ s.locks → t < s.txs.length
  single : ∀ key t u, (key, t) ∈ s.locks → (key, u) ∈ s.locks →
    s.status t = some .active → s.status u = some .active → t = u
  held : ∀ key t, (key, t) ∈ s.locks → (t, key) ∈ past
  asking : ∀ t c key, s.txs[t]? = some ⟨.active, .reserving c⟩ → c.key = some key →
    ∃ front back, past = front ++ (t, key) :: back ∧ ∀ k, (k, t) ∈ s.locks → (t, k) ∈ front

private theorem queued_start : Queued [] Server.start := by
  refine ⟨?_, ?_, ?_, ?_⟩ <;> simp [Server.start]

section Steps

variable {past : List (ℕ × (String × String))} {s s' : Server}

private theorem Queued.later (queued : Queued past s) (more : List (ℕ × (String × String))) {t : ℕ}
    {c : Call} {key : String × String} (stage : s.txs[t]? = some ⟨.active, .reserving c⟩)
    (keyed : c.key = some key) :
    ∃ front back, past ++ more = front ++ (t, key) :: back ∧
      ∀ k, (k, t) ∈ s.locks → (t, k) ∈ front := by
  obtain ⟨front, back, split, before⟩ := queued.asking t c key stage keyed
  refine ⟨front, back ++ more, ?_, before⟩
  rw [split, List.append_assoc, List.cons_append]

private theorem queued_kept {more : List (ℕ × (String × String))} (queued : Queued past s)
    (longer : s.txs.length ≤ s'.txs.length) (locks : s'.locks = s.locks)
    (alive : ∀ t < s.txs.length, s'.status t = some .active → s.status t = some .active)
    (asking : ∀ t c key, s'.txs[t]? = some ⟨.active, .reserving c⟩ → c.key = some key →
      ∃ front back, past ++ more = front ++ (t, key) :: back ∧
        ∀ k, (k, t) ∈ s.locks → (t, k) ∈ front) : Queued (past ++ more) s' := by
  refine ⟨?_, ?_, ?_, ?_⟩
  · intro key t lock
    rw [locks] at lock
    exact (queued.known key t lock).trans_le longer
  · intro key t u lock lock' open_ open_'
    rw [locks] at lock lock'
    exact queued.single key t u lock lock' (alive t (queued.known key t lock) open_)
      (alive u (queued.known key u lock') open_')
  · intro key t lock
    rw [locks] at lock
    exact List.mem_append_left _ (queued.held key t lock)
  · rw [locks]
    exact asking

private theorem queued_moved {t : ℕ} {p : Progress} {tx : TxState} (queued : Queued past s)
    (stage : s.txs[t]? = some ⟨.active, p⟩) (txs : s'.txs = s.txs.set t tx)
    (locks : s'.locks = s.locks) (quiet : ∀ c, tx ≠ ⟨.active, .reserving c⟩) :
    Queued (past ++ []) s' := by
  have get : ∀ u : ℕ, s'.txs[u]? = if t = u then some tx else s.txs[u]? := by
    intro u
    rw [txs, get_set stage]
  refine queued_kept queued ?_ locks ?_ ?_
  · rw [txs, List.length_set]
  · intro u _ open_
    unfold Server.status at open_ ⊢
    rw [get] at open_
    split at open_
    · next same =>
      rw [← same, stage]
      rfl
    · exact open_
  · intro u c key found keyed
    rw [get] at found
    split at found
    · exact absurd (Option.some.inj found) (quiet c)
    · exact queued.later [] found keyed

private theorem free_alone {t u : ℕ} {c : Call} {key : String × String}
    (free : s.blocked t c = false)
    (passed : (prepare c).isOk = true) (reached : c.faults.reserve = none)
    (keyed : c.key = some key) (lock : (key, u) ∈ s.locks) (open_ : s.status u = some .active) :
    u = t := by
  by_contra other
  have waits : s.waits t key = true := by
    simp only [Server.waits, List.any_eq_true]
    exact ⟨_, lock, by simp [other, open_]⟩
  simp [Server.blocked, passed, reached, keyed, waits] at free

private theorem queued_locked {t : ℕ} {c : Call} {p : Progress} (queued : Queued past s)
    (stage : s.txs[t]? = some ⟨.active, .reserving c⟩)
    (alone : ∀ key, c.key = some key → ∀ u, (key, u) ∈ s.locks → s.status u = some .active → u = t)
    (txs : s'.txs = s.setProgress t p) (locks : s'.locks = s.locked t c)
    (quiet : ∀ d, p ≠ .reserving d) : Queued (past ++ []) s' := by
  have status : ∀ u, s'.status u = s.status u := status_progress stage txs
  have lock_cases : ∀ key u, (key, u) ∈ s'.locks → c.key = some key ∧ u = t ∨ (key, u) ∈ s.locks := by
    intro key u lock
    rw [locks] at lock
    rcases List.mem_append.mp lock with new | old
    · obtain ⟨k, keyed, eqn⟩ := Option.map_eq_some_iff.mp (Option.mem_toList.mp new)
      cases eqn
      exact .inl ⟨keyed, rfl⟩
    · exact .inr old
  have bound : t < s.txs.length := (List.getElem?_eq_some_iff.mp stage).1
  rw [List.append_nil]
  refine ⟨?_, ?_, ?_, ?_⟩
  · intro key u lock
    rw [txs, Server.setProgress, List.length_set]
    rcases lock_cases key u lock with ⟨-, rfl⟩ | old
    · exact bound
    · exact queued.known key u old
  · intro key u v lock lock' open_ open_'
    rw [status] at open_ open_'
    rcases lock_cases key u lock with ⟨keyed, rfl⟩ | old
    · rcases lock_cases key v lock' with ⟨-, rfl⟩ | old'
      · rfl
      · exact (alone key keyed v old' open_').symm
    · rcases lock_cases key v lock' with ⟨keyed, rfl⟩ | old'
      · exact alone key keyed u old open_
      · exact queued.single key u v old old' open_ open_'
  · intro key u lock
    rcases lock_cases key u lock with ⟨keyed, rfl⟩ | old
    · obtain ⟨front, back, split, -⟩ := queued.asking _ c key stage keyed
      rw [split]
      exact List.mem_append_right _ List.mem_cons_self
    · exact queued.held key u old
  · intro u d key found keyed
    rw [txs, Server.setProgress, get_set stage] at found
    split at found
    · cases Option.some.inj found
      exact absurd rfl (quiet d)
    · next other =>
      obtain ⟨front, back, split, before⟩ := queued.asking u d key found keyed
      refine ⟨front, back, split, ?_⟩
      intro k lock
      rcases lock_cases k u lock with ⟨-, rfl⟩ | old
      · exact absurd rfl other
      · exact before k old

private theorem queued_reserved {t : ℕ} {c : Call} (queued : Queued past s)
    (stage : s.txs[t]? = some ⟨.active, .reserving c⟩) (free : s.blocked t c = false) :
    Queued (past ++ []) (s.reserved t c) := by
  have done := reserve_cases c s.heap
  generalize result : reserveStep c s.heap = after at done
  cases done with
  | rejected e failed =>
    simp only [Server.reserved, result]
    exact queued_moved queued stage rfl rfl (by simp)
  | unreserved e payload handlerIds key prepared keyed cause =>
    simp only [Server.reserved, result]
    exact queued_moved queued stage rfl rfl (by simp)
  | duplicate payload handlerIds key row passed keyed reached found =>
    simp only [Server.reserved, result]
    refine queued_locked queued stage ?_ rfl rfl (by simp)
    intro key keyed u lock open_
    exact free_alone free (by rw [passed]; rfl) reached keyed lock open_
  | granted payload handlerIds db1 passed reserves =>
    simp only [Server.reserved, result]
    refine queued_locked queued stage ?_ rfl rfl (by simp)
    intro key keyed u lock open_
    obtain ⟨text, written, -⟩ := Option.map_eq_some_iff.mp keyed
    exact free_alone free (by rw [passed]; rfl) (reserves.free text written).1 keyed lock open_

private theorem queued_inserted {t : ℕ} {c : Call} {payload : Bytes} {handlerIds : List String}
    (queued : Queued past s)
    (stage : s.txs[t]? = some ⟨.active, .inserting c payload handlerIds⟩) :
    Queued (past ++ []) (s.inserted t c payload handlerIds) := by
  generalize result : insertStep c payload handlerIds s.heap = after
  obtain ⟨heap, inserted⟩ := after
  cases inserted with
  | returned answer =>
    simp only [Server.inserted, result]
    exact queued_moved queued stage rfl rfl (by simp)
  | pushing handlerIds =>
    simp only [Server.inserted, result]
    exact queued_moved queued stage rfl rfl (by simp)

private theorem queued_step {a : TxLabel} (queued : Queued past s)
    (taken : server.step s a = some s') : Queued (past ++ asked a) s' := by
  cases serverStep_sound taken with
  | begin =>
    have old : ∀ (t : ℕ) (tx : TxState), (s.txs ++ [⟨.active, .idle⟩])[t]? = some tx →
        s.txs[t]? = some tx ∨ tx = ⟨.active, .idle⟩ := by
      intro t tx found
      rw [List.getElem?_append] at found
      split at found
      · exact .inl found
      · exact .inr (List.mem_singleton.mp (List.mem_of_getElem? found))
    refine queued_kept queued ?_ rfl ?_ ?_
    · simp
    · intro t bound open_
      unfold Server.status at open_ ⊢
      rwa [List.getElem?_append_left bound] at open_
    · intro t c key found keyed
      rcases old t _ found with found | idle
      · exact queued.later [] found keyed
      · cases idle
  | call t c idle fresh =>
    have get := get_set idle ⟨.active, .reserving c⟩
    refine queued_kept queued ?_ rfl ?_ ?_
    · simp [Server.setProgress]
    · intro u _ open_
      rwa [status_progress idle rfl] at open_
    · intro u d key found keyed
      change (s.txs.set t ⟨.active, .reserving c⟩)[u]? = _ at found
      rw [get] at found
      split at found
      · next same =>
        cases Option.some.inj found
        subst same
        refine ⟨past, [], ?_, fun k lock => queued.held k t lock⟩
        simp [asked, keyed]
      · exact queued.later _ found keyed
  | reserve t c stage free => exact queued_reserved queued stage free
  | insert t c payload handlerIds stage => exact queued_inserted queued stage
  | push t c handlerIds stage => exact queued_moved queued stage rfl rfl (by simp)
  | commit t idle may => exact queued_moved queued idle rfl rfl (by simp)
  | rollback t progress stage => exact queued_moved queued stage rfl rfl (by simp)

end Steps

private theorem queued_run {as : List TxLabel} {s : Server}
    (reached : server.run Server.start as = some s) : Queued (as.flatMap asked) s := by
  have tracked : Queued (server.record (fun _ a _ => asked a) Server.start as) s :=
    Machine.record_invariant (fun past s a t queued taken => queued_step queued taken)
      queued_start reached
  rwa [Machine.record_labels reached] at tracked

/-- The open transactions as agents: a call in front of its upsert asks for its key, unless it
fails there anyway. -/
def holding (s : Server) : Holding (Fin s.txs.length) (String × String) where
  holds t key := (key, t.val) ∈ s.locks ∧ s.status t.val = some .active
  asks t key := ∃ c, s.txs[t.val]? = some ⟨.active, .reserving c⟩ ∧ c.key = some key

section Order

variable {α : Type} [PartialOrder α] {pos : String × String ↪ α} {as : List TxLabel} {s : Server}

private theorem holding_ordered (reached : server.run Server.start as = some s)
    (ascending : Ascending pos as) : (holding s).Ordered pos := by
  have queued := queued_run reached
  constructor
  · rintro t u key ⟨lock, open_⟩ ⟨lock', open_'⟩
    exact Fin.ext (queued.single key t.val u.val lock lock' open_ open_')
  · rintro t key k ⟨c, stage, keyed⟩ ⟨lock, -⟩
    obtain ⟨front, back, split, before⟩ := queued.asking t.val c key stage keyed
    unfold Ascending at ascending
    rw [split] at ascending
    exact (List.pairwise_append.mp ascending).2.2 _ (before k lock) _ List.mem_cons_self rfl

private theorem open?_of {t : ℕ} {p : Progress} (stage : s.txs[t]? = some ⟨.active, p⟩) :
    s.open? t = some p := by
  unfold Server.open?
  rw [stage]
  rfl

private theorem unblocked_of_free {t : Fin s.txs.length} {c : Call}
    (stage : s.txs[t.val]? = some ⟨.active, .reserving c⟩)
    (free : ∀ u, ¬ (holding s).Waits t u) : s.blocked t.val c = false := by
  by_contra blocked
  simp only [Server.blocked, Bool.not_eq_false, Bool.and_eq_true] at blocked
  obtain ⟨key, keyed, waits⟩ := (Option.any_eq_true ..).mp blocked.2
  obtain ⟨⟨locked, holder⟩, lock, facts⟩ := List.any_eq_true.mp waits
  simp only [Bool.and_eq_true, decide_eq_true_eq] at facts
  obtain ⟨⟨same, other⟩, active⟩ := facts
  subst same
  obtain ⟨tx, found, -⟩ := Option.map_eq_some_iff.mp active
  have bound : holder < s.txs.length := (List.getElem?_eq_some_iff.mp found).1
  apply free ⟨holder, bound⟩
  refine ⟨?_, locked, ⟨c, stage, keyed⟩, lock, active⟩
  intro equal
  exact other (congrArg Fin.val equal).symm

/-- A transaction that waits for nobody has a finishing step. -/
private theorem free_goes_on {t : Fin s.txs.length} {p : Progress}
    (stage : s.txs[t.val]? = some ⟨.active, p⟩) (free : ∀ u, ¬ (holding s).Waits t u) :
    ∃ b s', finisher.step s b = some s' := by
  have takes : ∀ b, finishing s b = true → Server.freshId s b = true → (∃ s', s.step b = some s') →
      ∃ b s', finisher.step s b = some s' := by
    rintro b finishes fresh ⟨s', step⟩
    exact ⟨b, s', Machine.restrict_step.mpr ⟨finishes, Machine.restrict_step.mpr ⟨fresh, step⟩⟩⟩
  cases p with
  | idle =>
    apply takes (.rollback t.val) _ rfl
    · simp only [Server.step, open?_of stage]
      exact ⟨_, rfl⟩
    · simp only [finishing, open?_of stage]
      rfl
  | reserving c =>
    apply takes (.reserve t.val) rfl rfl
    simp only [Server.step, open?_of stage, unblocked_of_free stage free]
    exact ⟨_, rfl⟩
  | inserting c payload handlerIds =>
    apply takes (.insert t.val) rfl rfl
    simp only [Server.step, open?_of stage]
    exact ⟨_, rfl⟩
  | pushing c handlerIds =>
    apply takes (.push t.val) rfl rfl
    simp only [Server.step, open?_of stage]
    exact ⟨_, rfl⟩

private theorem finisher_goes_on (reached : server.run Server.start as = some s)
    (ascending : Ascending pos as) {t : ℕ} {p : Progress} (open_ : s.open? t = some p) :
    ∃ b s', finisher.step s b = some s' := by
  have stage := open?_some open_
  have bound : t < s.txs.length := (List.getElem?_eq_some_iff.mp stage).1
  obtain ⟨u, chain, free⟩ := (holding_ordered reached ascending).reaches_free ⟨t, bound⟩
  -- the last of the chain is open: it is `t`, or somebody waits for a key that it holds
  have last : ∃ q, s.txs[u.val]? = some ⟨.active, q⟩ := by
    rcases chain.cases_tail with same | ⟨v, -, -, key, -, -, alive⟩
    · rw [same]
      exact ⟨p, stage⟩
    · obtain ⟨tx, found, active⟩ := Option.map_eq_some_iff.mp alive
      refine ⟨tx.progress, ?_⟩
      rw [found, ← active]
  obtain ⟨q, here⟩ := last
  exact free_goes_on here free

end Order

/-- The steps that an open transaction may still take before it has ended. -/
def stepsLeft (tx : TxState) : ℕ :=
  match tx.status, tx.progress with
  | .active, .reserving _ => 4
  | .active, .inserting _ _ _ => 3
  | .active, .pushing _ _ => 2
  | .active, .idle => 1
  | .committed, _ => 0
  | .rolledBack, _ => 0

/-- What a finishing step does: one open transaction comes nearer to its end, and its call goes
on or returns. -/
structure Advances (s s' : Server) (t : ℕ) (p : Progress) (tx : TxState) : Prop where
  stage : s.txs[t]? = some ⟨.active, p⟩
  txs : s'.txs = s.txs.set t tx
  nearer : stepsLeft tx < stepsLeft ⟨.active, p⟩
  log : ∀ x ∈ s.log, x ∈ s'.log
  call : ∀ c, p.call? = some c → (tx.status = .active ∧ tx.progress.call? = some c) ∨
    ∃ x ∈ s'.log, x.tx = t ∧ x.call = c

section Advance

variable {s s' : Server} {t : ℕ}

private theorem advances_answer {p : Progress} {c : Call} {heap : Database}
    {locks : List ((String × String) × ℕ)} {result : Except DispatchError DispatchOutcome}
    (stage : s.txs[t]? = some ⟨.active, p⟩) (call : p.call? = some c) :
    Advances s (s.answer t c heap locks result) t p ⟨.active, .idle⟩ := by
  refine ⟨stage, rfl, ?_, fun _ => List.mem_cons_of_mem _, ?_⟩
  · cases p with
    | idle => cases call
    | reserving d => show 1 < 4; omega
    | inserting d payload handlerIds => show 1 < 3; omega
    | pushing d handlerIds => show 1 < 2; omega
  · intro d current
    cases Option.some.inj (call.symm.trans current)
    exact .inr ⟨⟨t, c, result⟩, List.mem_cons_self, rfl, rfl⟩

private theorem advances_reserved {c : Call} (stage : s.txs[t]? = some ⟨.active, .reserving c⟩) :
    ∃ tx, Advances s (s.reserved t c) t (.reserving c) tx := by
  generalize result : reserveStep c s.heap = after
  obtain ⟨heap, reserved⟩ := after
  cases reserved with
  | returned answer =>
    cases answer with
    | ok outcome =>
      simp only [Server.reserved, result]
      exact ⟨_, advances_answer stage rfl⟩
    | error e =>
      simp only [Server.reserved, result]
      exact ⟨_, advances_answer stage rfl⟩
  | inserting payload handlerIds =>
    simp only [Server.reserved, result]
    refine ⟨⟨.active, .inserting c payload handlerIds⟩, stage, rfl, ?_, fun _ mem => mem, ?_⟩
    · show 3 < 4
      omega
    · intro d current
      exact .inl ⟨rfl, current⟩

private theorem advances_inserted {c : Call} {payload : Bytes} {handlerIds : List String}
    (stage : s.txs[t]? = some ⟨.active, .inserting c payload handlerIds⟩) :
    ∃ tx, Advances s (s.inserted t c payload handlerIds) t (.inserting c payload handlerIds) tx := by
  generalize result : insertStep c payload handlerIds s.heap = after
  obtain ⟨heap, inserted⟩ := after
  cases inserted with
  | returned answer =>
    simp only [Server.inserted, result]
    exact ⟨_, advances_answer stage rfl⟩
  | pushing handlerIds =>
    simp only [Server.inserted, result]
    refine ⟨⟨.active, .pushing c handlerIds⟩, stage, rfl, ?_, fun _ mem => mem, ?_⟩
    · show 2 < 3
      omega
    · intro d current
      exact .inl ⟨rfl, current⟩

private theorem advances_ended {status : TxStatus} (stage : s.txs[t]? = some ⟨.active, .idle⟩)
    (ended : status ≠ .active) (txs : s'.txs = s.txs.set t ⟨status, .idle⟩)
    (log : s'.log = s.log) : Advances s s' t .idle ⟨status, .idle⟩ := by
  refine ⟨stage, txs, ?_, ?_, ?_⟩
  · cases status with
    | active => exact absurd rfl ended
    | committed => show 0 < 1; omega
    | rolledBack => show 0 < 1; omega
  · rw [log]
    exact fun _ mem => mem
  · intro c current
    cases current

private theorem finisher_advances {b : TxLabel} (taken : finisher.step s b = some s') :
    ∃ t p tx, Advances s s' t p tx := by
  obtain ⟨finishes, step⟩ := Machine.restrict_step.mp taken
  cases serverStep_sound step with
  | begin => cases finishes
  | call t c idle fresh => cases finishes
  | reserve t c stage free =>
    obtain ⟨tx, advances⟩ := advances_reserved stage
    exact ⟨t, _, tx, advances⟩
  | insert t c payload handlerIds stage =>
    obtain ⟨tx, advances⟩ := advances_inserted stage
    exact ⟨t, _, tx, advances⟩
  | push t c handlerIds stage => exact ⟨t, _, _, advances_answer stage rfl⟩
  | commit t idle may => exact ⟨t, _, _, advances_ended idle (by simp) rfl rfl⟩
  | rollback t progress stage =>
    simp only [finishing, open?_of stage, Option.any_some] at finishes
    cases progress with
    | idle => exact ⟨t, _, _, advances_ended stage (by simp) rfl rfl⟩
    | reserving c => cases finishes
    | inserting c payload handlerIds => cases finishes
    | pushing c handlerIds => cases finishes

end Advance

def Server.stepsLeft (s : Server) : ℕ := (s.txs.map LockWaits.stepsLeft).sum

def Server.openCount (s : Server) : ℕ := s.txs.countP fun tx => tx.status = .active

private theorem sum_set_lt {β : Type} {f : β → ℕ} {l : List β} {i : ℕ} {x y : β}
    (found : l[i]? = some x) (less : f y < f x) : ((l.set i y).map f).sum < (l.map f).sum := by
  induction l generalizing i with
  | nil => cases found
  | cons b l ih =>
    cases i with
    | zero =>
      cases Option.some.inj found
      simp only [List.set_cons_zero, List.map_cons, List.sum_cons]
      omega
    | succ i =>
      have rest := ih (i := i) found
      simp only [List.set_cons_succ, List.map_cons, List.sum_cons]
      omega

private theorem stepsLeft_falls {s s' : Server} {b : TxLabel}
    (taken : finisher.step s b = some s') : Server.stepsLeft s' < Server.stepsLeft s := by
  obtain ⟨t, p, tx, advances⟩ := finisher_advances taken
  unfold Server.stepsLeft
  rw [advances.txs]
  exact sum_set_lt advances.stage advances.nearer

private theorem stepsLeft_le (s : Server) : Server.stepsLeft s ≤ 4 * Server.openCount s := by
  unfold Server.stepsLeft Server.openCount
  induction s.txs with
  | nil => exact Nat.le_refl 0
  | cons tx txs ih =>
    rw [List.map_cons, List.sum_cons, List.countP_cons]
    obtain ⟨status, progress⟩ := tx
    cases status with
    | active =>
      have one : LockWaits.stepsLeft ⟨.active, progress⟩ ≤ 4 := by
        cases progress <;> simp [LockWaits.stepsLeft]
      simp only [decide_true, if_true]
      omega
    | committed =>
      show 0 + _ ≤ _
      omega
    | rolledBack =>
      show 0 + _ ≤ _
      omega

/-- A call that is in progress, or has returned. -/
def Reaches (s : Server) (t : ℕ) (c : Call) : Prop :=
  (∃ p, s.txs[t]? = some ⟨.active, p⟩ ∧ p.call? = some c) ∨ ∃ x ∈ s.log, x.tx = t ∧ x.call = c

private theorem reaches_step {s s' : Server} {b : TxLabel} {t : ℕ} {c : Call}
    (before : Reaches s t c) (taken : finisher.step s b = some s') : Reaches s' t c := by
  obtain ⟨u, q, tx, advances⟩ := finisher_advances taken
  rcases before with ⟨p, stage, current⟩ | ⟨x, mem, facts⟩
  · by_cases same : u = t
    · subst same
      have equal : q = p := by
        have found := advances.stage
        rw [stage] at found
        cases found
        rfl
      rw [← equal] at current
      rcases advances.call c current with ⟨active, still⟩ | returned
      · refine .inl ⟨tx.progress, ?_, still⟩
        rw [advances.txs, get_set advances.stage, if_pos rfl, ← active]
      · exact .inr returned
    · refine .inl ⟨p, ?_, current⟩
      rw [advances.txs, get_set advances.stage, if_neg same]
      exact stage
  · exact .inr ⟨x, advances.log x mem, facts⟩

section Ends

variable {α : Type} [PartialOrder α] {as bs : List TxLabel} {s s' : Server}

private theorem finisher_asks {b : TxLabel} (taken : finisher.step s b = some s') :
    server.step s b = some s' ∧ asked b = [] := by
  obtain ⟨finishes, step⟩ := Machine.restrict_step.mp taken
  refine ⟨step, ?_⟩
  cases b with
  | call t c => cases finishes
  | begin => rfl
  | reserve t => rfl
  | insert t => rfl
  | push t => rfl
  | commit t => rfl
  | rollback t => rfl

private theorem finisher_reached {pos : String × String ↪ α}
    (reached : server.run Server.start as = some s)
    (ascending : Ascending pos as) (finishes : finisher.run s bs = some s') :
    ∃ cs, server.run Server.start cs = some s' ∧ Ascending pos cs := by
  refine Machine.run_invariant
    (I := fun s => ∃ cs, server.run Server.start cs = some s ∧ Ascending pos cs) ?_
    ⟨as, reached, ascending⟩ finishes
  rintro s b s' ⟨cs, run, order⟩ taken
  obtain ⟨step, quiet⟩ := finisher_asks taken
  refine ⟨cs ++ [b], ?_, ?_⟩
  · rw [Machine.run_append, run]
    exact Machine.run_cons.mpr ⟨s', step, rfl⟩
  · unfold Ascending
    rw [List.flatMap_append, List.flatMap_singleton, quiet, List.append_nil]
    exact order

/-- No deadlock: once nothing new is begun, transactions that take their keys in a common order
are through after at most four steps each, in whatever order these are taken, and stop only when
all have ended. No call was cut off on the way: each one in progress has returned. -/
theorem ascending_transactions_end (pos : String × String ↪ α)
    (reached : server.run Server.start as = some s) (ascending : Ascending pos as)
    (finishes : finisher.run s bs = some s') :
    bs.length ≤ 4 * Server.openCount s ∧
    ((∀ b, finisher.step s' b = none) → (∀ t, s'.open? t = none) ∧
      ∀ t p c, s.open? t = some p → p.call? = some c → ∃ x ∈ s'.log, x.tx = t ∧ x.call = c) := by
  constructor
  · have bounded := Machine.run_length_le (fun s b s' => stepsLeft_falls) finishes
    have open_ := stepsLeft_le s
    omega
  · intro stuck
    have ended : ∀ t, s'.open? t = none := by
      intro t
      obtain ⟨cs, run, order⟩ := finisher_reached reached ascending finishes
      cases found : s'.open? t with
      | none => rfl
      | some p =>
        obtain ⟨b, u, step⟩ := finisher_goes_on run order found
        rw [stuck b] at step
        cases step
    refine ⟨ended, ?_⟩
    intro t p c found current
    have through : Reaches s' t c :=
      Machine.run_invariant (I := fun s => Reaches s t c)
        (fun s b s' before taken => reaches_step before taken)
        (.inl ⟨p, open?_some found, current⟩) finishes
    rcases through with ⟨q, stage, -⟩ | returned
    · have still := open?_of stage
      rw [ended t] at still
      cases still
    · exact returned

end Ends

/-- Tenant before key, both by their characters. -/
def byText : String × String ↪ Lex (String × String) := ⟨toLex, toLex.injective⟩

/-- Two transactions dispatch under the keys `a` and `b`; the second one waits for `a`. -/
def contended : List TxLabel :=
  [.begin, .begin, .call 0 (sampleCall "order.created" (some "a") 1#128), .reserve 0,
    .call 1 (sampleCall "order.created" (some "a") 2#128), .insert 0, .push 0,
    .call 0 (sampleCall "order.created" (some "b") 3#128)]

/-- The first one goes on and commits; then the second one finds its duplicate. -/
def relaxed : List TxLabel :=
  [.reserve 0, .insert 0, .push 0, .commit 0, .reserve 1, .commit 1]

theorem ascending_transactions_end_contended :
    ∃ s s', server.run Server.start contended = some s ∧ finisher.step s (.reserve 1) = none ∧
      finisher.run s relaxed = some s' ∧ relaxed.length ≤ 4 * Server.openCount s ∧
      ∀ t p c, s.open? t = some p → p.call? = some c → ∃ x ∈ s'.log, x.tx = t ∧ x.call = c := by
  have waits : ((server.run Server.start contended).map fun s =>
      (finisher.step s (.reserve 1)).isNone) = some true := by decide
  have ends : ((server.run Server.start contended).bind fun s => (finisher.run s relaxed).map fun s' =>
      s'.txs.map TxState.status) = some [.committed, .committed] := by decide
  have ascending : Ascending byText contended := by
    show List.Pairwise _ [(0, ("t1", "a")), (1, ("t1", "a")), (0, ("t1", "b"))]
    decide
  obtain ⟨s, reached, blocked⟩ := Option.map_eq_some_iff.mp waits
  rw [reached] at ends
  obtain ⟨s', finishes, statuses⟩ := Option.map_eq_some_iff.mp ends
  have stuck : ∀ b, finisher.step s' b = none := by
    intro b
    cases step : finisher.step s' b with
    | none => rfl
    | some u =>
      obtain ⟨t, p, tx, advances⟩ := finisher_advances step
      have active : TxStatus.active ∈ s'.txs.map TxState.status :=
        List.mem_map_of_mem (List.mem_of_getElem? advances.stage)
      rw [statuses] at active
      simp at active
  have all := ascending_transactions_end byText reached ascending finishes
  exact ⟨s, s', reached, Option.isNone_iff_eq_none.mp blocked, finishes, all.1, (all.2 stuck).2⟩

/-- The same keys in opposite orders: both transactions wait, and only an interruption helps. -/
def crossed : List TxLabel :=
  [.begin, .begin, .call 0 (sampleCall "order.created" (some "a") 1#128), .reserve 0,
    .insert 0, .push 0, .call 1 (sampleCall "order.created" (some "b") 2#128), .reserve 1,
    .insert 1, .push 1, .call 0 (sampleCall "order.created" (some "b") 3#128),
    .call 1 (sampleCall "order.created" (some "a") 4#128)]

example : (server.run Server.start crossed).map (fun s =>
    ((finisher.step s (.reserve 0)).isSome, (finisher.step s (.reserve 1)).isSome)) =
    some (false, false) := by decide

end RustEvents.Dispatch.LockWaits
