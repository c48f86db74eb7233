/- module: RustEvents/Foundation/Obligations
   layer: library
   digest: A ledger of obligations: each is entered once, settled at most once with a verdict that stays, and the open ones are what was entered less what was settled. -/

import RustEvents.Foundation.LabelledRuns
import Mathlib.Data.List.Nodup
import Mathlib.Data.List.Perm.Basic

set_option autoImplicit false
set_option relaxedAutoImplicit false

namespace RustEvents.Foundation.Obligations

open RustEvents.Foundation.LabelledRuns (Machine)

/-- Obligations in the order in which they were entered; one without a verdict is open. -/
structure Ledger (κ ν : Type*) where
  entries : List (κ × Option ν)
  distinct : (entries.map Prod.fst).Nodup

inductive Posting (κ ν : Type*) where
  | enter (k : κ)
  | settle (k : κ) (verdict : ν)

variable {κ ν : Type*}

/-- The keys that a list of postings enters. -/
def entered (ps : List (Posting κ ν)) : List κ :=
  ps.filterMap fun
    | .enter k => some k
    | .settle _ _ => none

/-- The keys that a list of postings settles. -/
def settled (ps : List (Posting κ ν)) : List κ :=
  ps.filterMap fun
    | .enter _ => none
    | .settle k _ => some k

namespace Ledger

variable (L : Ledger κ ν)

def empty : Ledger κ ν := ⟨[], List.nodup_nil⟩

def keys : List κ := L.entries.map Prod.fst

def owed : List κ := (L.entries.filter fun e => e.2.isNone).map Prod.fst

def closed : List κ := (L.entries.filter fun e => e.2.isSome).map Prod.fst

section Steps

variable [DecidableEq κ]

def enter (k : κ) : Option (Ledger κ ν) :=
  if fresh : k ∈ L.keys then none
  else some
    { entries := L.entries ++ [(k, none)]
      distinct := by
        rw [List.map_append, List.nodup_append]
        refine ⟨L.distinct, List.nodup_singleton k, ?_⟩
        intro a known b last same
        have own : b = k := List.mem_singleton.mp last
        apply fresh
        rw [← own, ← same]
        exact known }

/-- The entry after a verdict under `k`. -/
def settleEntry (k : κ) (verdict : ν) (e : κ × Option ν) : κ × Option ν :=
  if e.1 = k then (k, some verdict) else e

private theorem settleEntry_key (k : κ) (verdict : ν) (e : κ × Option ν) :
    (settleEntry k verdict e).1 = e.1 := by
  unfold settleEntry
  split
  · next same => exact same.symm
  · rfl

def settle (k : κ) (verdict : ν) : Option (Ledger κ ν) :=
  if k ∈ L.owed then
    some
      { entries := L.entries.map (settleEntry k verdict)
        distinct := by
          have same : (L.entries.map (settleEntry k verdict)).map Prod.fst =
              L.entries.map Prod.fst := by
            rw [List.map_map]
            apply List.map_congr_left
            intro e _
            exact settleEntry_key k verdict e
          rw [same]
          exact L.distinct }
  else none

def post : Posting κ ν → Option (Ledger κ ν)
  | .enter k => L.enter k
  | .settle k verdict => L.settle k verdict

end Steps

end Ledger

/-- The ledger refuses a key that it knows and a verdict on what is not open. -/
def ledger (κ ν : Type*) [DecidableEq κ] : Machine (Ledger κ ν) (Posting κ ν) :=
  ⟨fun L p => L.post p⟩

variable {L M : Ledger κ ν} {k : κ} {verdict : ν}

theorem mem_owed : k ∈ L.owed ↔ (k, none) ∈ L.entries := by
  unfold Ledger.owed
  rw [List.mem_map]
  constructor
  · rintro ⟨⟨j, o⟩, mem, rfl⟩
    obtain ⟨stored, none⟩ := List.mem_filter.mp mem
    cases o with
    | none => exact stored
    | some v => cases none
  · intro stored
    exact ⟨(k, none), List.mem_filter.mpr ⟨stored, rfl⟩, rfl⟩

theorem mem_closed : k ∈ L.closed ↔ ∃ v, (k, some v) ∈ L.entries := by
  unfold Ledger.closed
  rw [List.mem_map]
  constructor
  · rintro ⟨⟨j, o⟩, mem, rfl⟩
    obtain ⟨stored, some⟩ := List.mem_filter.mp mem
    cases o with
    | none => cases some
    | some v => exact ⟨v, stored⟩
  · rintro ⟨v, stored⟩
    exact ⟨(k, some v), List.mem_filter.mpr ⟨stored, rfl⟩, rfl⟩

theorem owed_nodup (L : Ledger κ ν) : L.owed.Nodup :=
  L.distinct.sublist (List.filter_sublist.map Prod.fst)

theorem closed_nodup (L : Ledger κ ν) : L.closed.Nodup :=
  L.distinct.sublist (List.filter_sublist.map Prod.fst)

theorem entry_unique {o o' : Option ν} (one : (k, o) ∈ L.entries) (other : (k, o') ∈ L.entries) :
    o = o' := by
  have same := List.inj_on_of_nodup_map L.distinct one other rfl
  exact congrArg Prod.snd same

theorem owed_add_closed (L : Ledger κ ν) : L.owed.length + L.closed.length = L.keys.length := by
  have split := List.length_eq_length_filter_add (l := L.entries) fun e => e.2.isNone
  have rest : (L.entries.filter fun e => !e.2.isNone) = L.entries.filter fun e => e.2.isSome := by
    apply List.filter_congr
    intro e _
    cases e.2 <;> rfl
  rw [rest] at split
  simp only [Ledger.owed, Ledger.closed, Ledger.keys, List.length_map]
  exact split.symm

section Steps

variable [DecidableEq κ]

private theorem enter_some (step : L.enter k = some M) :
    k ∉ L.keys ∧ M.entries = L.entries ++ [(k, none)] := by
  unfold Ledger.enter at step
  split at step
  · cases step
  · next fresh =>
    cases step
    exact ⟨fresh, rfl⟩

private theorem settle_some (step : L.settle k verdict = some M) :
    k ∈ L.owed ∧ M.entries = L.entries.map (Ledger.settleEntry k verdict) := by
  unfold Ledger.settle at step
  split at step
  · next known =>
    cases step
    exact ⟨known, rfl⟩
  · cases step

private theorem enter_isSome (fresh : k ∉ L.keys) :
    ∃ M, L.enter k = some M ∧ M.entries = L.entries ++ [(k, none)] := by
  unfold Ledger.enter
  rw [dif_neg fresh]
  exact ⟨_, rfl, rfl⟩

private theorem settle_isSome (verdict : ν) (known : k ∈ L.owed) :
    ∃ M, L.settle k verdict = some M ∧
      M.entries = L.entries.map (Ledger.settleEntry k verdict) := by
  unfold Ledger.settle
  rw [if_pos known]
  exact ⟨_, rfl, rfl⟩

private theorem mem_settled (known : k ∈ L.owed)
    (after : M.entries = L.entries.map (Ledger.settleEntry k verdict)) {j : κ} {o : Option ν} :
    (j, o) ∈ M.entries ↔ if j = k then o = some verdict else (j, o) ∈ L.entries := by
  rw [after, List.mem_map]
  constructor
  · rintro ⟨⟨i, o'⟩, stored, eqn⟩
    unfold Ledger.settleEntry at eqn
    split at eqn
    · cases eqn
      rw [if_pos rfl]
    · next other =>
      cases eqn
      rw [if_neg other]
      exact stored
  · intro facts
    split at facts
    · next same =>
      subst same facts
      refine ⟨(j, none), mem_owed.mp known, ?_⟩
      unfold Ledger.settleEntry
      rw [if_pos rfl]
    · next other =>
      refine ⟨(j, o), facts, ?_⟩
      unfold Ledger.settleEntry
      rw [if_neg other]

private theorem keys_settled (after : M.entries = L.entries.map (Ledger.settleEntry k verdict)) :
    M.keys = L.keys := by
  unfold Ledger.keys
  rw [after, List.map_map]
  apply List.map_congr_left
  intro e _
  exact Ledger.settleEntry_key k verdict e

private theorem closed_settled (known : k ∈ L.owed)
    (after : M.entries = L.entries.map (Ledger.settleEntry k verdict)) :
    M.closed.Perm (L.closed ++ [k]) := by
  have apart : k ∉ L.closed := by
    intro twice
    obtain ⟨v, stored⟩ := mem_closed.mp twice
    cases entry_unique (mem_owed.mp known) stored
  have nodup : (L.closed ++ [k]).Nodup := by
    rw [List.nodup_append]
    refine ⟨closed_nodup L, List.nodup_singleton k, ?_⟩
    intro a mem b last same
    have own : b = k := List.mem_singleton.mp last
    apply apart
    rw [← own, ← same]
    exact mem
  apply (List.perm_ext_iff_of_nodup (closed_nodup M) nodup).mpr
  intro j
  rw [mem_closed, List.mem_append, List.mem_singleton, mem_closed]
  constructor
  · rintro ⟨v, stored⟩
    have facts := (mem_settled known after).mp stored
    split at facts
    · next same => exact .inr same
    · exact .inl ⟨v, facts⟩
  · rintro (⟨v, stored⟩ | rfl)
    · refine ⟨v, (mem_settled known after).mpr ?_⟩
      rw [if_neg]
      · exact stored
      · rintro rfl
        cases entry_unique (mem_owed.mp known) stored
    · refine ⟨verdict, (mem_settled known after).mpr ?_⟩
      rw [if_pos rfl]

theorem enter_run {ks : List κ} (distinct : ks.Nodup) (fresh : ∀ k ∈ ks, k ∉ L.keys) :
    ∃ M, (ledger κ ν).run L (ks.map .enter) = some M ∧
      M.entries = L.entries ++ ks.map fun k => (k, none) := by
  induction ks generalizing L with
  | nil => exact ⟨L, rfl, (List.append_nil _).symm⟩
  | cons k ks ih =>
    rw [List.nodup_cons] at distinct
    obtain ⟨N, step, after⟩ := enter_isSome (fresh k List.mem_cons_self)
    have keys : N.keys = L.keys ++ [k] := by
      unfold Ledger.keys
      rw [after, List.map_append, List.map_singleton]
    have rest : ∀ j ∈ ks, j ∉ N.keys := by
      intro j mem known
      rw [keys] at known
      rcases List.mem_append.mp known with old | new
      · exact fresh j (List.mem_cons_of_mem k mem) old
      · rw [List.mem_singleton.mp new] at mem
        exact distinct.1 mem
    obtain ⟨M, run, entries⟩ := ih distinct.2 rest
    refine ⟨M, Machine.run_cons.mpr ⟨N, step, run⟩, ?_⟩
    rw [entries, after, List.map_cons, List.append_assoc]
    rfl

theorem settle_run {kvs : List (κ × ν)} (distinct : (kvs.map Prod.fst).Nodup)
    (known : ∀ kv ∈ kvs, kv.1 ∈ L.owed) :
    ∃ M, (ledger κ ν).run L (kvs.map fun kv => .settle kv.1 kv.2) = some M ∧ M.keys = L.keys ∧
      (∀ kv ∈ kvs, (kv.1, some kv.2) ∈ M.entries) ∧
      ∀ j o, j ∉ kvs.map Prod.fst → ((j, o) ∈ M.entries ↔ (j, o) ∈ L.entries) := by
  induction kvs generalizing L with
  | nil =>
    refine ⟨L, rfl, rfl, ?_, ?_⟩
    · intro kv mem
      cases mem
    · intro j o _
      exact Iff.rfl
  | cons kv kvs ih =>
    obtain ⟨k, v⟩ := kv
    rw [List.map_cons, List.nodup_cons] at distinct
    have here := known (k, v) List.mem_cons_self
    obtain ⟨N, step, after⟩ := settle_isSome v here
    have others : ∀ kv ∈ kvs, kv.1 ∈ N.owed := by
      intro kv mem
      have open_ := mem_owed.mp (known kv (List.mem_cons_of_mem _ mem))
      apply mem_owed.mpr
      apply (mem_settled here after).mpr
      rw [if_neg]
      · exact open_
      · intro same
        apply distinct.1
        rw [← same]
        exact List.mem_map_of_mem mem
    obtain ⟨M, run, keys, settled, spared⟩ := ih distinct.2 others
    refine ⟨M, Machine.run_cons.mpr ⟨N, step, run⟩, keys.trans (keys_settled after), ?_, ?_⟩
    · intro kv mem
      rcases List.mem_cons.mp mem with rfl | later
      · apply (spared k (some v) distinct.1).mpr
        apply (mem_settled here after).mpr
        rw [if_pos rfl]
      · exact settled kv later
    · intro j o absent
      rw [List.map_cons, List.mem_cons, not_or] at absent
      rw [spared j o absent.2, mem_settled here after, if_neg absent.1]

theorem keys_run {ps : List (Posting κ ν)} (run : (ledger κ ν).run L ps = some M) :
    M.keys = L.keys ++ entered ps := by
  induction ps generalizing L with
  | nil =>
    cases Option.some.inj run
    exact (List.append_nil _).symm
  | cons p ps ih =>
    obtain ⟨N, step, rest⟩ := Machine.run_cons.mp run
    rw [ih rest]
    change L.post p = some N at step
    cases p with
    | enter k =>
      obtain ⟨-, after⟩ := enter_some step
      have grown : N.keys = L.keys ++ [k] := by
        unfold Ledger.keys
        rw [after, List.map_append, List.map_singleton]
      rw [grown, List.append_assoc]
      rfl
    | settle k verdict =>
      obtain ⟨-, after⟩ := settle_some step
      rw [keys_settled after]
      rfl

private theorem closed_run {ps : List (Posting κ ν)} (run : (ledger κ ν).run L ps = some M) :
    M.closed.Perm (L.closed ++ settled ps) := by
  induction ps generalizing L with
  | nil =>
    cases Option.some.inj run
    have same : M.closed ++ settled ([] : List (Posting κ ν)) = M.closed := List.append_nil _
    rw [same]
  | cons p ps ih =>
    obtain ⟨N, step, rest⟩ := Machine.run_cons.mp run
    have later := ih rest
    change L.post p = some N at step
    cases p with
    | enter k =>
      obtain ⟨-, after⟩ := enter_some step
      have same : N.closed = L.closed := by
        unfold Ledger.closed
        rw [after, List.filter_append]
        have none : [(k, (none : Option ν))].filter (fun e => e.2.isSome) = [] := rfl
        rw [none, List.append_nil]
      rw [same] at later
      exact later
    | settle k verdict =>
      obtain ⟨known, after⟩ := settle_some step
      have here := (closed_settled known after).append_right (settled ps)
      rw [List.append_assoc] at here
      exact later.trans here

/-- Conservation: what is owed after a run is what was owed before and what the run entered,
less what it settled. -/
theorem owed_balance {ps : List (Posting κ ν)} (run : (ledger κ ν).run L ps = some M) :
    M.owed.length + (settled ps).length = L.owed.length + (entered ps).length := by
  have keys := congrArg List.length (keys_run run)
  have closed := (closed_run run).length_eq
  have before := owed_add_closed L
  have after := owed_add_closed M
  rw [List.length_append] at keys closed
  omega

end Steps

end RustEvents.Foundation.Obligations
