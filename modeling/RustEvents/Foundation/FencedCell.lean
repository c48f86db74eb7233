/- module: RustEvents/Foundation/FencedCell
   layer: library
   digest: Fencing tokens over one shared cell: effective releases belong to the last stamp, ordered stamps are final. -/

import Mathlib.Data.List.Basic
import Mathlib.Data.List.Nodup
import Mathlib.Data.Option.Basic

set_option autoImplicit false
set_option relaxedAutoImplicit false

namespace RustEvents.Foundation.FencedCell

/-- What the fence sees of a shared resource: the token on it, and whether it
has reached a final content. -/
structure Cell (τ : Type*) where
  holder : Option τ
  closed : Bool

/-- Agent `i` was issued the token `tokens[i]`. `stamped` lists the agents whose
stamp found the cell open and `released` those whose release took effect, newest first. -/
structure State (τ : Type*) where
  tokens : List τ
  cell : Cell τ
  stamped : List ℕ
  released : List ℕ

inductive Op (τ : Type*) where
  | issue (token : τ)
  | stamp (i : ℕ)
  | release (i : ℕ) (close : Bool)
  | idle

variable {τ : Type*}

/-- The invariant of the protocol. -/
structure Fenced (s : State τ) : Prop where
  distinct : s.tokens.Nodup
  known : ∀ i ∈ s.stamped, i < s.tokens.length
  spent : ∀ i ∈ s.released, i ∈ s.stamped
  shut : s.cell.closed = true → s.cell.holder = none
  last : ∀ i ∈ s.stamped, ∀ token, s.tokens[i]? = some token → s.cell.holder = some token →
    s.stamped.head? = some i
  held : ∀ i token, s.stamped.head? = some i → i ∉ s.released → s.tokens[i]? = some token →
    s.cell = ⟨some token, false⟩
  own : s.stamped ≠ [] → ∀ token, s.cell.holder = some token →
    ∃ i ∈ s.stamped, s.tokens[i]? = some token

theorem fenced_start {cell : Cell τ} (shut : cell.closed = true → cell.holder = none) :
    Fenced (⟨[], cell, [], []⟩ : State τ) where
  distinct := List.nodup_nil
  known := by simp
  spent := by simp
  shut := shut
  last := by simp
  held := by simp
  own := by simp

private theorem tokens_injective {s : State τ} (fenced : Fenced s) {i j : ℕ} {token : τ}
    (hi : s.tokens[i]? = some token) (hj : s.tokens[j]? = some token) : i = j := by
  obtain ⟨low, eqn⟩ := List.getElem?_eq_some_iff.mp hi
  obtain ⟨high, eqn'⟩ := List.getElem?_eq_some_iff.mp hj
  exact (List.Nodup.getElem_inj_iff fenced.distinct).mp (eqn.trans eqn'.symm)

private theorem fenced_issue {s : State τ} (fenced : Fenced s) {token : τ}
    (fresh : token ∉ s.tokens) : Fenced { s with tokens := s.tokens ++ [token] } := by
  have old : ∀ i, i ∈ s.stamped → (s.tokens ++ [token])[i]? = s.tokens[i]? := by
    intro i hi
    exact List.getElem?_append_left (fenced.known i hi)
  refine ⟨?_, ?_, fenced.spent, fenced.shut, ?_, ?_, ?_⟩
  · refine List.nodup_append.mpr ⟨fenced.distinct, List.nodup_singleton _, ?_⟩
    intro a ha b hb same
    exact fresh (List.mem_singleton.mp hb ▸ same ▸ ha)
  · intro i hi
    have := fenced.known i hi
    simp only [List.length_append, List.length_singleton]
    omega
  · intro i hi t ht
    exact fenced.last i hi t ((old i hi).symm.trans ht)
  · intro i t first unspent ht
    exact fenced.held i t first unspent ((old i (List.mem_of_mem_head? first)).symm.trans ht)
  · intro some t holder
    obtain ⟨i, hi, ht⟩ := fenced.own some t holder
    exact ⟨i, hi, (old i hi).trans ht⟩

private theorem fenced_stamp {s : State τ} (fenced : Fenced s) {i : ℕ} {token : τ}
    (issued : s.tokens[i]? = some token) (fresh : i ∉ s.stamped) :
    Fenced { s with cell := ⟨some token, false⟩, stamped := i :: s.stamped } := by
  refine ⟨fenced.distinct, ?_, ?_, by simp, ?_, ?_, ?_⟩
  · intro j hj
    rcases List.mem_cons.mp hj with rfl | later
    · exact (List.getElem?_eq_some_iff.mp issued).1
    · exact fenced.known j later
  · intro j hj
    exact List.mem_cons_of_mem i (fenced.spent j hj)
  · intro j _ t ht holder
    cases Option.some.inj holder
    have same : j = i := tokens_injective fenced ht issued
    simp [same]
  · intro j t first unspent ht
    have same : i = j := Option.some.inj first
    subst same
    rw [issued] at ht
    cases Option.some.inj ht
    rfl
  · intro _ t holder
    cases Option.some.inj holder
    exact ⟨i, List.mem_cons_self, issued⟩

private theorem fenced_release {s : State τ} (fenced : Fenced s) {i : ℕ} {token : τ}
    (close : Bool) (issued : s.tokens[i]? = some token) (mine : i ∈ s.stamped)
    (holder : s.cell.holder = some token) :
    Fenced { s with cell := ⟨none, close⟩, released := i :: s.released } := by
  have first : s.stamped.head? = some i := fenced.last i mine token issued holder
  refine ⟨fenced.distinct, fenced.known, ?_, by simp, by simp, ?_, by simp⟩
  · intro j hj
    rcases List.mem_cons.mp hj with rfl | later
    · exact mine
    · exact fenced.spent j later
  · intro j t newest unspent ht
    have same : i = j := Option.some.inj (first.symm.trans newest)
    exact absurd List.mem_cons_self (same ▸ unspent)

variable [DecidableEq τ]

/-- A stamp is guarded by the cell being open only, a release by the token. -/
def State.step (s : State τ) : Op τ → Option (State τ)
  | .issue token => if token ∈ s.tokens then none else some { s with tokens := s.tokens ++ [token] }
  | .stamp i =>
    match s.tokens[i]? with
    | none => none
    | some token =>
      if i ∈ s.stamped then none
      else if s.cell.closed then some s
      else some { s with cell := ⟨some token, false⟩, stamped := i :: s.stamped }
  | .release i close =>
    match s.tokens[i]? with
    | none => none
    | some token =>
      if i ∉ s.stamped then none
      else if s.cell.holder = some token then
        some { s with cell := ⟨none, close⟩, released := i :: s.released }
      else some s
  | .idle => some s

/-- Every operation keeps the invariant. -/
theorem Fenced.step {s t : State τ} {op : Op τ} (fenced : Fenced s)
    (taken : s.step op = some t) : Fenced t := by
  cases op with
  | issue token =>
    simp only [State.step] at taken
    split at taken
    · cases taken
    · next fresh => exact Option.some.inj taken ▸ fenced_issue fenced fresh
  | stamp i =>
    simp only [State.step] at taken
    split at taken
    · cases taken
    next token issued =>
    split at taken
    · cases taken
    next fresh =>
    split at taken
    · exact Option.some.inj taken ▸ fenced
    · exact Option.some.inj taken ▸ fenced_stamp fenced issued fresh
  | release i close =>
    simp only [State.step] at taken
    split at taken
    · cases taken
    next token issued =>
    split at taken
    · cases taken
    next mine =>
    split at taken
    · next holder =>
      exact Option.some.inj taken ▸
        fenced_release fenced close issued (Decidable.not_not.mp mine) holder
    · exact Option.some.inj taken ▸ fenced
  | idle => exact Option.some.inj taken ▸ fenced

private theorem closed_step {s t : State τ} {op : Op τ} (fenced : Fenced s)
    (closed : s.cell.closed = true) (taken : s.step op = some t) : t.cell = s.cell := by
  cases op with
  | issue token =>
    simp only [State.step] at taken
    split at taken
    · cases taken
    · exact Option.some.inj taken ▸ rfl
  | stamp i =>
    simp only [State.step, closed, if_true] at taken
    split at taken
    · cases taken
    split at taken
    · cases taken
    · exact Option.some.inj taken ▸ rfl
  | release i close =>
    simp only [State.step, fenced.shut closed] at taken
    split at taken
    · cases taken
    split at taken
    · cases taken
    · exact Option.some.inj taken ▸ rfl
  | idle => exact Option.some.inj taken ▸ rfl

/-- Only the last agent that stamped the cell can release it. -/
theorem release_by_last {s t : State τ} {i : ℕ} {close : Bool} (fenced : Fenced s)
    (taken : s.step (.release i close) = some t) (changed : t.cell ≠ s.cell) :
    s.stamped.head? = some i := by
  simp only [State.step] at taken
  split at taken
  · cases taken
  next token issued =>
  split at taken
  · cases taken
  next mine =>
  split at taken
  · next holder => exact fenced.last i (Decidable.not_not.mp mine) token issued holder
  · exact absurd (Option.some.inj taken ▸ rfl) changed

theorem stamp_changes {s t : State τ} {i : ℕ} (fenced : Fenced s) (used : s.stamped ≠ [])
    (open_ : s.cell.closed = false) (taken : s.step (.stamp i) = some t) :
    t.cell.holder ≠ s.cell.holder := by
  simp only [State.step, open_, Bool.false_eq_true, if_false] at taken
  split at taken
  · cases taken
  next token issued =>
  split at taken
  · cases taken
  next fresh =>
  cases Option.some.inj taken
  intro same
  obtain ⟨j, mine, ht⟩ := fenced.own used token same.symm
  exact fresh (tokens_injective fenced ht issued ▸ mine)

/-- The condition on a single operation that makes stamps final: agents stamp an
open cell in the order in which their tokens were issued. -/
def InOrder (s : State τ) : Op τ → Prop
  | .stamp i => s.cell.closed = false → ∀ j ∈ s.stamped, j < i
  | _ => True

/-- Under `InOrder` the last stamp is the newest one. -/
def NewestLast (s : State τ) : Prop := ∀ i, s.stamped.head? = some i → ∀ j ∈ s.stamped, j ≤ i

theorem NewestLast.step {s t : State τ} {op : Op τ} (newest : NewestLast s)
    (ordered : InOrder s op) (taken : s.step op = some t) : NewestLast t := by
  cases op with
  | issue token =>
    simp only [State.step] at taken
    split at taken
    · cases taken
    · exact Option.some.inj taken ▸ newest
  | stamp i =>
    simp only [State.step] at taken
    split at taken
    · cases taken
    split at taken
    · cases taken
    split at taken
    · exact Option.some.inj taken ▸ newest
    · next open_ =>
      cases Option.some.inj taken
      intro k first j hj
      have same : i = k := Option.some.inj first
      rcases List.mem_cons.mp hj with rfl | later
      · exact Nat.le_of_eq same
      · have below : j < i := ordered (by simpa using open_) j later
        omega
  | release i close =>
    simp only [State.step] at taken
    split at taken
    · cases taken
    split at taken
    · cases taken
    split at taken
    · exact Option.some.inj taken ▸ newest
    · exact Option.some.inj taken ▸ newest
  | idle => exact Option.some.inj taken ▸ newest

/-- Once a newer agent has stamped, an older one changes nothing, whether it
releases or stamps. -/
theorem superseded_step {s t : State τ} {op : Op τ} {i j : ℕ} (fenced : Fenced s)
    (newest : NewestLast s) (ordered : InOrder s op) (older : i < j) (newer : j ∈ s.stamped)
    (mine : op = .stamp i ∨ ∃ close, op = .release i close) (taken : s.step op = some t) :
    t.cell = s.cell := by
  rcases mine with rfl | ⟨close, rfl⟩
  · by_cases closed : s.cell.closed = true
    · exact closed_step fenced closed taken
    · have below := ordered (by simpa using closed) j newer
      omega
  · by_contra changed
    have last := release_by_last fenced taken changed
    have above := newest i last j newer
    omega

end RustEvents.Foundation.FencedCell
