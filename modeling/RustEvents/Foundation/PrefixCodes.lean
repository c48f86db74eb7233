/- module: RustEvents/Foundation/PrefixCodes
   layer: library
   digest: Codes none of whose words is a proper prefix of another, built by delimiters and by streams of words. -/

import Mathlib.Data.List.Basic

set_option autoImplicit false
set_option relaxedAutoImplicit false

namespace RustEvents.Foundation.PrefixCodes

/-- Whatever follows two words, equal texts begin with equal words. -/
def PrefixFree {α β : Type*} (code : α → List β) : Prop :=
  ∀ a b x y, code a ++ x = code b ++ y → code a = code b

variable {α β : Type*} {code : α → List β}

theorem PrefixFree.rest (free : PrefixFree code) {a b : α} {x y : List β}
    (same : code a ++ x = code b ++ y) : x = y := by
  have words := free a b x y same
  rw [words] at same
  exact List.append_cancel_left same

theorem prefixFree_delimited {stop : β} (plain : ∀ a, stop ∉ code a) :
    PrefixFree fun a => code a ++ [stop] := by
  intro a b x y same
  simp only [List.append_assoc, List.singleton_append] at same
  rcases List.append_eq_append_iff.mp same with ⟨more, longer, tail⟩ | ⟨more, longer, tail⟩
  · cases more with
    | nil => simpa using longer.symm
    | cons c more =>
      have inside : stop ∈ code b := by
        rw [longer, (List.cons.inj tail).1]
        simp
      exact absurd inside (plain b)
  · cases more with
    | nil => simpa using longer
    | cons c more =>
      have inside : stop ∈ code a := by
        rw [longer, (List.cons.inj tail).1]
        simp
      exact absurd inside (plain a)

theorem PrefixFree.behind (free : PrefixFree code) (word : List β) :
    PrefixFree fun a => word ++ code a := by
  intro a b x y same
  simp only [List.append_assoc, List.append_cancel_left_eq] at same ⊢
  exact free a b x y same

/-- Sequences of words, ended by a sign that begins no word. -/
theorem prefixFree_stream (free : PrefixFree code) {stop : β}
    (begins : ∀ a, ∃ c rest, code a = c :: rest ∧ c ≠ stop) :
    PrefixFree fun l : List α => l.flatMap code ++ [stop] := by
  intro l m x y same
  simp only [List.append_assoc, List.singleton_append] at same ⊢
  induction l generalizing m with
  | nil =>
    cases m with
    | nil => rfl
    | cons b m =>
      obtain ⟨c, rest, word, other⟩ := begins b
      rw [List.flatMap_nil, List.flatMap_cons, word] at same
      exact absurd (List.cons.inj same).1.symm other
  | cons a l ih =>
    cases m with
    | nil =>
      obtain ⟨c, rest, word, other⟩ := begins a
      rw [List.flatMap_nil, List.flatMap_cons, word] at same
      exact absurd (List.cons.inj same).1 other
    | cons b m =>
      simp only [List.flatMap_cons, List.append_assoc] at same ⊢
      rw [free a b _ _ same, ih m (free.rest same)]

end RustEvents.Foundation.PrefixCodes
