/- module: RustEvents/Model/Serde
   layer: model
   source: src/registry.rs (TypedHandler::handle_erased formats a serde_json::Error)
   digest: The display text of a serde_json type mismatch, with the value it found. -/

import RustEvents.Foundation.PrefixCodes
import RustEvents.Model.Errors
import Mathlib.Data.Nat.Digits.Defs

set_option autoImplicit false
set_option relaxedAutoImplicit false

namespace RustEvents.Model.Serde

open RustEvents.Foundation.PrefixCodes
open RustEvents.Model.Text
open RustEvents.Model.Errors

/-- The Unicode tables behind `char::escape_debug`: which characters print as they are. Control
characters never do. -/
structure PrintTable where
  printable : Char → Bool
  control : ∀ c, isControl c = true → printable c = false

/-- The printable characters of ASCII, as every version of the tables has them. -/
def asciiTable : PrintTable where
  printable c := 0x20 ≤ c.toNat && c.toNat < 0x7f
  control c := by
    simp only [isControl, Bool.or_eq_true, Bool.and_eq_true, decide_eq_true_eq,
      Bool.and_eq_false_iff, decide_eq_false_iff_not]
    omega

/-- Hexadecimal digits without leading zeros. -/
def hexText (n : ℕ) : List Char := (Nat.digits 16 n).reverse.map hexDigit

/-- One character inside a string that `Debug` quotes. -/
def escapeDebug (table : PrintTable) (c : Char) : List Char :=
  if c = '\x00' then ['\x5c', '0']
  else if c = '\t' then ['\x5c', 't']
  else if c = '\r' then ['\x5c', 'r']
  else if c = '\n' then ['\x5c', 'n']
  else if c = '\x5c' then ['\x5c', '\x5c']
  else if c = '\x22' then ['\x5c', '\x22']
  else if table.printable c then [c]
  else '\x5c' :: 'u' :: '\x7b' :: hexText c.toNat ++ ['\x7d']

/-- A floating-point number as serde_json prints it. -/
structure FloatText where
  text : String
  plain : ∀ c ∈ text.toList, isControl c = false ∧ c ≠ '\x60'

/-- The value that a deserializer found where it expected something else. -/
inductive Unexpected where
  | boolean (b : Bool)
  | integer (n : ℤ)
  | float (literal : FloatText)
  | string (s : String)
  | null
  | sequence
  | map

/-- `impl Display for Unexpected`, with serde_json's own word for `null`. -/
def Unexpected.chars (table : PrintTable) : Unexpected → List Char
  | .boolean b => "boolean `".toList ++ ((if b then "true" else "false").toList ++ ['\x60'])
  | .integer n => "integer `".toList ++ ((toString n).toList ++ ['\x60'])
  | .float literal => "floating point `".toList ++ (literal.text.toList ++ ['\x60'])
  | .string s => "string \"".toList ++ (s.toList.flatMap (escapeDebug table) ++ ['\x22'])
  | .null => "null".toList
  | .sequence => "sequence".toList
  | .map => "map".toList

def Unexpected.display (table : PrintTable) (found : Unexpected) : String :=
  String.ofList (found.chars table)

/-- What was expected, and where. -/
def mismatchTail (expected : String) (line column : ℕ) : String :=
  ", expected " ++ expected ++ " at line " ++ Nat.repr line ++ " column " ++ Nat.repr column

/-- `Error::invalid_type` and the position that serde_json adds to it. -/
def typeMismatch (table : PrintTable) (found : Unexpected) (expected : String)
    (line column : ℕ) : SerdeError :=
  ⟨"invalid type: " ++ (found.display table ++ mismatchTail expected line column)⟩

example : (typeMismatch asciiTable (.string "a\"b\x01") "i32" 1 18).display =
    "invalid type: string \"a\\\"b\\u\x7b1\x7d\", expected i32 at line 1 column 18" := by decide

private theorem hexDigit_plain {d : ℕ} (small : d < 16) :
    hexDigit d ≠ '\x7d' ∧ isControl (hexDigit d) = false := by
  have all : ∀ d : Fin 16, hexDigit d.val ≠ '\x7d' ∧ isControl (hexDigit d.val) = false := by decide
  exact all ⟨d, small⟩

private theorem hexText_plain {n : ℕ} {c : Char} (mem : c ∈ hexText n) :
    c ≠ '\x7d' ∧ isControl c = false := by
  obtain ⟨d, digit, rfl⟩ := List.mem_map.mp mem
  exact hexDigit_plain (Nat.digits_lt_base (by decide) (List.mem_reverse.mp digit))

private theorem escapeDebug_shape (table : PrintTable) (c : Char) :
    (escapeDebug table c = [c] ∧ c ≠ '\x5c' ∧ c ≠ '\x22' ∧ isControl c = false) ∨
    (∃ d ∈ ['0', 't', 'r', 'n', '\x5c', '\x22'], escapeDebug table c = ['\x5c', d]) ∨
    escapeDebug table c = '\x5c' :: 'u' :: '\x7b' :: (hexText c.toNat ++ ['\x7d']) := by
  simp only [escapeDebug]
  split
  · exact .inr (.inl ⟨'0', by decide, rfl⟩)
  split
  · exact .inr (.inl ⟨'t', by decide, rfl⟩)
  split
  · exact .inr (.inl ⟨'r', by decide, rfl⟩)
  split
  · exact .inr (.inl ⟨'n', by decide, rfl⟩)
  split
  · exact .inr (.inl ⟨'\x5c', by decide, rfl⟩)
  split
  · exact .inr (.inl ⟨'\x22', by decide, rfl⟩)
  split
  · next slash quote shown =>
    have plain : isControl c = false := by
      refine Bool.eq_false_iff.mpr fun control => ?_
      rw [table.control c control] at shown
      cases shown
    exact .inl ⟨rfl, slash, quote, plain⟩
  · exact .inr (.inr rfl)

private theorem escapeDebug_prefixFree (table : PrintTable) : PrefixFree (escapeDebug table) := by
  have hexes : PrefixFree fun n => hexText n ++ ['\x7d'] :=
    prefixFree_delimited fun n mem => (hexText_plain mem).1 rfl
  intro a b x y same
  rcases escapeDebug_shape table a with ⟨wordA, slashA, -⟩ | ⟨d, signA, wordA⟩ | wordA <;>
    rcases escapeDebug_shape table b with ⟨wordB, slashB, -⟩ | ⟨e, signB, wordB⟩ | wordB <;>
    rw [wordA, wordB] at same ⊢ <;>
    simp only [List.cons_append, List.nil_append, List.cons.injEq] at same
  · rw [same.1]
  · exact absurd same.1 slashA
  · exact absurd same.1 slashA
  · exact absurd same.1.symm slashB
  · rw [same.2.1]
  · simp [same.2.1] at signA
  · exact absurd same.1.symm slashB
  · simp [← same.2.1] at signB
  · have digits : hexText a.toNat ++ ['\x7d'] = hexText b.toNat ++ ['\x7d'] :=
      hexes _ _ x y same.2.2.2
    rw [digits]

private theorem escapeDebug_begins (table : PrintTable) (c : Char) :
    ∃ d rest, escapeDebug table c = d :: rest ∧ d ≠ '\x22' := by
  rcases escapeDebug_shape table c with ⟨word, -, quote, -⟩ | ⟨d, -, word⟩ | word
  · exact ⟨c, [], word, quote⟩
  · exact ⟨'\x5c', [d], word, by decide⟩
  · exact ⟨'\x5c', _, word, by decide⟩

private theorem digit_plain {c : Char} (digit : c.isDigit = true) :
    isControl c = false ∧ c ≠ '\x60' := by
  have range : 48 ≤ c.toNat ∧ c.toNat ≤ 57 := by
    simp only [Char.isDigit, Bool.and_eq_true, decide_eq_true_eq, ge_iff_le,
      UInt32.le_iff_toNat_le] at digit
    exact digit
  constructor
  · simp only [isControl, Bool.or_eq_false_iff, Bool.and_eq_false_iff, decide_eq_false_iff_not]
    omega
  · rintro rfl
    exact absurd range.2 (by decide)

private theorem integer_plain {n : ℤ} {c : Char} (mem : c ∈ (toString n).toList) :
    isControl c = false ∧ c ≠ '\x60' := by
  have natural : ∀ {m : ℕ}, c ∈ (toString m).toList → isControl c = false ∧ c ≠ '\x60' := by
    intro m mem
    rw [Nat.toString_eq_ofList_toDigits, String.toList_ofList] at mem
    exact digit_plain (Nat.isDigit_of_mem_toDigits (by decide) (by decide) mem)
  cases n with
  | ofNat m => exact natural mem
  | negSucc m =>
    have minus : c ∈ ("-" ++ toString (m + 1)).toList := mem
    rw [String.toList_append, List.mem_append] at minus
    rcases minus with sign | digits
    · rw [List.mem_singleton.mp sign]
      decide
    · exact natural digits

/-- The first two letters tell the kinds of value apart. -/
def Unexpected.tag : Unexpected → List Char
  | .boolean _ => ['b', 'o']
  | .integer _ => ['i', 'n']
  | .float _ => ['f', 'l']
  | .string _ => ['s', 't']
  | .null => ['n', 'u']
  | .sequence => ['s', 'e']
  | .map => ['m', 'a']

private theorem take_chars (table : PrintTable) (found : Unexpected) (x : List Char) :
    (found.chars table ++ x).take 2 = found.tag := by
  cases found <;> rfl

/-- Two values of one kind. -/
inductive SameKind : Unexpected → Unexpected → Prop where
  | booleans (m n : Bool) : SameKind (.boolean m) (.boolean n)
  | integers (m n : ℤ) : SameKind (.integer m) (.integer n)
  | floats (m n : FloatText) : SameKind (.float m) (.float n)
  | strings (m n : String) : SameKind (.string m) (.string n)
  | equal (a : Unexpected) : SameKind a a

private theorem sameKind_of_tag {a b : Unexpected} (tags : a.tag = b.tag) : SameKind a b := by
  cases a <;> cases b <;> simp [Unexpected.tag] at tags <;> constructor

/-- No printed value is a proper prefix of another, so that the text behind it cannot hide
a difference. -/
theorem chars_prefixFree (table : PrintTable) : PrefixFree (Unexpected.chars table) := by
  have booleans : PrefixFree fun b : Bool => (if b then "true" else "false").toList ++ ['\x60'] :=
    prefixFree_delimited (by decide)
  have integers : PrefixFree fun n : ℤ => (toString n).toList ++ ['\x60'] :=
    prefixFree_delimited fun n mem => (integer_plain mem).2 rfl
  have floats : PrefixFree fun literal : FloatText => literal.text.toList ++ ['\x60'] :=
    prefixFree_delimited fun literal mem => (literal.plain _ mem).2 rfl
  have strings : PrefixFree fun l : List Char => l.flatMap (escapeDebug table) ++ ['\x22'] :=
    prefixFree_stream (escapeDebug_prefixFree table) (escapeDebug_begins table)
  intro a b x y same
  have tags : a.tag = b.tag := by
    rw [← take_chars table a x, ← take_chars table b y, same]
  cases sameKind_of_tag tags with
  | booleans m n => exact booleans.behind "boolean `".toList m n x y same
  | integers m n => exact integers.behind "integer `".toList m n x y same
  | floats m n => exact floats.behind "floating point `".toList m n x y same
  | strings m n => exact strings.behind "string \"".toList m.toList n.toList x y same
  | equal => rfl

private theorem plain_of_all {l : List Char} (all : (l.all fun c => !isControl c) = true) {c : Char}
    (mem : c ∈ l) : isControl c = false := by
  simpa using List.all_eq_true.mp all c mem

private theorem escapeDebug_plain {table : PrintTable} {c d : Char}
    (mem : d ∈ escapeDebug table c) : isControl d = false := by
  rcases escapeDebug_shape table c with ⟨word, -, -, plain⟩ | ⟨e, sign, word⟩ | word
  · rw [word, List.mem_singleton] at mem
    rw [mem]
    exact plain
  · have signs : (['0', 't', 'r', 'n', '\x5c', '\x22'].all fun e =>
        ['\x5c', e].all fun d => !isControl d) = true := by decide
    rw [word] at mem
    exact plain_of_all (List.all_eq_true.mp signs e sign) mem
  · have frame : ∀ {d : Char}, d ∈ ['\x5c', 'u', '\x7b', '\x7d'] → isControl d = false :=
      plain_of_all (by decide)
    rw [word] at mem
    simp only [List.mem_cons, List.mem_append, List.not_mem_nil, or_false] at mem
    rcases mem with rfl | rfl | rfl | digit | rfl
    · exact frame (by decide)
    · exact frame (by decide)
    · exact frame (by decide)
    · exact (hexText_plain digit).2
    · exact frame (by decide)

theorem chars_plain {table : PrintTable} {found : Unexpected} {c : Char}
    (mem : c ∈ found.chars table) : isControl c = false := by
  have framed : ∀ {word body : List Char} {stop : Char},
      (word.all fun c => !isControl c) = true → (∀ c ∈ body, isControl c = false) →
      isControl stop = false → c ∈ word ++ (body ++ [stop]) → isControl c = false := by
    intro word body stop opening inside closing mem
    simp only [List.mem_append, List.mem_singleton] at mem
    rcases mem with first | middle | rfl
    · exact plain_of_all opening first
    · exact inside c middle
    · exact closing
  cases found with
  | boolean b =>
    refine framed (by decide) (fun c mem => plain_of_all ?_ mem) (by decide) mem
    cases b <;> decide
  | integer n => exact framed (by decide) (fun c mem => (integer_plain mem).1) (by decide) mem
  | float literal =>
    exact framed (by decide) (fun c mem => (literal.plain c mem).1) (by decide) mem
  | string s =>
    refine framed (by decide) ?_ (by decide) mem
    intro c mem
    obtain ⟨d, -, escaped⟩ := List.mem_flatMap.mp mem
    exact escapeDebug_plain escaped
  | null => exact plain_of_all (l := "null".toList) (by decide) mem
  | sequence => exact plain_of_all (l := "sequence".toList) (by decide) mem
  | map => exact plain_of_all (l := "map".toList) (by decide) mem

end RustEvents.Model.Serde
