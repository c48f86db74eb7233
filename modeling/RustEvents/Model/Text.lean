/- module: RustEvents/Model/Text
   layer: model
   source: src/util.rs, src/limits.rs
   digest: Reason sanitising, UTF-8 truncation, JSON header values and their two renderings. -/

import Mathlib.Data.Int.Notation
import Mathlib.Data.List.Basic
import Mathlib.Order.Basic

set_option autoImplicit false
set_option relaxedAutoImplicit false

namespace RustEvents.Model.Text

/-- `str::len` counts bytes. -/
def len (s : String) : ℕ := s.utf8ByteSize

/-- `char::is_control`: the general category Cc, that is C0, DEL and C1. -/
def isControl (c : Char) : Bool :=
  c.toNat < 0x20 || (0x7f ≤ c.toNat && c.toNat ≤ 0x9f)

/-- Every control character becomes a question mark. -/
def sanitizeReason (s : String) : String :=
  String.ofList (s.toList.map fun c => if isControl c then '?' else c)

/-- A byte `10xxxxxx`, which only continues a code point. -/
def isContinuation (b : UInt8) : Bool := b &&& 0xc0 = 0x80

/-- `str::is_char_boundary`, which looks at one byte. -/
def isCharBoundary (s : String) (index : ℕ) : Bool :=
  index = 0 ||
    if inside : index < len s then !isContinuation (s.getUTF8Byte ⟨index⟩ inside)
    else index = len s

/-- The `while` loop of `truncate_utf8`: step back from `e` to a character
boundary. The result carries the boundary proof, so the slice cannot panic. -/
def floorBoundary (s : String) : ℕ → s.Pos
  | 0 => s.startPos
  | e + 1 =>
      if boundary : (⟨e + 1⟩ : String.Pos.Raw).IsValid s then ⟨⟨e + 1⟩, boundary⟩
      else floorBoundary s e

/-- The longest prefix of at most `max` bytes that ends on a character boundary. -/
def truncateUtf8 (s : String) (max : ℕ) : String :=
  if len s ≤ max then s else (s.sliceTo (floorBoundary s max)).copy

/-- A text parameter or column of Postgres cannot hold U+0000. -/
def storable (s : String) : Bool := !s.toList.contains '\x00'

def maxEventTypeBytes : ℕ := 128
def maxHandlerIdBytes : ℕ := 128
def maxTenantBytes : ℕ := 64
def maxBcBytes : ℕ := 64
def maxIdempotencyKeyBytes : ℕ := 128
def maxAggregateKeyBytes : ℕ := 128
def maxPayloadBytes : ℕ := 1048576
def maxHeadersBytes : ℕ := 16 * 1024
def maxLastErrorBytes : ℕ := 8192
def purgeChunkSize : ℕ := 10000

/-- A `serde_json::Value`. A number is kept as the literal that serde_json prints. -/
inductive Json where
  | null
  | bool (b : Bool)
  | number (literal : String)
  | string (s : String)
  | array (items : List Json)
  | object (fields : List (String × Json))

/-- A `serde_json::Map`. -/
abbrev JsonMap := List (String × Json)

/-- Lower-case hexadecimal digit. -/
def hexDigit (n : ℕ) : Char :=
  if n < 10 then Char.ofNat (48 + n) else Char.ofNat (87 + n)

/-- JSON string escapes, the same in serde_json and in Postgres. -/
def escape (c : Char) : List Char :=
  if c = '\x22' then ['\x5c', '\x22']
  else if c = '\x5c' then ['\x5c', '\x5c']
  else if c = '\x08' then ['\x5c', 'b']
  else if c = '\x0c' then ['\x5c', 'f']
  else if c = '\n' then ['\x5c', 'n']
  else if c = '\r' then ['\x5c', 'r']
  else if c = '\t' then ['\x5c', 't']
  else if c.toNat < 0x20 then
    ['\x5c', 'u', '0', '0', hexDigit (c.toNat / 16), hexDigit (c.toNat % 16)]
  else [c]

/-- A number literal taken apart: its sign, its digits before and after the point, and its
power of ten. -/
structure Decimal where
  negative : Bool
  whole : List Char
  fraction : List Char
  exponent : ℤ

def naturalOf (digits : List Char) : ℕ :=
  digits.foldl (fun n c => 10 * n + (c.toNat - '0'.toNat)) 0

def exponentOf : List Char → ℤ
  | '-' :: digits => -naturalOf digits
  | '+' :: digits => naturalOf digits
  | digits => naturalOf digits

def decimalOf (literal : String) : Decimal :=
  let unsigned := literal.toList.dropWhile (· = '-')
  let mantissa := unsigned.takeWhile (· ≠ 'e')
  { negative := literal.toList.head? = some '-'
    whole := mantissa.takeWhile (· ≠ '.')
    fraction := (mantissa.dropWhile (· ≠ '.')).tail
    exponent := exponentOf (unsigned.dropWhile (· ≠ 'e')).tail }

namespace Decimal

variable (d : Decimal)

def digits : List Char := d.whole ++ d.fraction

/-- Where the point falls among the digits once the power of ten is carried out. -/
def point : ℤ := d.whole.length + d.exponent

def wholePart : List Char :=
  if d.point ≤ 0 then ['0']
  else d.digits.take d.point.toNat ++ List.replicate (d.point.toNat - d.digits.length) '0'

def fractionPart : List Char :=
  if d.point < 0 then List.replicate (-d.point).toNat '0' ++ d.digits
  else d.digits.drop d.point.toNat

def isNegative : Bool := d.negative && d.digits.any (· ≠ '0')

end Decimal

/-- How `numeric`, in which `jsonb` keeps its numbers, prints a literal: in full, without a
power of ten, and zero without a sign. -/
def numericText (literal : String) : String :=
  let d := decimalOf literal
  String.ofList ((if d.isNegative then ['-'] else []) ++ d.wholePart ++
    if d.fractionPart = [] then [] else '.' :: d.fractionPart)

/-- A whole number in the range of `i64` or `u64`. -/
def Decimal.isInteger (d : Decimal) : Bool :=
  d.fractionPart = [] &&
    if d.isNegative then naturalOf d.wholePart ≤ 9223372036854775808
    else naturalOf d.wholePart < 18446744073709551616

/-- What serde_json prints for a number after `jsonb` has kept it: a whole number of 64 bits
comes back as one, zero has lost its sign, and any other float is the same again. -/
def readBack (literal : String) : String :=
  let d := decimalOf literal
  if d.isInteger || d.digits.all (· = '0') then numericText literal else literal

def quoted (s : String) : List Char := '\x22' :: s.toList.flatMap escape ++ ['\x22']

mutual

/-- The text of a value. `comma` and `colon` are the separators: bare for
`serde_json::to_string`, followed by a space for `jsonb::text`. `number` prints a literal. -/
def render (number : String → String) (comma colon : List Char) : Json → List Char
  | .null => "null".toList
  | .bool true => "true".toList
  | .bool false => "false".toList
  | .number literal => (number literal).toList
  | .string s => quoted s
  | .array items => '[' :: renderItems number comma colon items ++ [']']
  | .object fields => '\x7b' :: renderFields number comma colon fields ++ ['\x7d']

def renderItems (number : String → String) (comma colon : List Char) : List Json → List Char
  | [] => []
  | [v] => render number comma colon v
  | v :: vs => render number comma colon v ++ comma ++ renderItems number comma colon vs

def renderFields (number : String → String) (comma colon : List Char) :
    List (String × Json) → List Char
  | [] => []
  | [(k, v)] => quoted k ++ colon ++ render number comma colon v
  | (k, v) :: rest =>
      quoted k ++ colon ++ render number comma colon v ++ comma ++
        renderFields number comma colon rest

end

/-- `serde_json::to_string`. -/
def compactText (v : Json) : String := String.ofList (render id [','] [':'] v)

/-- `headers::text`, the rendering that the size CHECK measures. -/
def jsonbText (v : Json) : String := String.ofList (render numericText [',', ' '] [':', ' '] v)

mutual

/-- A `jsonb` value as sqlx reads it. -/
def fromJsonb : Json → Json
  | .number literal => .number (readBack literal)
  | .array items => .array (fromJsonbItems items)
  | .object fields => .object (fromJsonbFields fields)
  | v => v

def fromJsonbItems : List Json → List Json
  | [] => []
  | v :: vs => fromJsonb v :: fromJsonbItems vs

def fromJsonbFields : List (String × Json) → List (String × Json)
  | [] => []
  | (k, v) :: rest => (k, fromJsonb v) :: fromJsonbFields rest

end

mutual

/-- The cast to `jsonb` refuses U+0000 in every string and every key. -/
def castable : Json → Bool
  | .string s => storable s
  | .array items => castableItems items
  | .object fields => castableFields fields
  | _ => true

def castableItems : List Json → Bool
  | [] => true
  | v :: vs => castable v && castableItems vs

def castableFields : List (String × Json) → Bool
  | [] => true
  | (k, v) :: rest => storable k && castable v && castableFields rest

end

/-- `jsonb_typeof(v) = 'object'`. -/
def isObject : Json → Bool
  | .object _ => true
  | _ => false

/-- Non-object values collapse to the empty map. -/
def parseHeaders : Json → JsonMap
  | .object m => m
  | _ => []

@[simp]
theorem len_append (s t : String) : len (s ++ t) = len s + len t := String.utf8ByteSize_append

/-- Bytes of a list of characters. -/
def bytes (l : List Char) : ℕ := len (String.ofList l)

@[simp]
theorem bytes_nil : bytes [] = 0 := rfl

@[simp]
theorem bytes_append (a b : List Char) : bytes (a ++ b) = bytes a + bytes b := by
  simp only [bytes, String.ofList_append, len_append]

@[simp]
theorem bytes_cons (c : Char) (l : List Char) : bytes (c :: l) = c.utf8Size + bytes l := by
  rw [bytes, String.ofList_cons, len_append, len, String.utf8ByteSize_singleton, bytes]

private theorem bytes_eq_length {l : List Char} (ascii : ∀ c ∈ l, c.utf8Size = 1) :
    bytes l = l.length := by
  induction l with
  | nil => rfl
  | cons c l ih =>
    have rest := ih fun d mem => ascii d (List.mem_cons_of_mem c mem)
    rw [bytes_cons, rest, ascii c List.mem_cons_self, List.length_cons, Nat.add_comm]

theorem len_eq_length {s : String} (ascii : ∀ c ∈ s.toList, c.utf8Size = 1) :
    len s = s.toList.length := by
  have whole := bytes_eq_length ascii
  rwa [bytes, String.ofList_toList] at whole

theorem letters_bytes (n : ℕ) : bytes (List.replicate n 'a') = n := by
  have ascii : ∀ c ∈ List.replicate n 'a', c.utf8Size = 1 := by
    intro c mem
    rw [List.eq_of_mem_replicate mem]
    rfl
  rw [bytes_eq_length ascii, List.length_replicate]

example : compactText (.object [("trace", .string "a\nb"), ("n", .array [.number "1", .null])]) =
    "\x7b\"trace\":\"a\\nb\",\"n\":[1,null]\x7d" := by decide

example : ["1e20", "-0.0", "1e16", "1.5e-7", "-2.50"].map numericText =
    ["100000000000000000000", "0.0", "10000000000000000", "0.00000015", "-2.50"] := by decide

example : ["1e20", "-0.0", "1e16", "1.5e-7", "-2.50"].map readBack =
    ["1e20", "0.0", "10000000000000000", "1.5e-7", "-2.50"] := by decide

example : truncateUtf8 (sanitizeReason "bad\x00byte") 5 = "bad?b" := by decide

end RustEvents.Model.Text
