/- module: RustEvents/Worker/Reasons
   layer: model facts
   source: src/util.rs (sanitize_reason, truncate_utf8)
   digest: What sanitising and truncating leave of a reason: no control characters, and the longest prefix that the limit allows. -/

import RustEvents.Model.Runtime

set_option autoImplicit false
set_option relaxedAutoImplicit false

namespace RustEvents.Worker.Reasons

open RustEvents.Model.Text
open RustEvents.Model.Runtime

/-- No control character. -/
def clean (s : String) : Bool := s.toList.all fun c => !isControl c

@[simp]
theorem clean_append (s t : String) : clean (s ++ t) = (clean s && clean t) := by
  simp only [clean, String.toList_append, List.all_append]

theorem storable_of_clean {s : String} (safe : clean s = true) : storable s = true := by
  simp only [clean, List.all_eq_true, Bool.not_eq_true'] at safe
  simp only [storable, Bool.not_eq_true', List.contains_eq_mem, decide_eq_false_iff_not]
  intro zero
  have control : isControl '\x00' = true := by decide
  rw [safe _ zero] at control
  cases control

private theorem sanitizeReason_clean (s : String) : clean (sanitizeReason s) = true := by
  simp only [clean, sanitizeReason, String.toList_ofList, List.all_map, List.all_eq_true]
  intro c _
  simp only [Function.comp_apply]
  split
  · decide
  · next plain => simpa using plain

private theorem tail_continues (b : UInt8) : isContinuation (b &&& 0x3f ||| 0x80) = true := by
  have bits : ∀ v : BitVec 8, (v &&& 0x3f#8 ||| 0x80#8) &&& 0xc0#8 = 0x80#8 := by decide
  simp only [isContinuation, decide_eq_true_eq]
  exact UInt8.toBitVec_inj.mp (bits b.toBitVec)

private theorem first_begins {b : UInt8} (first : b.IsUTF8FirstByte) :
    isContinuation b = false := by
  have bits : ∀ v : BitVec 8, (v &&& 0x80#8 = 0#8 ∨ v &&& 0xe0#8 = 0xc0#8 ∨
      v &&& 0xf0#8 = 0xe0#8 ∨ v &&& 0xf8#8 = 0xf0#8) → v &&& 0xc0#8 ≠ 0x80#8 := by decide
  simp only [isContinuation, decide_eq_false_iff_not]
  intro tail
  refine bits b.toBitVec ?_ (UInt8.toBitVec_inj.mpr tail)
  simp only [UInt8.IsUTF8FirstByte, ← UInt8.toBitVec_inj] at first
  exact first

private theorem byte_kinds {c : Char} {b : UInt8} (mem : b ∈ String.utf8EncodeChar c) :
    b.IsUTF8FirstByte ∨ isContinuation b = true := by
  have first : ∀ head tail, String.utf8EncodeChar c = head :: tail → head.IsUTF8FirstByte := by
    intro head tail shape
    have start := UInt8.isUTF8FirstByte_getElem_zero_utf8EncodeChar (c := c)
    simpa only [shape, List.getElem_cons_zero] using start
  have small := Char.utf8Size_pos c
  have large := Char.utf8Size_le_four c
  obtain one | two | three | four : c.utf8Size = 1 ∨ c.utf8Size = 2 ∨ c.utf8Size = 3 ∨
      c.utf8Size = 4 := by omega
  · have shape := String.utf8EncodeChar_eq_singleton one
    rw [shape, List.mem_singleton] at mem
    exact .inl (mem ▸ first _ _ shape)
  · have shape := String.utf8EncodeChar_eq_cons_cons two
    simp only [shape, List.mem_cons, List.not_mem_nil, or_false] at mem
    rcases mem with rfl | rfl
    · exact .inl (first _ _ shape)
    · exact .inr (tail_continues _)
  · have shape := String.utf8EncodeChar_eq_cons_cons_cons three
    simp only [shape, List.mem_cons, List.not_mem_nil, or_false] at mem
    rcases mem with rfl | rfl | rfl
    · exact .inl (first _ _ shape)
    · exact .inr (tail_continues _)
    · exact .inr (tail_continues _)
  · have shape := String.utf8EncodeChar_eq_cons_cons_cons_cons four
    simp only [shape, List.mem_cons, List.not_mem_nil, or_false] at mem
    rcases mem with rfl | rfl | rfl | rfl
    · exact .inl (first _ _ shape)
    · exact .inr (tail_continues _)
    · exact .inr (tail_continues _)
    · exact .inr (tail_continues _)

private theorem string_byte_kinds (s : String) {p : String.Pos.Raw} (inside : p < s.rawEndPos) :
    (s.getUTF8Byte p inside).IsUTF8FirstByte ∨
      isContinuation (s.getUTF8Byte p inside) = true := by
  obtain ⟨l, rfl⟩ := s.exists_eq_ofList
  simp only [String.getUTF8Byte_eq_getElem, String.toByteArray_ofList, List.utf8Encode,
    List.getElem_toByteArray]
  obtain ⟨c, -, mem⟩ := List.mem_flatMap.mp (List.getElem_mem _)
  exact byte_kinds mem

private theorem isCharBoundary_iff {s : String} {index : ℕ} :
    isCharBoundary s index = true ↔ (⟨index⟩ : String.Pos.Raw).IsValid s := by
  by_cases inside : index < len s
  · have strict : (⟨index⟩ : String.Pos.Raw) < s.rawEndPos := inside
    have apart : (⟨index⟩ : String.Pos.Raw) ≠ s.rawEndPos := String.Pos.Raw.ne_of_lt strict
    simp only [isCharBoundary, dif_pos inside, Bool.or_eq_true, decide_eq_true_eq,
      Bool.not_eq_true', String.Pos.Raw.isValid_iff_isUTF8FirstByte, apart, false_or, strict,
      exists_true_left]
    constructor
    · rintro (rfl | begins)
      · exact String.isUTF8FirstByte_getUTF8Byte_zero
      · rcases string_byte_kinds s strict with first | tail
        · exact first
        · rw [tail] at begins
          cases begins
    · intro first
      exact .inr (first_begins first)
  · have loose : ¬ (⟨index⟩ : String.Pos.Raw) < s.rawEndPos := inside
    have ends : (⟨index⟩ : String.Pos.Raw) = s.rawEndPos ↔ index = len s :=
      String.Pos.Raw.ext_iff
    simp only [isCharBoundary, dif_neg inside, Bool.or_eq_true, decide_eq_true_eq,
      String.Pos.Raw.isValid_iff_isUTF8FirstByte, ends, loose, IsEmpty.exists_iff, or_false]
    omega

private theorem floorBoundary_le (s : String) (e : ℕ) : (floorBoundary s e).offset.byteIdx ≤ e := by
  induction e with
  | zero => exact Nat.le_refl 0
  | succ e ih =>
    simp only [floorBoundary]
    split
    · exact Nat.le_refl _
    · exact Nat.le_succ_of_le ih

private theorem le_floorBoundary {s : String} {e : ℕ} (p : s.Pos) (low : p.offset.byteIdx ≤ e) :
    p.offset.byteIdx ≤ (floorBoundary s e).offset.byteIdx := by
  -- The loop stops at the last boundary that is not behind its start.
  induction e with
  | zero => exact Nat.le_trans low (Nat.zero_le _)
  | succ e ih =>
    simp only [floorBoundary]
    split
    · exact low
    · next cut =>
      apply ih
      have other : p.offset.byteIdx ≠ e + 1 := by
        intro same
        exact cut (same ▸ p.isValid)
      omega

/-- The cut: what is kept fits the limit, and the first character that is dropped does not. -/
theorem truncateUtf8_split (s : String) (max : ℕ) :
    ∃ rest, s = truncateUtf8 s max ++ String.ofList rest ∧ len (truncateUtf8 s max) ≤ max ∧
      ∀ c ∈ rest.head?, max < len (truncateUtf8 s max) + c.utf8Size := by
  by_cases short : len s ≤ max
  · have whole : truncateUtf8 s max = s := if_pos short
    rw [whole]
    exact ⟨[], by simp, short, by simp⟩
  have cut : truncateUtf8 s max = (s.sliceTo (floorBoundary s max)).copy := if_neg short
  have splits := (floorBoundary s max).splits
  rw [← cut] at splits
  have size : len (truncateUtf8 s max) = (floorBoundary s max).offset.byteIdx := by
    rw [splits.offset_eq_rawEndPos]
    rfl
  refine ⟨(s.sliceFrom (floorBoundary s max)).copy.toList, ?_, ?_, ?_⟩
  · rw [String.ofList_toList]
    exact splits.eq_append
  · rw [size]
    exact floorBoundary_le s max
  · intro c head
    -- The position behind `c` is a boundary; the loop would have stopped there.
    obtain ⟨later, rest⟩ := List.head?_eq_some_iff.mp head
    have whole : s = truncateUtf8 s max ++ String.singleton c ++ String.ofList later := by
      rw [String.append_assoc, ← String.ofList_cons, ← rest, String.ofList_toList]
      exact splits.eq_append
    have boundary : (truncateUtf8 s max ++ String.singleton c).rawEndPos.IsValid s := by
      have inner := String.Pos.Raw.isValid_rawEndPos
        (s := truncateUtf8 s max ++ String.singleton c)
      have outer := inner.append_right (String.ofList later)
      rwa [← whole] at outer
    have behind : (truncateUtf8 s max ++ String.singleton c).rawEndPos.byteIdx =
        len (truncateUtf8 s max) + c.utf8Size := by
      change (truncateUtf8 s max ++ String.singleton c).utf8ByteSize = _
      rw [String.utf8ByteSize_append, String.utf8ByteSize_singleton]
      rfl
    by_contra fits
    have low := le_floorBoundary ⟨_, boundary⟩ (e := max) (by rw [behind]; omega)
    have pos := Char.utf8Size_pos c
    rw [← size] at low
    simp only [behind] at low
    omega

theorem truncateUtf8_tight {s : String} {max : ℕ} (long : max < len s) :
    max < len (truncateUtf8 s max) + 4 := by
  obtain ⟨rest, whole, short, wide⟩ := truncateUtf8_split s max
  cases rest with
  | nil =>
    have same : len s = len (truncateUtf8 s max) := by
      conv_lhs => rw [whole]
      simp
    omega
  | cons c later =>
    have next := wide c rfl
    have width := Char.utf8Size_le_four c
    omega

private theorem cut_prefix {p q rest rest' : List Char} {max : ℕ} (same : p ++ rest = q ++ rest')
    (wide : ∀ c ∈ rest.head?, max < len (String.ofList p) + c.utf8Size)
    (short : len (String.ofList q) ≤ max) : q <+: p := by
  rcases List.append_eq_append_iff.mp same with ⟨more, longer, tail⟩ | ⟨more, shorter, -⟩
  · cases more with
    | nil => exact ⟨[], by rw [longer]; simp⟩
    | cons c more =>
      have next := wide c (by rw [tail]; rfl)
      have size : len (String.ofList q) = len (String.ofList p) + (c.utf8Size +
          len (String.ofList more)) := by
        rw [longer, String.ofList_append, len_append, String.ofList_cons, len_append]
        simp only [len, String.utf8ByteSize_singleton]
      omega
  · exact ⟨more, shorter.symm⟩

private theorem truncateUtf8_unique {s p : String} {rest : List Char} {max : ℕ}
    (whole : s = p ++ String.ofList rest) (short : len p ≤ max)
    (wide : ∀ c ∈ rest.head?, max < len p + c.utf8Size) : truncateUtf8 s max = p := by
  obtain ⟨rest', whole', short', wide'⟩ := truncateUtf8_split s max
  have same : p.toList ++ rest = (truncateUtf8 s max).toList ++ rest' := by
    have texts := congrArg String.toList (whole.symm.trans whole')
    simpa only [String.toList_append, String.toList_ofList] using texts
  rw [← String.ofList_toList (s := p)] at short wide
  rw [← String.ofList_toList (s := truncateUtf8 s max)] at short' wide'
  have one := cut_prefix same wide short'
  have two := cut_prefix same.symm wide' short
  have texts := one.eq_of_length_le two.length_le
  exact String.toList_inj.mp texts

theorem truncateUtf8_append_long {d : String} {max : ℕ} (long : max < len d) (t : String) :
    truncateUtf8 (d ++ t) max = truncateUtf8 d max := by
  obtain ⟨rest, whole, short, wide⟩ := truncateUtf8_split d max
  cases rest with
  | nil =>
    have same : len d = len (truncateUtf8 d max) := by
      conv_lhs => rw [whole]
      simp
    omega
  | cons c later =>
    have longer : d ++ t = truncateUtf8 d max ++ String.ofList (c :: later ++ t.toList) := by
      conv_lhs => rw [whole]
      rw [String.ofList_append, String.ofList_toList, String.append_assoc]
    exact truncateUtf8_unique longer short wide

theorem truncateUtf8_append_short {d : String} {max : ℕ} (short : len d ≤ max) (t : String) :
    truncateUtf8 (d ++ t) max = d ++ truncateUtf8 t (max - len d) := by
  obtain ⟨rest, whole, fits, wide⟩ := truncateUtf8_split t (max - len d)
  have longer : d ++ t = d ++ truncateUtf8 t (max - len d) ++ String.ofList rest := by
    rw [String.append_assoc, ← whole]
  refine truncateUtf8_unique longer ?_ ?_
  · rw [len_append]
    omega
  · intro c head
    have next := wide c head
    rw [len_append]
    omega

theorem truncateUtf8_zero (s : String) : truncateUtf8 s 0 = "" := by
  obtain ⟨-, -, short, -⟩ := truncateUtf8_split s 0
  exact String.utf8ByteSize_eq_zero_iff.mp (Nat.le_zero.mp short)

@[simp]
theorem sanitizeReason_append (s t : String) :
    sanitizeReason (s ++ t) = sanitizeReason s ++ sanitizeReason t := by
  simp only [sanitizeReason, String.toList_append, List.map_append, String.ofList_append]

theorem sanitizeReason_of_clean {s : String} (safe : clean s = true) : sanitizeReason s = s := by
  simp only [clean, List.all_eq_true, Bool.not_eq_true'] at safe
  have same : s.toList.map (fun c => if isControl c then '?' else c) = s.toList := by
    rw [List.map_congr_left (g := id) fun c mem => by simp [safe c mem], List.map_id]
  rw [sanitizeReason, same, String.ofList_toList]

private theorem truncateUtf8_clean {s : String} (safe : clean s = true) (max : ℕ) :
    clean (truncateUtf8 s max) = true := by
  obtain ⟨rest, whole, -, -⟩ := truncateUtf8_split s max
  rw [whole, clean_append, Bool.and_eq_true] at safe
  exact safe.1

theorem trimmedReason_clean (reason : String) : clean (trimmedReason reason) = true :=
  truncateUtf8_clean (sanitizeReason_clean reason) maxLastErrorBytes

theorem trimmedReason_len (reason : String) : len (trimmedReason reason) ≤ maxLastErrorBytes := by
  obtain ⟨-, -, short, -⟩ := truncateUtf8_split (sanitizeReason reason) maxLastErrorBytes
  exact short

/-- Cutting a text at a limit, exactly: no code point is split, and every longer prefix is over
the limit. The loop passes only indices that are not boundaries, at most three of them. -/
structure ExactCut (s : String) (max : ℕ) (cut : String) : Prop where
  boundary : isCharBoundary s (len cut) = true
  initial : ∃ rest, s = cut ++ rest
  short : len cut ≤ max
  longest : ∀ p rest, s = p ++ rest → len p ≤ max → len p ≤ len cut
  passed : max < len s → ∀ index, len cut < index → index ≤ max → isCharBoundary s index = false
  steps : max < len s → max ≤ len cut + 3

/-- Replacing the control characters of a text, exactly. -/
structure Sanitised (s cleaned : String) : Prop where
  count : cleaned.toList.length = s.toList.length
  positions : ∀ (i : ℕ) (c : Char), s.toList[i]? = some c →
    cleaned.toList[i]? = some (if isControl c then '?' else c)
  controlFree : clean cleaned = true
  bytes : len cleaned ≤ len s
  again : sanitizeReason cleaned = cleaned

private theorem truncateUtf8_longest {s p rest : String} {max : ℕ} (whole : s = p ++ rest)
    (short : len p ≤ max) : len p ≤ len (truncateUtf8 s max) := by
  obtain ⟨rest', whole', -, wide⟩ := truncateUtf8_split s max
  have same : (truncateUtf8 s max).toList ++ rest' = p.toList ++ rest.toList := by
    have texts := congrArg String.toList (whole'.symm.trans whole)
    simpa only [String.toList_append, String.toList_ofList] using texts
  rw [← String.ofList_toList (s := truncateUtf8 s max)] at wide
  rw [← String.ofList_toList (s := p)] at short
  obtain ⟨more, longer⟩ := cut_prefix same wide short
  have text : truncateUtf8 s max = p ++ String.ofList more := by
    rw [← String.toList_inj, String.toList_append, String.toList_ofList, longer]
  rw [text, len_append]
  exact Nat.le_add_right _ _

private theorem boundary_prefix {s : String} {index : ℕ}
    (boundary : isCharBoundary s index = true) : ∃ p rest, s = p ++ rest ∧ len p = index := by
  obtain ⟨p, rest, whole, ends⟩ :=
    String.Pos.Raw.isValid_iff_exists_append.mp (isCharBoundary_iff.mp boundary)
  exact ⟨p, rest, whole, (congrArg String.Pos.Raw.byteIdx ends).symm⟩

private theorem boundary_of_prefix (p rest : String) : isCharBoundary (p ++ rest) (len p) = true :=
  isCharBoundary_iff.mpr (String.Pos.Raw.isValid_iff_exists_append.mpr ⟨p, rest, rfl, rfl⟩)

private theorem truncateUtf8_exact (s : String) (max : ℕ) : ExactCut s max
    (truncateUtf8 s max) := by
  obtain ⟨rest, whole, short, -⟩ := truncateUtf8_split s max
  refine ⟨?_, ⟨_, whole⟩, short, fun p rest => truncateUtf8_longest, ?_, ?_⟩
  · have cut := boundary_of_prefix (truncateUtf8 s max) (String.ofList rest)
    rwa [← whole] at cut
  · intro _ index behind within
    by_contra boundary
    obtain ⟨p, rest', whole', size⟩ := boundary_prefix (Bool.not_eq_false _ ▸ boundary)
    have longest := truncateUtf8_longest whole' (size ▸ within)
    omega
  · intro long
    have tight := truncateUtf8_tight long
    omega

private theorem sanitised_bytes (l : List Char) :
    bytes (l.map fun c => if isControl c then '?' else c) ≤ bytes l := by
  induction l with
  | nil => exact Nat.le_refl _
  | cons c l ih =>
    rw [List.map_cons, bytes_cons, bytes_cons]
    refine Nat.add_le_add ?_ ih
    split
    · exact Char.utf8Size_pos c
    · exact Nat.le_refl _

private theorem sanitizeReason_exact (s : String) : Sanitised s (sanitizeReason s) := by
  refine ⟨?_, ?_, sanitizeReason_clean s, ?_, sanitizeReason_of_clean (sanitizeReason_clean s)⟩
  · rw [sanitizeReason, String.toList_ofList, List.length_map]
  · intro i c found
    rw [sanitizeReason, String.toList_ofList, List.getElem?_map, found, Option.map_some]
  · have less := sanitised_bytes s.toList
    rwa [bytes, bytes, String.ofList_toList] at less

/-- The pair leaves a control-free text within the limit and does not change it again. -/
theorem trimming_exact (s : String) (max : ℕ) :
    ExactCut s max (truncateUtf8 s max) ∧ Sanitised s (sanitizeReason s) ∧
      clean (truncateUtf8 (sanitizeReason s) max) = true ∧
      len (truncateUtf8 (sanitizeReason s) max) ≤ max ∧
      truncateUtf8 (sanitizeReason (truncateUtf8 (sanitizeReason s) max)) max =
        truncateUtf8 (sanitizeReason s) max := by
  have safe := truncateUtf8_clean (sanitizeReason_clean s) max
  have short := (truncateUtf8_exact (sanitizeReason s) max).short
  refine ⟨truncateUtf8_exact s max, sanitizeReason_exact s, safe, short, ?_⟩
  rw [sanitizeReason_of_clean safe]
  exact if_pos short

end RustEvents.Worker.Reasons
