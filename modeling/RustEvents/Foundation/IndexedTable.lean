/- module: RustEvents/Foundation/IndexedTable
   layer: library
   digest: Finite tables that carry their unique indexes, with keyed lookup, insert, update and delete. -/

import Mathlib.Data.List.Basic
import Mathlib.Data.List.Pairwise
import Mathlib.Data.Option.Basic

set_option autoImplicit false
set_option relaxedAutoImplicit false

namespace RustEvents.Foundation.IndexedTable

/-- Rows in insertion order. `apart` states all unique indexes of the table at
once: two rows are apart when no index gives them the same entry. -/
structure Table (ρ : Type*) (apart : ρ → ρ → Prop) where
  rows : List ρ
  unique : rows.Pairwise apart

/-- An update of a single row that leaves every indexed column alone. -/
structure RowUpdate {ρ : Type*} (apart : ρ → ρ → Prop) where
  apply : ρ → ρ
  left : ∀ a b, apart (apply a) b ↔ apart a b
  right : ∀ a b, apart a (apply b) ↔ apart a b

/-- The column `key` is covered by one of the unique indexes. -/
def Separates {ρ κ : Type*} (apart : ρ → ρ → Prop) (key : ρ → κ) : Prop :=
  ∀ a b, apart a b → key a ≠ key b

namespace Table

variable {ρ κ : Type*} {apart : ρ → ρ → Prop}

@[ext]
theorem ext {t u : Table ρ apart} (rows : t.rows = u.rows) : t = u := by
  cases t
  cases u
  cases rows
  rfl

/-- The table without rows. -/
def empty : Table ρ apart := ⟨[], List.Pairwise.nil⟩

/-- Append one row; `none` is a violated unique index. -/
def insert [DecidableRel apart] (t : Table ρ apart) (r : ρ) : Option (Table ρ apart) :=
  if free : ∀ s ∈ t.rows, apart s r then
    some ⟨t.rows ++ [r], List.pairwise_append.mpr ⟨t.unique, List.pairwise_singleton _ _, by
      intro a ha b hb
      exact List.mem_singleton.mp hb ▸ free a ha⟩⟩
  else none

/-- Append several rows in order; `none` is a violated unique index. -/
def insertAll [DecidableRel apart] : Table ρ apart → List ρ → Option (Table ρ apart)
  | t, [] => some t
  | t, r :: rs => (t.insert r).bind fun u => u.insertAll rs

/-- Apply `change` to the rows selected by `hit`. -/
def update (t : Table ρ apart) (hit : ρ → Bool) (change : RowUpdate apart) : Table ρ apart where
  rows := t.rows.map fun r => if hit r then change.apply r else r
  unique := by
    refine List.pairwise_map.mpr (t.unique.imp ?_)
    intro a b hab
    split <;> split
    · exact (change.left _ _).mpr ((change.right _ _).mpr hab)
    · exact (change.left _ _).mpr hab
    · exact (change.right _ _).mpr hab
    · exact hab

/-- Remove the rows selected by `hit`. -/
def delete (t : Table ρ apart) (hit : ρ → Bool) : Table ρ apart where
  rows := t.rows.filter fun r => !hit r
  unique := t.unique.filter _

/-- The row whose column `key` holds `k`. -/
def find [DecidableEq κ] (t : Table ρ apart) (key : ρ → κ) (k : κ) : Option ρ :=
  t.rows.find? fun r => key r = k

theorem insert_eq_some [DecidableRel apart] {t u : Table ρ apart} {r : ρ} :
    t.insert r = some u ↔ (∀ s ∈ t.rows, apart s r) ∧ u.rows = t.rows ++ [r] := by
  simp only [insert]
  split
  · next free =>
    constructor
    · intro eqn
      exact ⟨free, (congrArg Table.rows (Option.some.inj eqn)).symm⟩
    · rintro ⟨_, eqn⟩
      exact congrArg some (Table.ext eqn.symm)
  · next taken => simp [taken]

theorem insertAll_rows [DecidableRel apart] {t u : Table ρ apart} {rs : List ρ}
    (done : t.insertAll rs = some u) : u.rows = t.rows ++ rs := by
  induction rs generalizing t with
  | nil =>
    cases Option.some.inj done
    simp
  | cons r rs ih =>
    obtain ⟨v, first, rest⟩ := Option.bind_eq_some_iff.mp done
    rw [ih rest, (insert_eq_some.mp first).2, List.append_assoc, List.singleton_append]

theorem insertAll_isSome [DecidableRel apart] {t : Table ρ apart} {rs : List ρ}
    (free : (t.rows ++ rs).Pairwise apart) : ∃ u, t.insertAll rs = some u := by
  induction rs generalizing t with
  | nil => exact ⟨t, rfl⟩
  | cons r rs ih =>
    have head : ∀ s ∈ t.rows, apart s r := by
      intro s hs
      exact (List.pairwise_append.mp free).2.2 s hs r List.mem_cons_self
    obtain ⟨v, first⟩ : ∃ v, t.insert r = some v := by
      simp only [insert, dif_pos head]
      exact ⟨_, rfl⟩
    have rows := (insert_eq_some.mp first).2
    obtain ⟨u, rest⟩ := ih (t := v) (by
      rw [rows, List.append_assoc, List.singleton_append]
      exact free)
    refine ⟨u, ?_⟩
    simp only [insertAll, first, Option.bind_some, rest]

theorem mem_delete {t : Table ρ apart} {hit : ρ → Bool} {r : ρ} :
    r ∈ (t.delete hit).rows ↔ r ∈ t.rows ∧ hit r = false := by
  simp [delete]

theorem delete_delete (t : Table ρ apart) (hit hit' : ρ → Bool) :
    (t.delete hit).delete hit' = t.delete fun r => hit r || hit' r := by
  apply ext
  simp only [delete, List.filter_filter]
  refine List.filter_congr fun r _ => ?_
  rw [Bool.not_or, Bool.and_comm]

theorem delete_congr {t : Table ρ apart} {hit hit' : ρ → Bool}
    (agree : ∀ r ∈ t.rows, hit r = hit' r) : t.delete hit = t.delete hit' := by
  apply ext
  exact List.filter_congr fun r stored => by rw [agree r stored]

theorem delete_none {t : Table ρ apart} {hit : ρ → Bool} (quiet : ∀ r ∈ t.rows, hit r = false) :
    t.delete hit = t := by
  apply ext
  refine List.filter_eq_self.mpr fun r stored => ?_
  rw [quiet r stored, Bool.not_false]

theorem keys_nodup {key : ρ → κ} (separates : Separates apart key) (t : Table ρ apart) :
    (t.rows.map key).Nodup :=
  List.pairwise_map.mpr (t.unique.imp (separates _ _))

theorem mem_update {t : Table ρ apart} {hit : ρ → Bool} {change : RowUpdate apart} {r : ρ} :
    r ∈ (t.update hit change).rows ↔
      ∃ s ∈ t.rows, (if hit s then change.apply s else s) = r := by
  simp [update]

section Lookup

variable [DecidableEq κ] {key : ρ → κ}

theorem find_mem {t : Table ρ apart} {k : κ} {r : ρ} (found : t.find key k = some r) :
    r ∈ t.rows ∧ key r = k := by
  refine ⟨List.mem_of_find?_eq_some found, ?_⟩
  simpa using List.find?_some found

theorem find_eq_none {t : Table ρ apart} {k : κ} :
    t.find key k = none ↔ ∀ r ∈ t.rows, key r ≠ k := by
  simp [find]

private theorem find?_pairwise {l : List ρ} (unique : l.Pairwise apart)
    (separates : Separates apart key) {r : ρ} (mem : r ∈ l) :
    l.find? (fun s => key s = key r) = some r := by
  induction l with
  | nil => cases mem
  | cons s l ih =>
    rw [List.pairwise_cons] at unique
    rw [List.find?_cons]
    rcases List.mem_cons.mp mem with rfl | later
    · simp
    · have differ : key s ≠ key r := separates s r (unique.1 r later)
      simp only [differ, decide_false]
      exact ih unique.2 later

theorem find_eq_some (separates : Separates apart key) {t : Table ρ apart} {k : κ} {r : ρ} :
    t.find key k = some r ↔ r ∈ t.rows ∧ key r = k := by
  constructor
  · exact find_mem
  · rintro ⟨mem, rfl⟩
    exact find?_pairwise t.unique separates mem

theorem eq_of_key (separates : Separates apart key) {t : Table ρ apart} {r s : ρ}
    (stored : r ∈ t.rows) (stored' : s ∈ t.rows) (same : key r = key s) : r = s := by
  have first : t.find key (key s) = some r := (find_eq_some separates).mpr ⟨stored, same⟩
  have second : t.find key (key s) = some s := (find_eq_some separates).mpr ⟨stored', rfl⟩
  exact Option.some.inj (first.symm.trans second)

theorem countP_keys (separates : Separates apart key) (t : Table ρ apart) {ks : List κ}
    (distinct : ks.Nodup) (stored : ∀ k ∈ ks, ∃ r ∈ t.rows, key r = k) :
    t.rows.countP (fun r => key r ∈ ks) = ks.length := by
  have hits : ((t.rows.filter fun r => key r ∈ ks).map key).Perm ks := by
    refine (List.perm_ext_iff_of_nodup ?_ distinct).mpr fun k => ?_
    · exact (keys_nodup separates t).sublist (List.filter_sublist.map key)
    · simp only [List.mem_map, List.mem_filter, decide_eq_true_eq]
      constructor
      · rintro ⟨r, ⟨-, mem⟩, rfl⟩
        exact mem
      · intro mem
        obtain ⟨r, here, rfl⟩ := stored k mem
        exact ⟨r, ⟨here, mem⟩, rfl⟩
  rw [List.countP_eq_length_filter, ← hits.length_eq, List.length_map]

private theorem filter_key (separates : Separates apart key) (t : Table ρ apart) (k : κ) :
    t.rows.filter (fun r => key r = k) = (t.find key k).toList := by
  have rows : ∀ l : List ρ, l.Pairwise apart →
      l.filter (fun r => key r = k) = (l.find? fun r => key r = k).toList := by
    intro l unique
    induction l with
    | nil => rfl
    | cons r l ih =>
      rw [List.pairwise_cons] at unique
      by_cases same : key r = k
      · have alone : l.filter (fun s => key s = k) = [] := by
          rw [List.filter_eq_nil_iff]
          intro s stored
          simpa [same] using Ne.symm (separates r s (unique.1 s stored))
        simp [same, alone]
      · simp [same, ih unique.2]
  exact rows t.rows t.unique

theorem filter_within (separates : Separates apart key) (t : Table ρ apart) (k : κ)
    {hit : ρ → Bool} (within : ∀ r ∈ t.rows, hit r = true → key r = k) :
    t.rows.filter hit = (t.find key k).toList.filter hit := by
  rw [← filter_key separates, List.filter_filter]
  refine List.filter_congr ?_
  intro r stored
  cases chosen : hit r with
  | false => rfl
  | true => simp [within r stored chosen]

theorem find_update {t : Table ρ apart} {hit : ρ → Bool} {change : RowUpdate apart}
    (keeps : ∀ r, key (change.apply r) = key r) (k : κ) :
    (t.update hit change).find key k =
      (t.find key k).map fun r => if hit r then change.apply r else r := by
  have same : ∀ r, key (if hit r then change.apply r else r) = key r := by
    intro r
    split
    · exact keeps r
    · rfl
  simp only [find, update, List.find?_map, Function.comp_def, same]

theorem find_delete (separates : Separates apart key) {t : Table ρ apart} {hit : ρ → Bool}
    {k : κ} {r : ρ} :
    (t.delete hit).find key k = some r ↔ t.find key k = some r ∧ hit r = false := by
  rw [find_eq_some separates, find_eq_some separates, mem_delete]
  tauto

end Lookup

end Table

end RustEvents.Foundation.IndexedTable
