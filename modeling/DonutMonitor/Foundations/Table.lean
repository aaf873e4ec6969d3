import Mathlib.Data.List.Nodup
import Mathlib.Tactic.Tauto

/-!
# Tables of rows with a primary key

A `Table key` is a list of rows in insertion order in which no two rows have the same key. The
four statements of a relational store act on it: `get?` selects by key, `insert` adds a row whose
key is absent, `update` rewrites the rows that satisfy a condition and `delete` drops them.

## Main results

* `Table.get?_insert`, `Table.get?_update`, `Table.get?_delete` — what each statement does to the
  row with a given key.
* `Table.get?_put` — an assignment to a key.
* `Table.mem_rows_iff` — a row of the table is the one found under its key.
* `Table.filter_ne_eq_eraseIdx`, `Table.map_if_eq_modify` — a statement by key, by position.
-/

/-- A list of rows in which no two rows have the same key. -/
structure Table {ρ κ : Type*} (key : ρ → κ) where
  /-- The rows, in insertion order. -/
  rows : List ρ
  nodup : (rows.map key).Nodup

namespace Table

variable {ρ κ : Type*} {key : ρ → κ}

/-- The keys of the rows. -/
def keys (t : Table key) : List κ := t.rows.map key

/-- The table without rows. -/
def empty : Table key := ⟨[], List.nodup_nil⟩

/-- Add a row at the end. -/
def insert (t : Table key) (r : ρ) (h : key r ∉ t.keys) : Table key where
  rows := t.rows ++ [r]
  nodup := by
    rw [List.map_append, List.map_singleton, ← List.concat_eq_append]
    exact t.nodup.concat h

/-- Rewrite the rows satisfying `p` by `f`, which keeps the keys. -/
def update (t : Table key) (p : ρ → Bool) (f : ρ → ρ) (hf : ∀ r, key (f r) = key r) :
    Table key where
  rows := t.rows.map fun r => if p r then f r else r
  nodup := by
    have h : (key ∘ fun r => if p r then f r else r) = key := by
      funext r
      simp only [Function.comp_apply]
      split_ifs
      · exact hf r
      · rfl
    rw [List.map_map, h]
    exact t.nodup

/-- Drop the rows satisfying `p`. -/
def delete (t : Table key) (p : ρ → Bool) : Table key where
  rows := t.rows.filter fun r => !p r
  nodup := t.nodup.sublist (List.filter_sublist.map key)

@[simp] theorem rows_empty : (empty : Table key).rows = [] := rfl

@[simp] theorem rows_insert (t : Table key) (r : ρ) (h : key r ∉ t.keys) :
    (t.insert r h).rows = t.rows ++ [r] := rfl

@[simp] theorem rows_update (t : Table key) (p : ρ → Bool) (f : ρ → ρ)
    (hf : ∀ r, key (f r) = key r) :
    (t.update p f hf).rows = t.rows.map fun r => if p r then f r else r := rfl

@[simp] theorem rows_delete (t : Table key) (p : ρ → Bool) :
    (t.delete p).rows = t.rows.filter fun r => !p r := rfl

theorem mem_keys {t : Table key} {k : κ} : k ∈ t.keys ↔ ∃ r ∈ t.rows, key r = k :=
  List.mem_map

theorem mem_keys_of_mem {t : Table key} {r : ρ} (h : r ∈ t.rows) : key r ∈ t.keys :=
  List.mem_map_of_mem h

@[simp] theorem keys_insert (t : Table key) (r : ρ) (h : key r ∉ t.keys) :
    (t.insert r h).keys = t.keys ++ [key r] := by
  simp [keys]

@[simp] theorem keys_update (t : Table key) (p : ρ → Bool) (f : ρ → ρ)
    (hf : ∀ r, key (f r) = key r) : (t.update p f hf).keys = t.keys := by
  rw [keys, rows_update, List.map_map]
  refine List.map_congr_left fun r _ => ?_
  simp only [Function.comp_apply]
  split_ifs
  · exact hf r
  · rfl

variable [DecidableEq κ]

/-- The row with the given key. -/
def get? (t : Table key) (k : κ) : Option ρ := t.rows.find? fun r => key r = k

theorem get?_eq_some {t : Table key} {k : κ} {r : ρ} :
    t.get? k = some r ↔ r ∈ t.rows ∧ key r = k := by
  constructor
  · intro h
    exact ⟨List.mem_of_find?_eq_some h, by simpa using List.find?_some h⟩
  · rintro ⟨hr, rfl⟩
    cases h : t.get? (key r) with
    | none => exact absurd (List.find?_eq_none.mp h r hr) (by simp)
    | some r' =>
      have hr' : r' ∈ t.rows := List.mem_of_find?_eq_some h
      have hk : key r' = key r := by simpa using List.find?_some h
      rw [List.inj_on_of_nodup_map t.nodup hr' hr hk]

theorem key_of_get? {t : Table key} {k : κ} {r : ρ} (h : t.get? k = some r) : key r = k :=
  (get?_eq_some.mp h).2

theorem mem_rows_iff {t : Table key} {r : ρ} : r ∈ t.rows ↔ t.get? (key r) = some r := by
  simp [get?_eq_some]

theorem get?_eq_none {t : Table key} {k : κ} : t.get? k = none ↔ k ∉ t.keys := by
  simp [get?, keys]

theorem mem_keys_iff {t : Table key} {k : κ} : k ∈ t.keys ↔ ∃ r, t.get? k = some r := by
  simp only [mem_keys, get?_eq_some]

@[simp] theorem get?_empty (k : κ) : (empty : Table key).get? k = none := rfl

theorem get?_insert (t : Table key) (r : ρ) (h : key r ∉ t.keys) (k : κ) :
    (t.insert r h).get? k = if k = key r then some r else t.get? k := by
  split_ifs with hk
  · exact get?_eq_some.mpr ⟨by simp, hk.symm⟩
  · have hk' : ¬ key r = k := fun h => hk h.symm
    simp [get?, hk']

theorem get?_update (t : Table key) (p : ρ → Bool) (f : ρ → ρ) (hf : ∀ r, key (f r) = key r)
    (k : κ) :
    (t.update p f hf).get? k = (t.get? k).map fun r => if p r then f r else r := by
  have hkey : ∀ r, key (if p r then f r else r) = key r := fun r => by
    split_ifs
    · exact hf r
    · rfl
  simp only [get?, rows_update, List.find?_map, Function.comp_def, hkey]

theorem get?_delete (t : Table key) (p : ρ → Bool) (k : κ) :
    (t.delete p).get? k = (t.get? k).filter fun r => !p r := by
  ext r
  simp only [get?_eq_some, rows_delete, List.mem_filter, Option.filter_eq_some_iff]
  tauto

/-- Put a row under its key, in the place of a row with that key or at the end. -/
def put (t : Table key) (r : ρ) : Table key :=
  if h : key r ∈ t.keys then
    { rows := t.rows.map fun r' => if key r' = key r then r else r'
      nodup := by
        have hkeys : (key ∘ fun r' => if key r' = key r then r else r') = key := by
          funext r'
          simp only [Function.comp_apply]
          split_ifs with heq
          · exact heq.symm
          · rfl
        rw [List.map_map, hkeys]
        exact t.nodup }
  else t.insert r h

theorem get?_put (t : Table key) (r : ρ) (k : κ) :
    (t.put r).get? k = if k = key r then some r else t.get? k := by
  by_cases h : key r ∈ t.keys
  · have hrows : (t.put r).rows = t.rows.map fun r' => if key r' = key r then r else r' := by
      rw [put, dif_pos h]
    split_ifs with hk
    · obtain ⟨r', hr', hkey⟩ := mem_keys.mp h
      refine get?_eq_some.mpr ⟨?_, hk.symm⟩
      rw [hrows]
      exact List.mem_map.mpr ⟨r', hr', if_pos hkey⟩
    · ext r'
      rw [get?_eq_some, get?_eq_some, hrows, List.mem_map]
      constructor
      · rintro ⟨⟨r'', hr'', rfl⟩, rfl⟩
        split_ifs at hk ⊢ with heq
        · exact absurd rfl hk
        · exact ⟨hr'', rfl⟩
      · rintro ⟨hr', rfl⟩
        exact ⟨⟨r', hr', if_neg hk⟩, rfl⟩
  · rw [put, dif_neg h, get?_insert]

/-! ### Rows by position -/

/-- Dropping the row with the key of the row at a position drops that position. -/
theorem filter_ne_eq_eraseIdx {rows : List ρ} (hnodup : (rows.map key).Nodup) {i : ℕ} {r : ρ}
    (hr : rows[i]? = some r) : (rows.filter fun r' => key r' ≠ key r) = rows.eraseIdx i := by
  induction rows generalizing i with
  | nil => cases hr
  | cons first rows ih =>
    obtain ⟨hnotin, hnodup⟩ := List.nodup_cons.mp hnodup
    cases i with
    | zero =>
      obtain rfl := Option.some.inj hr
      rw [List.eraseIdx_cons_zero, List.filter_cons_of_neg (by simp), List.filter_eq_self]
      intro r' hr'
      have hne : key r' ≠ key first := fun heq => hnotin (heq ▸ List.mem_map_of_mem hr')
      exact decide_eq_true hne
    | succ i =>
      have hne : key first ≠ key r := fun heq =>
        hnotin (heq ▸ List.mem_map_of_mem (List.mem_of_getElem? hr))
      rw [List.eraseIdx_cons_succ, List.filter_cons_of_pos (by simpa using hne), ih hnodup hr]

/-- Rewriting the row with the key of the row at a position rewrites that position. -/
theorem map_if_eq_modify {rows : List ρ} (hnodup : (rows.map key).Nodup) {i : ℕ} {r : ρ}
    (hr : rows[i]? = some r) (f : ρ → ρ) :
    (rows.map fun r' => if key r' = key r then f r' else r') = rows.modify i f := by
  induction rows generalizing i with
  | nil => cases hr
  | cons first rows ih =>
    obtain ⟨hnotin, hnodup⟩ := List.nodup_cons.mp hnodup
    cases i with
    | zero =>
      obtain rfl := Option.some.inj hr
      have hrest : (rows.map fun r' => if key r' = key first then f r' else r') = rows := by
        conv_rhs => rw [← List.map_id rows]
        refine List.map_congr_left fun r' hr' => ?_
        have hne : key r' ≠ key first := fun heq => hnotin (heq ▸ List.mem_map_of_mem hr')
        rw [if_neg hne, id]
      rw [List.map_cons, if_pos rfl, hrest, List.modify_zero_cons]
    | succ i =>
      have hne : key first ≠ key r := fun heq =>
        hnotin (heq ▸ List.mem_map_of_mem (List.mem_of_getElem? hr))
      rw [List.map_cons, if_neg hne, ih hnodup hr, List.modify_succ_cons]

end Table
