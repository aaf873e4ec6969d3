import Mathlib.Data.List.Induction
import Mathlib.Data.List.Nodup

/-!
# Grouping a list by a key

A list is grouped by adding its elements one after the other to the group of their key, at the end
of the groups where there is none yet.  Each key then has one group, which holds the elements with
that key in their order.

## Main definitions

* `Grouping.addTo` — one element is added.
* `Grouping.IsGrouping` — what holds of the groups of a list.

## Main results

* `Grouping.isGrouping_foldl` — adding the elements one after the other groups the list.
* `Grouping.IsGrouping.flatMap_perm` — some of the groups hold the elements with their keys.
-/

namespace Grouping

variable {α κ : Type*} [DecidableEq κ] (key : α → κ)

/-- Add an element to the group of its key. -/
def addTo (groups : List (κ × List α)) (x : α) : List (κ × List α) :=
  if groups.any fun g => g.1 = key x then
    groups.map fun g => if g.1 = key x then (g.1, g.2 ++ [x]) else g
  else groups ++ [(key x, [x])]

/-- The groups are those of the list. -/
structure IsGrouping (xs : List α) (groups : List (κ × List α)) : Prop where
  nodup : (groups.map Prod.fst).Nodup
  mem_iff : ∀ k, k ∈ groups.map Prod.fst ↔ ∃ x ∈ xs, key x = k
  members : ∀ g ∈ groups, g.2 = xs.filter fun x => key x = g.1

variable {key} {xs : List α} {groups : List (κ × List α)}

private theorem any_iff (x : α) :
    (groups.any fun g => g.1 = key x) = true ↔ key x ∈ groups.map Prod.fst := by
  simp only [List.any_eq_true, decide_eq_true_iff, List.mem_map]

theorem map_fst_addTo (x : α) :
    (addTo key groups x).map Prod.fst =
      if key x ∈ groups.map Prod.fst then groups.map Prod.fst
      else groups.map Prod.fst ++ [key x] := by
  rw [addTo]
  by_cases hmem : key x ∈ groups.map Prod.fst
  · rw [if_pos ((any_iff x).mpr hmem), if_pos hmem, List.map_map]
    refine List.map_congr_left fun g _ => ?_
    simp only [Function.comp_apply]
    split_ifs <;> rfl
  · rw [if_neg (mt (any_iff x).mp hmem), if_neg hmem, List.map_append, List.map_singleton]

/-- Adding an element keeps the grouping. -/
theorem IsGrouping.addTo (h : IsGrouping key xs groups) (x : α) :
    IsGrouping key (xs ++ [x]) (addTo key groups x) := by
  have hnew : key x ∉ groups.map Prod.fst → xs.filter (fun y => key y = key x) = [] := by
    intro hmem
    rw [List.filter_eq_nil_iff]
    exact fun y hy heq => hmem ((h.mem_iff _).mpr ⟨y, hy, of_decide_eq_true heq⟩)
  refine ⟨?_, fun k => ?_, fun g hg => ?_⟩
  · rw [map_fst_addTo]
    split_ifs with hmem
    · exact h.nodup
    · rw [← List.concat_eq_append]
      exact h.nodup.concat hmem
  · rw [map_fst_addTo]
    split_ifs with hmem
    · rw [h.mem_iff]
      constructor
      · rintro ⟨y, hy, rfl⟩
        exact ⟨y, List.mem_append_left _ hy, rfl⟩
      · rintro ⟨y, hy, rfl⟩
        rcases List.mem_append.mp hy with hy | hy
        · exact ⟨y, hy, rfl⟩
        · obtain rfl := List.mem_singleton.mp hy
          exact (h.mem_iff _).mp hmem
    · rw [List.mem_append, h.mem_iff, List.mem_singleton]
      constructor
      · rintro (⟨y, hy, rfl⟩ | rfl)
        · exact ⟨y, List.mem_append_left _ hy, rfl⟩
        · exact ⟨x, by simp, rfl⟩
      · rintro ⟨y, hy, rfl⟩
        rcases List.mem_append.mp hy with hy | hy
        · exact .inl ⟨y, hy, rfl⟩
        · exact .inr (congrArg key (List.mem_singleton.mp hy))
  · rw [List.filter_append, List.filter_singleton]
    rw [Grouping.addTo] at hg
    split_ifs at hg with hany
    · obtain ⟨g', hg', rfl⟩ := List.mem_map.mp hg
      by_cases hkey : g'.1 = key x
      · simp [hkey, h.members g' hg']
      · simp [hkey, Ne.symm hkey, h.members g' hg']
    · have hmem : key x ∉ groups.map Prod.fst := mt (any_iff x).mpr hany
      rcases List.mem_append.mp hg with hg | hg
      · have hkey : ¬ key x = g.1 := fun heq => hmem (heq ▸ List.mem_map_of_mem hg)
        simp [hkey, h.members g hg]
      · obtain rfl := List.mem_singleton.mp hg
        simp [hnew hmem]

/-- Adding the elements one after the other groups the list. -/
theorem isGrouping_foldl (xs : List α) : IsGrouping key xs (xs.foldl (Grouping.addTo key) []) := by
  induction xs using List.reverseRecOn with
  | nil => exact ⟨List.nodup_nil, by simp, by simp⟩
  | append_singleton xs x ih =>
    rw [List.foldl_append]
    exact ih.addTo x

/-- The elements that satisfy one of two conditions that exclude each other. -/
private theorem filter_append_perm_or {p q : α → Bool} (h : ∀ x, p x = true → q x = false)
    (xs : List α) : (xs.filter p ++ xs.filter q).Perm (xs.filter fun x => p x || q x) := by
  induction xs with
  | nil => exact List.Perm.refl _
  | cons x xs ih =>
    cases hp : p x with
    | true => simpa [hp, h x hp] using ih
    | false =>
      cases hq : q x with
      | true => simpa [hp, hq] using List.perm_middle.trans (ih.cons x)
      | false => simpa [hp, hq] using ih

/-- Some of the groups hold the elements with their keys. -/
theorem IsGrouping.flatMap_perm (h : IsGrouping key xs groups) {gs : List (κ × List α)}
    (hgs : gs.Sublist groups) :
    (gs.flatMap Prod.snd).Perm (xs.filter fun x => key x ∈ gs.map Prod.fst) := by
  have hnodup : (gs.map Prod.fst).Nodup := h.nodup.sublist (hgs.map _)
  have hmembers : ∀ g ∈ gs, g.2 = xs.filter fun x => key x = g.1 :=
    fun g hg => h.members g (hgs.subset hg)
  clear hgs
  induction gs with
  | nil => simp
  | cons g gs ih =>
    rw [List.map_cons, List.nodup_cons] at hnodup
    rw [List.flatMap_cons, hmembers g List.mem_cons_self]
    refine ((List.perm_append_left_iff _).mpr
      (ih hnodup.2 fun g' hg' => hmembers g' (List.mem_cons_of_mem _ hg'))).trans ?_
    have hdisjoint : ∀ x, decide (key x = g.1) = true →
        decide (key x ∈ gs.map Prod.fst) = false := fun x hx => by
      rw [of_decide_eq_true hx]
      exact decide_eq_false hnodup.1
    simpa only [List.map_cons, List.mem_cons, Bool.decide_or] using
      filter_append_perm_or hdisjoint xs

end Grouping
