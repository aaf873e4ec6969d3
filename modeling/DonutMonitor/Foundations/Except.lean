import Mathlib.Init

/-!
# Fallible computations

The inversion of a bind of `Except`: a computation that returns has computed each of its parts. Two
computations are related when both return related values or both raise the same exception.

## Main results

* `Except.foldlM_invariant` — what each turn of a fallible loop preserves, the loop preserves.
* `Except.Rel.bind`, `Except.Rel.foldlM` — related computations in sequence and in loops.
-/

namespace Except

universe u v

variable {ε : Type u} {α β : Type v}

theorem bind_eq_ok {x : Except ε α} {f : α → Except ε β} {b : β} :
    x >>= f = .ok b ↔ ∃ a, x = .ok a ∧ f a = .ok b := by
  cases x with
  | error e => exact ⟨nofun, nofun⟩
  | ok a => exact ⟨fun h => ⟨a, rfl, h⟩, fun ⟨_, ha, h⟩ => Except.ok.inj ha ▸ h⟩

theorem map_eq_ok {x : Except ε α} {f : α → β} {b : β} :
    x.map f = .ok b ↔ ∃ a, x = .ok a ∧ f a = b := by
  cases x with
  | error e => exact ⟨nofun, nofun⟩
  | ok a => exact ⟨fun h => ⟨a, rfl, Except.ok.inj h⟩, fun ⟨_, ha, h⟩ => Except.ok.inj ha ▸ h ▸ rfl⟩

theorem toOption_eq_some {x : Except ε α} {a : α} : x.toOption = some a ↔ x = .ok a := by
  cases x with
  | error e => exact ⟨nofun, nofun⟩
  | ok b => exact ⟨fun h => congrArg _ (Option.some.inj h), fun h => congrArg _ (Except.ok.inj h)⟩

/-- What each turn of a loop preserves when it returns, the loop preserves. -/
theorem foldlM_invariant {f : β → α → Except ε β} {l : List α} {I : β → Prop} {b b' : β}
    (hI : ∀ b a b', a ∈ l → I b → f b a = .ok b' → I b') (hfold : l.foldlM f b = .ok b')
    (hb : I b) : I b' := by
  induction l generalizing b with
  | nil => exact Except.ok.inj hfold ▸ hb
  | cons a l ih =>
    rw [List.foldlM_cons] at hfold
    obtain ⟨next, hnext, hfold⟩ := bind_eq_ok.mp hfold
    exact ih (fun b a b' ha => hI b a b' (List.mem_cons_of_mem _ ha)) hfold
      (hI b a next List.mem_cons_self hb hnext)

/-- Both computations return related values, or both raise the same exception. -/
inductive Rel {β' : Type v} (R : β → β' → Prop) : Except ε β → Except ε β' → Prop
  | error (e : ε) : Rel R (.error e) (.error e)
  | ok {b : β} {b' : β'} (h : R b b') : Rel R (.ok b) (.ok b')

namespace Rel

variable {α' β' : Type v} {R : α → α' → Prop} {S : β → β' → Prop}

theorem refl {R : α → α → Prop} (h : ∀ a, R a a) {x : Except ε α} : Rel R x x := by
  cases x with
  | error e => exact .error e
  | ok a => exact .ok (h a)

/-- Related results are results of the two computations. -/
theorem attach {x : Except ε α} {x' : Except ε α'} (hx : Rel R x x') :
    Rel (fun a a' => R a a' ∧ x = .ok a ∧ x' = .ok a') x x' := by
  cases hx with
  | error e => exact .error e
  | ok h => exact .ok ⟨h, rfl, rfl⟩

theorem bind {x : Except ε α} {x' : Except ε α'} {f : α → Except ε β} {f' : α' → Except ε β'}
    (hx : Rel R x x') (hf : ∀ a a', R a a' → Rel S (f a) (f' a')) :
    Rel S (x >>= f) (x' >>= f') := by
  cases hx with
  | error e => exact .error e
  | ok h => exact hf _ _ h

theorem map {x : Except ε α} {x' : Except ε α'} {f : α → β} {f' : α' → β'} (hx : Rel R x x')
    (hf : ∀ a a', R a a' → S (f a) (f' a')) : Rel S (x.map f) (x'.map f') := by
  cases hx with
  | error e => exact .error e
  | ok h => exact .ok (hf _ _ h)

theorem mono {R' : α → α' → Prop} {x : Except ε α} {x' : Except ε α'} (hx : Rel R x x')
    (hR : ∀ a a', R a a' → R' a a') : Rel R' x x' := by
  cases hx with
  | error e => exact .error e
  | ok h => exact .ok (hR _ _ h)

/-- Two loops whose turns keep a relation, the second one over the images of the first. -/
theorem foldlM {α α' : Type*} {R : β → β' → Prop} {f : β → α → Except ε β}
    {f' : β' → α' → Except ε β'} {g : α → α'} {l : List α} {b : β} {b' : β'}
    (hf : ∀ b b' a, a ∈ l → R b b' → Rel R (f b a) (f' b' (g a))) (hb : R b b') :
    Rel R (l.foldlM f b) ((l.map g).foldlM f' b') := by
  induction l generalizing b b' with
  | nil => exact .ok hb
  | cons a l ih =>
    rw [List.map_cons, List.foldlM_cons, List.foldlM_cons]
    exact (hf b b' a List.mem_cons_self hb).bind fun next next' hnext =>
      ih (fun b b' a ha => hf b b' a (List.mem_cons_of_mem _ ha)) hnext

end Rel

end Except
