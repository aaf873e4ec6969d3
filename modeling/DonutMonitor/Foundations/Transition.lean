import Mathlib.Logic.Relation
import Mathlib.Data.List.Induction

/-!
# Labelled transition functions and their runs

A transition function `step : σ → α → Option σ` answers `none` when the label is not enabled.
`Transition.run` folds it along a list of labels, `Transition.Along` says that a condition on
the state and the label holds at every step of a run, and `Transition.Reachable` collects the
states that runs reach.

## Main results

* `Transition.run_append` — a run of a concatenation splits at every point.
* `Transition.run_invariant`, `Transition.run_invariant_along` — the induction over a run, for an
  invariant preserved by all steps, or by those that meet a condition.
* `Transition.run_induction` — the induction over a run and its labels, by the last step.
* `Transition.run_count` — what steps add to a count, runs do.
* `Transition.run_account` — what steps pay from a credit and earn for it, runs do.
-/

namespace Transition

variable {σ α : Type*} (step : σ → α → Option σ)

/-- The state after the labels of the list, or `none` when one of them is not enabled. -/
def run (s : σ) : List α → Option σ
  | [] => some s
  | a :: as => (step s a).bind fun t => run t as

/-- `P` holds of the state and the label at every step of the run from `s`. -/
def Along (P : σ → α → Prop) (s : σ) : List α → Prop
  | [] => True
  | a :: as => P s a ∧ ∀ t, step s a = some t → Along P t as

/-- The states that some run from `s` reaches. -/
def Reachable (s t : σ) : Prop := ∃ as, run step s as = some t

@[simp] theorem run_nil (s : σ) : run step s [] = some s := rfl

theorem run_cons {s t : σ} {a : α} {as : List α} :
    run step s (a :: as) = some t ↔ ∃ m, step s a = some m ∧ run step m as = some t :=
  Option.bind_eq_some_iff

theorem run_append {s t : σ} {as bs : List α} :
    run step s (as ++ bs) = some t ↔ ∃ m, run step s as = some m ∧ run step m bs = some t := by
  induction as generalizing s with
  | nil => simp
  | cons a as ih =>
    simp only [List.cons_append, run_cons, ih]
    constructor
    · rintro ⟨m, hm, n, hn, ht⟩
      exact ⟨n, ⟨m, hm, hn⟩, ht⟩
    · rintro ⟨n, ⟨m, hm, hn⟩, ht⟩
      exact ⟨m, hm, n, hn, ht⟩

theorem run_singleton {s t : σ} {a : α} : run step s [a] = some t ↔ step s a = some t := by
  simp [run_cons]

theorem along_cons {P : σ → α → Prop} {s : σ} {a : α} {as : List α} :
    Along step P s (a :: as) ↔ P s a ∧ ∀ t, step s a = some t → Along step P t as :=
  Iff.rfl

theorem along_append {P : σ → α → Prop} {s : σ} {as bs : List α} :
    Along step P s (as ++ bs) ↔
      Along step P s as ∧ ∀ m, run step s as = some m → Along step P m bs := by
  induction as generalizing s with
  | nil => simp [Along]
  | cons a as ih =>
    simp only [List.cons_append, along_cons, ih, run_cons]
    constructor
    · rintro ⟨ha, h⟩
      exact ⟨⟨ha, fun n hn => (h n hn).1⟩, fun m ⟨n, hn, hm⟩ => (h n hn).2 m hm⟩
    · rintro ⟨⟨ha, h⟩, hrest⟩
      exact ⟨ha, fun n hn => ⟨h n hn, fun m hm => hrest m ⟨n, hn, hm⟩⟩⟩

/-- A condition on the labels alone. -/
theorem along_of_forall {P : α → Prop} {s : σ} {as : List α} (h : ∀ a ∈ as, P a) :
    Along step (fun _ a => P a) s as := by
  induction as generalizing s with
  | nil => trivial
  | cons a as ih =>
    exact ⟨h a List.mem_cons_self, fun t _ => ih fun b hb => h b (List.mem_cons_of_mem a hb)⟩

instance Along.instDecidable {P : σ → α → Prop} [∀ s a, Decidable (P s a)] :
    ∀ (s : σ) (as : List α), Decidable (Along step P s as)
  | _, [] => isTrue trivial
  | s, a :: as =>
    match h : step s a with
    | none => decidable_of_iff (P s a) ⟨fun hP => ⟨hP, fun t ht => by simp [h] at ht⟩, And.left⟩
    | some t =>
      have : Decidable (Along step P t as) := Along.instDecidable t as
      decidable_of_iff (P s a ∧ Along step P t as)
        ⟨fun hP => ⟨hP.1, fun u hu => Option.some.inj (h.symm.trans hu) ▸ hP.2⟩,
          fun hP => ⟨hP.1, hP.2 t h⟩⟩

/-- A condition on the steps of a run follows from another one and an invariant of the steps that
meet it. -/
theorem Along.of_invariant {P Q : σ → α → Prop} {I : σ → Prop}
    (hI : ∀ s a t, I s → P s a → step s a = some t → I t) (hQ : ∀ s a, I s → P s a → Q s a)
    {s : σ} {as : List α} (h : Along step P s as) (hs : I s) : Along step Q s as := by
  induction as generalizing s with
  | nil => trivial
  | cons a as ih => exact ⟨hQ s a hs h.1, fun t ht => ih (h.2 t ht) (hI s a t hs h.1 ht)⟩

/-- Some run from `s` to `t` meets `P` at every step. -/
def Leads (P : σ → α → Prop) (s t : σ) : Prop := ∃ as, run step s as = some t ∧ Along step P s as

namespace Leads

variable {step} {P : σ → α → Prop} {s t u : σ}

theorem refl (s : σ) : Leads step P s s := ⟨[], rfl, trivial⟩

theorem single {a : α} (hP : P s a) (ha : step s a = some t) : Leads step P s t :=
  ⟨[a], (run_singleton step).mpr ha, hP, fun _ _ => trivial⟩

theorem trans (h : Leads step P s t) (h' : Leads step P t u) : Leads step P s u := by
  obtain ⟨as, has, hP⟩ := h
  obtain ⟨bs, hbs, hP'⟩ := h'
  refine ⟨as ++ bs, (run_append step).mpr ⟨t, has, hbs⟩, (along_append step).mpr ⟨hP, ?_⟩⟩
  intro m hm
  obtain rfl := Option.some.inj (has.symm.trans hm)
  exact hP'

end Leads

namespace Reachable

variable {step} {s t u : σ}

theorem refl (s : σ) : Reachable step s s := ⟨[], rfl⟩

theorem trans (h : Reachable step s t) (h' : Reachable step t u) : Reachable step s u := by
  obtain ⟨as, has⟩ := h
  obtain ⟨bs, hbs⟩ := h'
  exact ⟨as ++ bs, (run_append step).mpr ⟨t, has, hbs⟩⟩

theorem tail {a : α} (h : Reachable step s t) (ha : step t a = some u) : Reachable step s u :=
  h.trans ⟨[a], (run_singleton step).mpr ha⟩

end Reachable

/-- What every step meeting `P` preserves, a run of such steps preserves. -/
theorem run_invariant_along {P : σ → α → Prop} {I : σ → Prop}
    (hI : ∀ s a t, I s → P s a → step s a = some t → I t) {s t : σ} {as : List α}
    (hP : Along step P s as) (hrun : run step s as = some t) (hs : I s) : I t := by
  induction as generalizing s with
  | nil =>
    obtain rfl := Option.some.inj hrun
    exact hs
  | cons a as ih =>
    obtain ⟨m, hm, hrest⟩ := (run_cons step).mp hrun
    exact ih (hP.2 m hm) hrest (hI s a m hs hP.1 hm)

/-- What every step preserves, a run preserves. -/
theorem run_invariant {I : σ → Prop} (hI : ∀ s a t, I s → step s a = some t → I t) {s t : σ}
    {as : List α} (hrun : run step s as = some t) (hs : I s) : I t := by
  induction as generalizing s with
  | nil =>
    obtain rfl := Option.some.inj hrun
    exact hs
  | cons a as ih =>
    obtain ⟨m, hm, hrest⟩ := (run_cons step).mp hrun
    exact ih hrest (hI s a m hs hm)

/-- The induction over a run and its labels, from the first step to the last. -/
theorem run_induction {P : List α → σ → Prop} {s : σ} (hnil : P [] s)
    (hstep : ∀ as m a t, run step s as = some m → P as m → step m a = some t → P (as ++ [a]) t)
    {as : List α} {t : σ} (hrun : run step s as = some t) : P as t := by
  induction as using List.reverseRecOn generalizing t with
  | nil =>
    obtain rfl := Option.some.inj hrun
    exact hnil
  | append_singleton as a ih =>
    obtain ⟨m, hm, hlast⟩ := (run_append step).mp hrun
    exact hstep as m a t hm (ih hm) ((run_singleton step).mp hlast)

/-- The sum of a weight over the steps of a run. -/
def total (w : σ → α → σ → ℕ) (s : σ) : List α → ℕ
  | [] => 0
  | a :: as =>
    match step s a with
    | none => 0
    | some t => w s a t + total w t as

theorem total_cons {w : σ → α → σ → ℕ} {s t : σ} {a : α} (h : step s a = some t) (as : List α) :
    total step w s (a :: as) = w s a t + total step w t as := by
  rw [total, h]

theorem total_concat {w : σ → α → σ → ℕ} {s t u : σ} {as : List α} {a : α}
    (hrun : run step s as = some t) (h : step t a = some u) :
    total step w s (as ++ [a]) = total step w s as + w t a u := by
  induction as generalizing s with
  | nil =>
    obtain rfl := Option.some.inj hrun
    simp [total, h]
  | cons b as ih =>
    obtain ⟨m, hm, hrest⟩ := (run_cons step).mp hrun
    rw [List.cons_append, total_cons step hm, total_cons step hm, ih hrest, Nat.add_assoc]

/-- A count that grows by a weight in every step has grown by the sum of the weights in a run. -/
theorem run_count (w : σ → α → σ → ℕ) (count : σ → ℕ)
    (hstep : ∀ s a t, step s a = some t → count t = count s + w s a t) {s t : σ} {as : List α}
    (hrun : run step s as = some t) : count t = count s + total step w s as := by
  induction as generalizing s with
  | nil =>
    obtain rfl := Option.some.inj hrun
    rfl
  | cons a as ih =>
    obtain ⟨m, hm, hrest⟩ := (run_cons step).mp hrun
    rw [ih hrest, hstep s a m hm, total_cons step hm, Nat.add_assoc]

/-- When every step pays what it spends from a credit, which grows only by what is earned, so does
every run. -/
theorem run_account (spent earned : σ → α → σ → ℕ) (credit : σ → ℕ) {I : σ → Prop}
    (hI : ∀ s a t, I s → step s a = some t → I t)
    (hstep : ∀ s a t, I s → step s a = some t →
      spent s a t + credit t ≤ credit s + earned s a t)
    {s t : σ} {as : List α} (hrun : run step s as = some t) (hs : I s) :
    total step spent s as + credit t ≤ credit s + total step earned s as := by
  induction as generalizing s with
  | nil =>
    obtain rfl := Option.some.inj hrun
    exact Nat.le_of_eq (Nat.add_comm _ _)
  | cons a as ih =>
    obtain ⟨m, hm, hrest⟩ := (run_cons step).mp hrun
    have hfirst := hstep s a m hs hm
    have hlater := ih hrest (hI s a m hs hm)
    rw [total_cons step hm, total_cons step hm]
    omega

variable {step} in
theorem Reachable.invariant {I : σ → Prop} (hI : ∀ s a t, I s → step s a = some t → I t)
    {s t : σ} (h : Reachable step s t) (hs : I s) : I t :=
  h.elim fun _ hrun => run_invariant step hI hrun hs

end Transition
