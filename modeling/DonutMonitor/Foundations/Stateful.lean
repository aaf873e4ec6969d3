import DonutMonitor.Foundations.Except
import Mathlib.Data.List.Forall2

/-!
# Computations on a state that may raise

Such a computation returns a value or raises, and leaves a state in either case; a transaction
leaves the state as it was when it raises. A triple says what one run establishes, a relational
triple what two runs of two computations establish about each other: they return related results, or
raise the same exception.

## Main definitions

* `Stateful`, `Stateful.outcome`, `Stateful.transaction` — computations and what they lead to.
* `Stateful.Triple`, `Stateful.RelTriple` — the two triples, with a postcondition for results and
  one for exceptions.

## Main results

* `Stateful.Triple.bind`, `Stateful.Triple.forM`, `Stateful.Keeps.bind` — the rules for one run.
* `Stateful.RelTriple.bind`, `Stateful.RelTriple.forM` — the rules for two runs.
-/

universe u

/-- A computation on a state `σ` that may raise. What it did before it raised stays done. -/
abbrev Stateful (σ ε : Type u) : Type u → Type u := ExceptT ε (StateM σ)

namespace Stateful

variable {σ ε α β : Type u}

/-- What the computation returns or raises, and the state it leaves. -/
def outcome (x : Stateful σ ε α) (s : σ) : Except ε α × σ := (ExceptT.run x).run s

/-- A computation on the state that is undone when it raises. -/
def transaction (body : σ → Except ε (α × σ)) : Stateful σ ε α := fun s =>
  match body s with
  | .ok (a, s') => (.ok a, s')
  | .error e => (.error e, s)

/-- A computation that leaves the state alone. -/
def attempt (x : Except ε α) : Stateful σ ε α := fun s => (x, s)

@[simp] theorem outcome_pure (a : α) (s : σ) :
    outcome (pure a : Stateful σ ε α) s = (.ok a, s) := rfl

@[simp] theorem outcome_throw (e : ε) (s : σ) :
    outcome (throw e : Stateful σ ε α) s = (.error e, s) := rfl

@[simp] theorem outcome_attempt (x : Except ε α) (s : σ) : outcome (attempt x) s = (x, s) := rfl

theorem outcome_transaction (body : σ → Except ε (α × σ)) (s : σ) :
    outcome (transaction body) s = match body s with
      | .ok (a, s') => (.ok a, s')
      | .error e => (.error e, s) := rfl

theorem outcome_bind (x : Stateful σ ε α) (f : α → Stateful σ ε β) (s : σ) :
    outcome (x >>= f) s = match outcome x s with
      | (.ok a, s') => outcome (f a) s'
      | (.error e, s') => (.error e, s') := by
  have hbind : outcome (x >>= f) s = ExceptT.bindCont f (outcome x s).1 (outcome x s).2 := rfl
  rw [hbind]
  rcases outcome x s with ⟨result, s'⟩
  cases result <;> rfl

/-! ### One run -/

/-- From a state that satisfies `P`, a result establishes `Q` and an exception `E`. -/
structure Triple (P : σ → Prop) (x : Stateful σ ε α) (Q : α → σ → Prop) (E : σ → Prop) :
    Prop where
  run : ∀ s, P s → match outcome x s with
    | (.ok a, s') => Q a s'
    | (.error _, s') => E s'

namespace Triple

variable {P : σ → Prop} {Q : α → σ → Prop} {R : β → σ → Prop} {E : σ → Prop}

theorem pure {a : α} (h : ∀ s, P s → Q a s) : Triple P (Pure.pure a : Stateful σ ε α) Q E := ⟨h⟩

theorem throw {e : ε} (h : ∀ s, P s → E s) :
    Triple P (MonadExcept.throw e : Stateful σ ε α) Q E := ⟨h⟩

theorem attempt {x : Except ε α} (hok : ∀ a, x = .ok a → ∀ s, P s → Q a s)
    (herror : ∀ s, P s → E s) : Triple P (Stateful.attempt x) Q E := by
  constructor
  intro s hs
  cases x with
  | error e => exact herror s hs
  | ok a => exact hok a rfl s hs

theorem bind {x : Stateful σ ε α} {f : α → Stateful σ ε β} (hx : Triple P x Q E)
    (hf : ∀ a, Triple (Q a) (f a) R E) : Triple P (x >>= f) R E := by
  constructor
  intro s hs
  have hfirst := hx.run s hs
  rw [outcome_bind]
  rcases houtcome : outcome x s with ⟨e | a, s'⟩
  · rw [houtcome] at hfirst
    exact hfirst
  · rw [houtcome] at hfirst
    exact (hf a).run s' hfirst

/-- A transaction that raises changes nothing. -/
theorem transaction {body : σ → Except ε (α × σ)}
    (hok : ∀ s a s', P s → body s = .ok (a, s') → Q a s') (herror : ∀ s, P s → E s) :
    Triple P (Stateful.transaction body) Q E := by
  constructor
  intro s hs
  rw [outcome_transaction]
  cases hbody : body s with
  | error e => exact herror s hs
  | ok result => exact hok s result.1 result.2 hs hbody

/-- A loop whose body keeps an invariant keeps it. -/
theorem forM {l : List α} {f : α → Stateful σ ε PUnit}
    (hf : ∀ a ∈ l, Triple P (f a) (fun _ => P) P) : Triple P (l.forM f) (fun _ => P) P := by
  induction l with
  | nil => exact .pure fun _ h => h
  | cons a l ih =>
    exact .bind (hf a List.mem_cons_self) fun _ => ih fun b hb => hf b (List.mem_cons_of_mem _ hb)

theorem weaken {x : Stateful σ ε α} {P' : σ → Prop} {Q' : α → σ → Prop} {E' : σ → Prop}
    (hx : Triple P x Q E) (hP : ∀ s, P' s → P s) (hQ : ∀ a s, Q a s → Q' a s)
    (hE : ∀ s, E s → E' s) : Triple P' x Q' E' := by
  constructor
  intro s hs
  have hrun := hx.run s (hP s hs)
  rcases houtcome : outcome x s with ⟨e | a, s'⟩
  · rw [houtcome] at hrun
    exact hE s' hrun
  · rw [houtcome] at hrun
    exact hQ a s' hrun

end Triple

/-- Whatever it leads to, the run keeps the invariant. -/
abbrev Keeps (I : σ → Prop) (x : Stateful σ ε α) : Prop := Triple I x (fun _ => I) I

namespace Keeps

variable {I : σ → Prop}

/-- The invariant holds of the state that the run leaves. -/
theorem holds {x : Stateful σ ε α} (hx : Keeps I x) {s : σ} (hs : I s) : I (outcome x s).2 := by
  have hrun := hx.run s hs
  rcases houtcome : outcome x s with ⟨e | a, s'⟩ <;> rw [houtcome] at hrun <;> exact hrun

theorem pure {a : α} : Keeps I (Pure.pure a : Stateful σ ε α) := Triple.pure fun _ h => h

theorem throw {e : ε} : Keeps I (MonadExcept.throw e : Stateful σ ε α) := Triple.throw fun _ h => h

theorem attempt {x : Except ε α} : Keeps I (Stateful.attempt x) :=
  Triple.attempt (fun _ _ _ h => h) fun _ h => h

theorem bind {x : Stateful σ ε α} {f : α → Stateful σ ε β} (hx : Keeps I x)
    (hf : ∀ a, Keeps I (f a)) : Keeps I (x >>= f) := Triple.bind hx hf

theorem map {x : Stateful σ ε α} {f : α → β} (hx : Keeps I x) : Keeps I (f <$> x) := by
  rw [map_eq_pure_bind]
  exact hx.bind fun _ => .pure

theorem transaction {body : σ → Except ε (α × σ)}
    (h : ∀ s a s', I s → body s = .ok (a, s') → I s') : Keeps I (Stateful.transaction body) :=
  Triple.transaction h fun _ hs => hs

end Keeps

/-! ### Two runs -/

/-- What two runs led to: results and states related by `Q`, or the same exception and states
related by `E`. -/
inductive Related (Q : α → β → σ → σ → Prop) (E : σ → σ → Prop) :
    Except ε α × σ → Except ε β × σ → Prop
  | ok {a : α} {b : β} {s t : σ} (h : Q a b s t) : Related Q E (.ok a, s) (.ok b, t)
  | error (e : ε) {s t : σ} (h : E s t) : Related Q E (.error e, s) (.error e, t)

/-- From states related by `P`, the runs lead to outcomes related by `Q` and `E`. -/
structure RelTriple (P : σ → σ → Prop) (x : Stateful σ ε α) (y : Stateful σ ε β)
    (Q : α → β → σ → σ → Prop) (E : σ → σ → Prop) : Prop where
  run : ∀ s t, P s t → Related Q E (outcome x s) (outcome y t)

namespace RelTriple

variable {α' β' : Type u} {P : σ → σ → Prop} {Q : α → α' → σ → σ → Prop}
  {R : β → β' → σ → σ → Prop} {E : σ → σ → Prop}

theorem pure {a : α} {a' : α'} (h : ∀ s t, P s t → Q a a' s t) :
    RelTriple P (Pure.pure a : Stateful σ ε α) (Pure.pure a' : Stateful σ ε α') Q E :=
  ⟨fun s t hst => .ok (h s t hst)⟩

theorem throw {e : ε} (h : ∀ s t, P s t → E s t) :
    RelTriple P (MonadExcept.throw e : Stateful σ ε α)
      (MonadExcept.throw e : Stateful σ ε α') Q E :=
  ⟨fun s t hst => .error e (h s t hst)⟩

/-- A computation that leaves the state alone, in both runs. -/
theorem attempt {Q₀ : α → α → σ → σ → Prop} {x : Except ε α}
    (hok : ∀ a, x = .ok a → ∀ s t, P s t → Q₀ a a s t)
    (herror : ∀ s t, P s t → E s t) :
    RelTriple P (Stateful.attempt x) (Stateful.attempt x) Q₀ E := by
  constructor
  intro s t hst
  cases x with
  | error e => exact .error e (herror s t hst)
  | ok a => exact .ok (hok a rfl s t hst)

theorem bind {x : Stateful σ ε α} {y : Stateful σ ε α'} {f : α → Stateful σ ε β}
    {g : α' → Stateful σ ε β'} (hxy : RelTriple P x y Q E)
    (hfg : ∀ a a', RelTriple (Q a a') (f a) (g a') R E) :
    RelTriple P (x >>= f) (y >>= g) R E := by
  constructor
  intro s t hst
  rw [outcome_bind, outcome_bind]
  cases hfirst : outcome x s with | mk result s' =>
  cases hsecond : outcome y t with | mk result' t' =>
  have hfirst' := hxy.run s t hst
  rw [hfirst, hsecond] at hfirst'
  cases hfirst' with
  | ok h => exact (hfg _ _).run _ _ h
  | error e h => exact .error e h

/-- A bind whose first results are related whatever the states are. -/
theorem bind_rel {V : α → α' → Prop} {I : σ → σ → Prop} {x : Stateful σ ε α}
    {y : Stateful σ ε α'} {f : α → Stateful σ ε β} {g : α' → Stateful σ ε β'}
    (hxy : RelTriple P x y (fun a a' s t => V a a' ∧ I s t) E)
    (hfg : ∀ a a', V a a' → RelTriple I (f a) (g a') R E) :
    RelTriple P (x >>= f) (y >>= g) R E :=
  .bind hxy fun a a' => ⟨fun s t h => (hfg a a' h.1).run s t h.2⟩

/-- A bind that first computes the same in both runs. -/
theorem attempt_bind {x : Except ε α} {f : α → Stateful σ ε β} {g : α → Stateful σ ε β'}
    (herror : ∀ s t, P s t → E s t) (hfg : ∀ a, x = .ok a → RelTriple P (f a) (g a) R E) :
    RelTriple P (Stateful.attempt x >>= f) (Stateful.attempt x >>= g) R E :=
  .bind_rel (V := fun a a' => x = .ok a ∧ a = a')
    (.attempt (fun _ ha _ _ hst => ⟨⟨ha, rfl⟩, hst⟩) herror) fun a _ h => h.2 ▸ hfg a h.1

theorem map {x : Stateful σ ε α} {y : Stateful σ ε α'} {f : α → β} {g : α' → β'}
    (hxy : RelTriple P x y (fun a a' => R (f a) (g a')) E) :
    RelTriple P (f <$> x) (g <$> y) R E := by
  rw [map_eq_pure_bind, map_eq_pure_bind]
  exact hxy.bind fun _ _ => .pure fun _ _ h => h

/-- Two transactions whose bodies return related results or raise the same exception. -/
theorem transaction {body : σ → Except ε (α × σ)} {body' : σ → Except ε (α' × σ)}
    (h : ∀ s t, P s t → Except.Rel (fun a b => Q a.1 b.1 a.2 b.2) (body s) (body' t))
    (herror : ∀ s t, P s t → E s t) :
    RelTriple P (Stateful.transaction body) (Stateful.transaction body') Q E := by
  constructor
  intro s t hst
  have hbodies := h s t hst
  rw [outcome_transaction, outcome_transaction]
  cases hbody : body s with
  | error e =>
    cases hbody' : body' t with
    | error e' =>
      rw [hbody, hbody'] at hbodies
      cases hbodies
      exact .error _ (herror s t hst)
    | ok b =>
      rw [hbody, hbody'] at hbodies
      cases hbodies
  | ok a =>
    cases hbody' : body' t with
    | error e' =>
      rw [hbody, hbody'] at hbodies
      cases hbodies
    | ok b =>
      rw [hbody, hbody'] at hbodies
      cases hbodies with
      | ok h => exact .ok h

/-- Two loops over related lists whose bodies keep a relation. -/
theorem forM {S : α → α' → Prop} {l : List α} {l' : List α'} {f : α → Stateful σ ε PUnit}
    {g : α' → Stateful σ ε PUnit} (hl : List.Forall₂ S l l')
    (hfg : ∀ a a', S a a' → RelTriple P (f a) (g a') (fun _ _ => P) P) :
    RelTriple P (l.forM f) (l'.forM g) (fun _ _ => P) P := by
  induction hl with
  | nil => exact .pure fun _ _ h => h
  | cons h _ ih => exact .bind (hfg _ _ h) fun _ _ => ih

theorem weaken {x : Stateful σ ε α} {y : Stateful σ ε α'} {P' : σ → σ → Prop}
    {Q' : α → α' → σ → σ → Prop} {E' : σ → σ → Prop} (h : RelTriple P x y Q E)
    (hP : ∀ s t, P' s t → P s t) (hQ : ∀ a a' s t, Q a a' s t → Q' a a' s t)
    (hE : ∀ s t, E s t → E' s t) : RelTriple P' x y Q' E' := by
  constructor
  intro s t hst
  have hrun := h.run s t (hP s t hst)
  generalize outcome x s = first at hrun ⊢
  generalize outcome y t = second at hrun ⊢
  cases hrun with
  | ok h => exact .ok (hQ _ _ _ _ h)
  | error e h => exact .error e (hE _ _ h)

end RelTriple

end Stateful
