import Mathlib.Logic.Basic

/-!
# Code that changes a state and may stop

`Exec ε σ` is the monad of code over a state `σ` that may stop with an `ε`; what it changed before
it stops stays changed. `Sat I x Q E` says that `x` keeps the invariant `I`, that what it returns
satisfies `Q`, and that it stops only with what satisfies `E`. `Reads s x Q E` says that `x` leaves
the state `s` alone, with the same two conditions. The rules of both follow the monad.
-/

/-- Code over a state, which may stop early. -/
abbrev Exec (ε σ : Type) := ExceptT ε (StateM σ)

namespace Exec

variable {ε σ α β : Type}

/-- What the code returns or stops with, and the state it leaves. -/
def runFrom (x : Exec ε σ α) (s : σ) : Except ε α × σ := (ExceptT.run x).run s

@[simp] theorem runFrom_pure (a : α) (s : σ) : runFrom (pure a : Exec ε σ α) s = (.ok a, s) := rfl

@[simp] theorem runFrom_throw (e : ε) (s : σ) :
    runFrom (throw e : Exec ε σ α) s = (.error e, s) := rfl

@[simp] theorem runFrom_get (s : σ) : runFrom (get : Exec ε σ σ) s = (.ok s, s) := rfl

@[simp] theorem runFrom_set (s s' : σ) : runFrom (set s' : Exec ε σ PUnit) s = (.ok ⟨⟩, s') := rfl

@[simp] theorem runFrom_modify (f : σ → σ) (s : σ) :
    runFrom (modify f : Exec ε σ PUnit) s = (.ok ⟨⟩, f s) := rfl

theorem runFrom_bind (x : Exec ε σ α) (f : α → Exec ε σ β) (s : σ) :
    runFrom (x >>= f) s = match runFrom x s with
      | (.ok a, s') => runFrom (f a) s'
      | (.error e, s') => (.error e, s') := by
  show ((ExceptT.run (x >>= f)).run s) = _
  rw [ExceptT.run_bind]
  show StateT.run (ExceptT.run x >>= _) s = _
  rw [StateT.run_bind]
  show (match StateT.run (ExceptT.run x) s with | (a, s') => _) = _
  rcases h : StateT.run (ExceptT.run x) s with ⟨r, s'⟩
  have h' : runFrom x s = (r, s') := h
  rw [h']
  cases r <;> rfl

/-- The code keeps `I`, returns what satisfies `Q` and stops with what satisfies `E`. -/
def Sat (I : σ → Prop) (x : Exec ε σ α) (Q : α → Prop) (E : ε → Prop) : Prop :=
  ∀ s, I s → I (runFrom x s).2 ∧
    (∀ a, (runFrom x s).1 = .ok a → Q a) ∧ ∀ e, (runFrom x s).1 = .error e → E e

variable {I : σ → Prop} {Q Q' : α → Prop} {R : β → Prop} {E : ε → Prop}

theorem sat_pure {a : α} (h : Q a) : Sat I (pure a : Exec ε σ α) Q E := by
  refine fun _ hs => ⟨hs, fun _ ha => ?_, fun _ he => ?_⟩
  · cases ha
    exact h
  · cases he

theorem sat_throw {e : ε} (h : E e) : Sat I (throw e : Exec ε σ α) Q E := by
  refine fun _ hs => ⟨hs, fun _ ha => ?_, fun _ he => ?_⟩
  · cases ha
  · cases he
    exact h

theorem sat_get : Sat I (get : Exec ε σ σ) I E := by
  refine fun _ hs => ⟨hs, fun _ ha => ?_, fun _ he => ?_⟩
  · cases ha
    exact hs
  · cases he

theorem sat_set {s : σ} (h : I s) : Sat I (set s : Exec ε σ PUnit) (fun _ => True) E :=
  fun _ _ => ⟨h, fun _ _ => trivial, fun _ he => by cases he⟩

theorem sat_modify {f : σ → σ} (h : ∀ s, I s → I (f s)) :
    Sat I (modify f : Exec ε σ PUnit) (fun _ => True) E :=
  fun s hs => ⟨h s hs, fun _ _ => trivial, fun _ he => by cases he⟩

theorem Sat.bind {x : Exec ε σ α} {f : α → Exec ε σ β} (hx : Sat I x Q E)
    (hf : ∀ a, Q a → Sat I (f a) R E) : Sat I (x >>= f) R E := by
  intro s hs
  obtain ⟨hI, hQ, hE⟩ := hx s hs
  rw [runFrom_bind]
  rcases hrun : runFrom x s with ⟨r, s'⟩
  rw [hrun] at hI hQ hE
  cases r with
  | ok a => exact hf a (hQ a rfl) s' hI
  | error e =>
    refine ⟨hI, fun _ hb => ?_, fun e' he => ?_⟩
    · cases hb
    · cases he
      exact hE e rfl

theorem Sat.map {x : Exec ε σ α} {f : α → β} (hx : Sat I x Q E) (h : ∀ a, Q a → R (f a)) :
    Sat I (f <$> x) R E := by
  rw [map_eq_pure_bind]
  exact hx.bind fun a ha => sat_pure (h a ha)

/-! ## Code that only reads -/

/-- From `s` the code changes nothing, returns what satisfies `Q` and stops with what satisfies
`E`. -/
def Reads (s : σ) (x : Exec ε σ α) (Q : α → Prop) (E : ε → Prop) : Prop :=
  (∃ a, runFrom x s = (.ok a, s) ∧ Q a) ∨ ∃ e, runFrom x s = (.error e, s) ∧ E e

variable {s : σ}

theorem reads_pure {a : α} (h : Q a) : Reads s (pure a : Exec ε σ α) Q E := .inl ⟨a, rfl, h⟩

theorem reads_throw {e : ε} (h : E e) : Reads s (throw e : Exec ε σ α) Q E := .inr ⟨e, rfl, h⟩

theorem reads_get : Reads s (get : Exec ε σ σ) (· = s) E := .inl ⟨s, rfl, rfl⟩

/-- What the code leads to, if it reads first. -/
theorem Reads.next {x : Exec ε σ α} {f : α → Exec ε σ β} {P : Except ε β × σ → Prop}
    (hx : Reads s x Q E) (he : ∀ e, E e → P (.error e, s)) (hf : ∀ a, Q a → P (runFrom (f a) s)) :
    P (runFrom (x >>= f) s) := by
  rw [runFrom_bind]
  obtain ⟨a, hrun, ha⟩ | ⟨e, hrun, h⟩ := hx
  · rw [hrun]
    exact hf a ha
  · rw [hrun]
    exact he e h

theorem Reads.mono {x : Exec ε σ α} (hx : Reads s x Q E) (h : ∀ a, Q a → Q' a) :
    Reads s x Q' E :=
  hx.imp (fun ⟨a, hrun, ha⟩ => ⟨a, hrun, h a ha⟩) id

theorem Reads.bind {x : Exec ε σ α} {f : α → Exec ε σ β} (hx : Reads s x Q E)
    (hf : ∀ a, Q a → Reads s (f a) R E) : Reads s (x >>= f) R E :=
  hx.next (P := fun r => (∃ b, r = (.ok b, s) ∧ R b) ∨ ∃ e, r = (.error e, s) ∧ E e)
    (fun e h => .inr ⟨e, rfl, h⟩) hf

theorem Reads.map {x : Exec ε σ α} {f : α → β} (hx : Reads s x Q E) (h : ∀ a, Q a → R (f a)) :
    Reads s (f <$> x) R E := by
  rw [map_eq_pure_bind]
  exact hx.bind fun a ha => reads_pure (h a ha)

end Exec
