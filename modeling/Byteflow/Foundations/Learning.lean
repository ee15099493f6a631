import Mathlib.Order.Defs.Unbundled
import Byteflow.Foundations.Prog

/-!
# Programs that learn

Where facts once true stay true, a program can rely on what its operations told it, whatever others
do in between. `grows s s'` says that the facts of `s` hold in `s'`, `tells s op r` what the result
`r` of an operation tells about the state after it. `Learns` is the condition that every operation
meets its precondition in the light of what the program was told, and that the result satisfies the
postcondition; `Ensures` is the same for code that may fail, about what it returns.
-/

namespace Prog

variable {ο ο' : Type} {ρ : ο → Type} {ρ' : ο' → Type} {α β ε ε' σ : Type}

section

variable (grows : σ → σ → Prop) (tells : σ → (op : ο) → ρ op → Prop) (pre : σ → ο → Prop)

/-- The program may run from the state. -/
def Learns (Q : σ → α → Prop) (s : σ) (p : Prog ρ α) : Prop :=
  Wp grows (fun s op s' r => grows s s' ∧ tells s' op r) pre Q s p

/-- The code may run from the state, and what it returns satisfies the postcondition. -/
def Ensures (Q : σ → α → Prop) (s : σ) (x : ExceptT ε (Prog ρ) α) : Prop :=
  Learns grows tells pre (fun s r => ∀ a, r = .ok a → Q s a) s x.run

end

variable {grows : σ → σ → Prop} {tells : σ → (op : ο) → ρ op → Prop} {pre : σ → ο → Prop}
  {Q Q' : σ → α → Prop} {R : σ → β → Prop} {s s' : σ}

theorem Learns.mono {p : Prog ρ α} (h : Learns grows tells pre Q s p)
    (hQ : ∀ s a, Q s a → Q' s a) : Learns grows tells pre Q' s p :=
  Wp.mono h hQ

/-- What the program needs stays true. -/
theorem Learns.stable [IsTrans σ grows] {p : Prog ρ α} (h : Learns grows tells pre Q s p)
    (hs : grows s s') (hpre : ∀ s s' op, grows s s' → pre s op → pre s' op)
    (hQ : ∀ s s' a, grows s s' → Q s a → Q s' a) :
    Learns grows tells pre Q s' p :=
  Wp.stable h hs (fun _ _ _ => trans_of grows) hpre hQ

/-- An operation, and what follows once it has told its result. -/
theorem Learns.act [IsTrans σ grows] {op : ο} {k : ρ op → Prog ρ α} (hpre : pre s op)
    (h : ∀ s' r, grows s s' → tells s' op r → Learns grows tells pre Q s' (k r)) :
    Learns grows tells pre Q s (act op k) :=
  ⟨hpre, fun _ h₁ s₂ r h₂ => h s₂ r (trans_of grows h₁ h₂.1) h₂.2⟩

/-- A program leads to a state that has grown. -/
theorem Learns.grown [IsPreorder σ grows] {p : Prog ρ α} (h : Learns grows tells pre Q s p) :
    Learns grows tells pre (fun s' a => grows s s' ∧ Q s' a) s p := by
  induction p generalizing s with
  | ret a => exact ⟨refl_of grows s, h⟩
  | act op k ih =>
    refine ⟨h.1, fun s₁ h₁ s₂ r h₂ => Wp.mono (ih r (h.2 s₁ h₁ s₂ r h₂)) fun s' a ha => ?_⟩
    exact ⟨trans_of grows h₁ (trans_of grows h₂.1 ha.1), ha.2⟩

theorem Learns.bind [IsPreorder σ grows] {p : Prog ρ α} {f : α → Prog ρ β}
    (h : Learns grows tells pre Q s p)
    (hf : ∀ s' a, grows s s' → Q s' a → Learns grows tells pre R s' (f a)) :
    Learns grows tells pre R s (p >>= f) :=
  Wp.bind (Wp.mono h.grown fun s' a ha => hf s' a ha.1 ha.2)

/-- A program whose operations are renamed does what it did. -/
theorem Learns.rename {name : ο → ο'} {result : ∀ op, ρ' (name op) → ρ op}
    {tells' : σ → (op : ο') → ρ' op → Prop} {pre' : σ → ο' → Prop} {p : Prog ρ α}
    (h : Learns grows tells pre Q s p)
    (htells : ∀ s op r, tells' s (name op) r → tells s op (result op r))
    (hpre : ∀ s op, pre s op → pre' s (name op)) :
    Learns grows tells' pre' Q s (p.rename name result) := by
  induction p generalizing s with
  | ret a => exact h
  | act op k ih =>
    exact ⟨hpre s op h.1, fun s₁ h₁ s₂ r h₂ =>
      ih _ (h.2 s₁ h₁ s₂ _ ⟨h₂.1, htells s₂ op r h₂.2⟩)⟩

/-! ## Code that may fail -/

theorem Ensures.pure {a : α} (h : Q s a) :
    Ensures grows tells pre Q s (pure a : ExceptT ε (Prog ρ) α) := by
  rintro _ ⟨⟩
  exact h

theorem Ensures.throw (e : ε) :
    Ensures grows tells pre Q s (throw e : ExceptT ε (Prog ρ) α) := nofun

theorem Ensures.mono {x : ExceptT ε (Prog ρ) α} (h : Ensures grows tells pre Q s x)
    (hQ : ∀ s a, Q s a → Q' s a) : Ensures grows tells pre Q' s x :=
  Learns.mono h fun s _ hr a ha => hQ s a (hr a ha)

theorem Ensures.grown [IsPreorder σ grows] {x : ExceptT ε (Prog ρ) α}
    (h : Ensures grows tells pre Q s x) :
    Ensures grows tells pre (fun s' a => grows s s' ∧ Q s' a) s x :=
  Learns.mono (Learns.grown h) fun _ _ hr a ha => ⟨hr.1, hr.2 a ha⟩

/-- **Sequencing.** -/
theorem Ensures.bind [IsPreorder σ grows] {x : ExceptT ε (Prog ρ) α}
    {f : α → ExceptT ε (Prog ρ) β} (h : Ensures grows tells pre Q s x)
    (hf : ∀ s' a, grows s s' → Q s' a → Ensures grows tells pre R s' (f a)) :
    Ensures grows tells pre R s (x >>= f) :=
  Learns.bind h fun s' r hs hr => by
    cases r with
    | ok a => exact hf s' a hs (hr a rfl)
    | error e => exact nofun

/-- A program that does not fail. -/
theorem Ensures.lift {p : Prog ρ α} (h : Learns grows tells pre Q s p) :
    Ensures grows tells pre Q s (ExceptT.lift p : ExceptT ε (Prog ρ) α) := by
  have hmap : (ExceptT.lift p : ExceptT ε (Prog ρ) α).run = p >>= fun a => ret (.ok a) := rfl
  unfold Ensures
  rw [hmap]
  refine Wp.bind (Wp.mono h fun s' a ha => ?_)
  rintro _ ⟨⟩
  exact ha

/-- One operation. -/
theorem Ensures.perform [IsTrans σ grows] {op : ο} {Q : σ → ρ op → Prop} (hpre : pre s op)
    (h : ∀ s' r, grows s s' → tells s' op r → Q s' r) :
    Ensures grows tells pre Q s (ExceptT.lift (Prog.perform op) : ExceptT ε (Prog ρ) (ρ op)) :=
  .lift (.act hpre h)

/-- A result that is already there. -/
theorem Ensures.liftM {r : Except ε α} (h : ∀ a, r = .ok a → Q s a) :
    Ensures grows tells pre Q s (liftM r : ExceptT ε (Prog ρ) α) := by
  cases r with
  | ok a =>
    rintro _ ⟨⟩
    exact h a rfl
  | error e => exact nofun

end Prog
