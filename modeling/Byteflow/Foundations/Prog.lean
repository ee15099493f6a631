import Mathlib.Logic.Basic

/-!
# Programs of atomic operations

A `Prog` performs atomic operations, one at a time, and returns; between two of them other threads
may act. `Wp` is the condition under which a program may run from a state: what others do is
bounded by a relation `rely`, `step s op s' r` says which states and results an operation may lead
to, every operation must meet its precondition when it is reached, and the result the
postcondition. `Carries` is the case of a state that only the program itself changes. `eval` runs a
program without interruption.
-/

/-- A program over the operations `ο`, whose results have the types `ρ`. -/
inductive Prog {ο : Type} (ρ : ο → Type) (α : Type)
  | ret (a : α)
  | act (op : ο) (k : ρ op → Prog ρ α)

namespace Prog

variable {ο : Type} {ρ : ο → Type} {α β σ : Type}

protected def bind : Prog ρ α → (α → Prog ρ β) → Prog ρ β
  | ret a, f => f a
  | act op k, f => act op fun r => (k r).bind f

instance : Monad (Prog ρ) where
  pure := ret
  bind := Prog.bind

/-- The program of one operation. -/
def perform (op : ο) : Prog ρ (ρ op) := act op ret

@[simp] theorem ret_bind (a : α) (f : α → Prog ρ β) : (ret a : Prog ρ α) >>= f = f a := rfl

@[simp] theorem pure_bind (a : α) (f : α → Prog ρ β) : (pure a : Prog ρ α) >>= f = f a := rfl

@[simp] theorem act_bind (op : ο) (k : ρ op → Prog ρ α) (f : α → Prog ρ β) :
    act op k >>= f = act op fun r => k r >>= f := rfl

@[simp] theorem perform_bind (op : ο) (f : ρ op → Prog ρ β) : perform op >>= f = act op f := rfl

/-- The program whose operations are renamed. -/
def rename {ο' : Type} {ρ' : ο' → Type} (name : ο → ο')
    (result : ∀ op, ρ' (name op) → ρ op) : Prog ρ α → Prog ρ' α
  | ret a => ret a
  | act op k => act (name op) fun r => (k (result op r)).rename name result

/-- The program run without interruption. -/
def eval (exec : (op : ο) → σ → σ × ρ op) : Prog ρ α → σ → σ × α
  | ret a, s => (s, a)
  | act op k, s => (k (exec op s).2).eval exec (exec op s).1

@[simp] theorem eval_ret (exec : (op : ο) → σ → σ × ρ op) (a : α) (s : σ) :
    (ret a : Prog ρ α).eval exec s = (s, a) := rfl

@[simp] theorem eval_act (exec : (op : ο) → σ → σ × ρ op) (op : ο) (k : ρ op → Prog ρ α) (s : σ) :
    (act op k).eval exec s = (k (exec op s).2).eval exec (exec op s).1 := rfl

theorem eval_bind (exec : (op : ο) → σ → σ × ρ op) (p : Prog ρ α) (f : α → Prog ρ β) (s : σ) :
    (p >>= f).eval exec s = (f (p.eval exec s).2).eval exec (p.eval exec s).1 := by
  induction p generalizing s with
  | ret a => rfl
  | act op k ih => exact ih _ _

section

variable (rely : σ → σ → Prop) (step : σ → (op : ο) → σ → ρ op → Prop) (pre : σ → ο → Prop)

/-- The program may run from the state. -/
def Wp (post : σ → α → Prop) : σ → Prog ρ α → Prop
  | s, ret a => post s a
  | s, act op k => pre s op ∧ ∀ s₁, rely s s₁ → ∀ s₂ r, step s₁ op s₂ r → Wp post s₂ (k r)

end

variable {rely : σ → σ → Prop} {step : σ → (op : ο) → σ → ρ op → Prop} {pre : σ → ο → Prop}
  {post post' : σ → α → Prop} {after : σ → β → Prop}

theorem Wp.mono {s : σ} {p : Prog ρ α} (h : Wp rely step pre post s p)
    (hpost : ∀ s a, post s a → post' s a) : Wp rely step pre post' s p := by
  induction p generalizing s with
  | ret a => exact hpost s a h
  | act op k ih => exact ⟨h.1, fun s₁ h₁ s₂ r h₂ => ih r (h.2 s₁ h₁ s₂ r h₂)⟩

/-- **Sequencing.** -/
theorem Wp.bind {s : σ} {p : Prog ρ α} {f : α → Prog ρ β}
    (h : Wp rely step pre (fun s a => Wp rely step pre after s (f a)) s p) :
    Wp rely step pre after s (p >>= f) := by
  induction p generalizing s with
  | ret a => exact h
  | act op k ih => exact ⟨h.1, fun s₁ h₁ s₂ r h₂ => ih r (h.2 s₁ h₁ s₂ r h₂)⟩

/-- **What others do.** A program may still run after what others did, if nothing it needs was
touched. -/
theorem Wp.stable {s s' : σ} {p : Prog ρ α} (h : Wp rely step pre post s p) (hs : rely s s')
    (htrans : ∀ s₁ s₂ s₃, rely s₁ s₂ → rely s₂ s₃ → rely s₁ s₃)
    (hpre : ∀ s s' op, rely s s' → pre s op → pre s' op)
    (hpost : ∀ s s' a, rely s s' → post s a → post s' a) : Wp rely step pre post s' p := by
  cases p with
  | ret a => exact hpost s s' a hs h
  | act op k =>
    exact ⟨hpre s s' op hs h.1, fun s₁ h₁ s₂ r h₂ => h.2 s₁ (htrans _ _ _ hs h₁) s₂ r h₂⟩

/-! ## Operations that may occur -/

/-- Every operation that the program may come to satisfies `P`. -/
def All (P : ο → Prop) : Prog ρ α → Prop
  | ret _ => True
  | act op k => P op ∧ ∀ r, (k r).All P

theorem all_bind {P : ο → Prop} {p : Prog ρ α} {f : α → Prog ρ β} (hp : p.All P)
    (hf : ∀ a, (f a).All P) : (p >>= f).All P := by
  induction p with
  | ret a => exact hf a
  | act op k ih => exact ⟨hp.1, fun r => ih r (hp.2 r)⟩

theorem all_run_bind {ε : Type} {P : ο → Prop} {x : ExceptT ε (Prog ρ) α}
    {f : α → ExceptT ε (Prog ρ) β} (hx : x.run.All P) (hf : ∀ a, (f a).run.All P) :
    (x >>= f).run.All P :=
  all_bind hx fun r => by
    cases r with
    | ok a => exact hf a
    | error e => trivial

theorem All.rename {ο' : Type} {ρ' : ο' → Type} {name : ο → ο'}
    {result : ∀ op, ρ' (name op) → ρ op} {P : ο' → Prop} {p : Prog ρ α}
    (hp : p.All fun op => P (name op)) : (p.rename name result).All P := by
  induction p with
  | ret a => trivial
  | act op k ih => exact ⟨hp.1, fun r => ih _ (hp.2 _)⟩

theorem all_of_forall {P : ο → Prop} (h : ∀ op, P op) (p : Prog ρ α) : p.All P := by
  induction p with
  | ret a => trivial
  | act op k ih => exact ⟨h op, fun r => ih r⟩

theorem all_rename {ο' : Type} {ρ' : ο' → Type} {name : ο → ο'}
    {result : ∀ op, ρ' (name op) → ρ op} {P : ο' → Prop} (h : ∀ op, P (name op)) (p : Prog ρ α) :
    (p.rename name result).All P := (all_of_forall h p).rename

/-- What every occurring operation keeps, uninterrupted code keeps. -/
theorem All.eval {P : ο → Prop} {exec : (op : ο) → σ → σ × ρ op} {I : σ → Prop}
    (hI : ∀ op s, P op → I s → I (exec op s).1) {p : Prog ρ α} (hp : p.All P) {s : σ} (hs : I s) :
    I (p.eval exec s).1 := by
  induction p generalizing s with
  | ret a => exact hs
  | act op k ih => exact ih _ (hp.2 _) (hI op s hp.1 hs)

/-- A program whose operations need nothing, and lead from a state to one in the relation. -/
theorem All.wp {P : ο → Prop} (rel : σ → σ → Prop) (hrefl : ∀ s, rel s s)
    (htrans : ∀ s₁ s₂ s₃, rel s₁ s₂ → rel s₂ s₃ → rel s₁ s₃) (hrely : ∀ s s', rely s s' → rel s s')
    (hpre : ∀ s op, P op → pre s op) (hstep : ∀ s op s' r, P op → step s op s' r → rel s s')
    {p : Prog ρ α} (hp : p.All P) (s : σ) :
    Wp rely step pre (fun s' _ => rel s s') s p := by
  induction p generalizing s with
  | ret a => exact hrefl s
  | act op k ih =>
    refine ⟨hpre s op hp.1, fun s₁ h₁ s₂ r h₂ => (ih r (hp.2 r) s₂).mono fun s' _ h => ?_⟩
    exact htrans _ _ _ (hrely _ _ h₁) (htrans _ _ _ (hstep _ _ _ _ hp.1 h₂) h)

/-! ## What a program returns -/

/-- What the program returns satisfies `Q`, whatever its operations lead to. -/
def Returns (Q : α → Prop) : Prog ρ α → Prop
  | ret a => Q a
  | act _ k => ∀ r, (k r).Returns Q

theorem Returns.bind {Q : α → Prop} {R : β → Prop} {p : Prog ρ α} {f : α → Prog ρ β}
    (hp : p.Returns Q) (hf : ∀ a, Q a → (f a).Returns R) : (p >>= f).Returns R := by
  induction p with
  | ret a => exact hf a hp
  | act op k ih => exact fun r => ih r (hp r)

theorem returns_true (p : Prog ρ α) : p.Returns fun _ => True := by
  induction p with
  | ret a => trivial
  | act op k ih => exact ih

/-! ## What a program has in hand -/

section

variable {τ : Type} (allow : τ → ο → Prop) (next : τ → (op : ο) → ρ op → τ)

/-- The program may run with `h` in hand: it comes to operations only that are allowed with what is
in hand then, which changes by `next`. Others do not touch it. -/
def Carries (Q : τ → α → Prop) (h : τ) (p : Prog ρ α) : Prop :=
  Wp Eq (fun h op h' r => h' = next h op r) allow Q h p

end

section

variable {τ : Type} {allow : τ → ο → Prop} {next : τ → (op : ο) → ρ op → τ} {Q Q' : τ → α → Prop}
  {R : τ → β → Prop} {h : τ}

theorem carries_act {op : ο} {k : ρ op → Prog ρ α} : Carries allow next Q h (act op k) ↔
    allow h op ∧ ∀ r, Carries allow next Q (next h op r) (k r) := by
  constructor
  · exact fun hp => ⟨hp.1, fun r => hp.2 h rfl _ r rfl⟩
  · rintro ⟨hop, hk⟩
    refine ⟨hop, ?_⟩
    rintro _ rfl _ r rfl
    exact hk r

theorem Carries.mono {p : Prog ρ α} (hp : Carries allow next Q h p) (hQ : ∀ h a, Q h a → Q' h a) :
    Carries allow next Q' h p := Wp.mono hp hQ

theorem Carries.bind {p : Prog ρ α} {f : α → Prog ρ β}
    (hp : Carries allow next (fun h a => Carries allow next R h (f a)) h p) :
    Carries allow next R h (p >>= f) := Wp.bind hp

/-- Operations that need nothing in hand and leave there what is. -/
theorem Carries.of_all {P : ο → Prop} (hP : ∀ h op, P op → allow h op ∧ ∀ r, next h op r = h)
    {p : Prog ρ α} (hp : p.All P) (h : τ) : Carries allow next (fun h' _ => h = h') h p :=
  All.wp Eq (fun _ => rfl) (fun _ _ _ => Eq.trans) (fun _ _ hs => hs)
    (fun h op hop => (hP h op hop).1) (fun h op _ r hop hnext => (((hP h op hop).2 r).symm.trans
      hnext.symm)) hp h

end

end Prog
