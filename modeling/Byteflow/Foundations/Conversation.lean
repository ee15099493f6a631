import Mathlib.Order.RelClasses

/-!
# Systems that ask and are answered

A `System` takes silent steps until one of them has a result. A result that is a request gets an
answer, and the system goes on; `Converses` is a finite conversation up to its last result. A
`Simulation` matches every step of one deterministic system by at least one step of another, and
then the two hold the same conversations, from either side (`same_conversations`): a step count that
decreases excludes that the second system goes on forever where the first has a result. A system may
have some of its requests answered at once (`answering`), and a simulation does not mind.
-/

/-- A deterministic system. The label of a result is what the outside sees of it, and `answer` is
`none` for a result that takes no answer. -/
structure System (σ ρ l α : Type) where
  step : σ → Option ρ × σ
  label : ρ → l
  answer : ρ → α → σ → Option σ

namespace System

variable {σ τ ρ ρ' l α : Type} {S : System σ ρ l α} {T : System τ ρ' l α}

/-- So many silent steps. -/
inductive Silent (S : System σ ρ l α) : ℕ → σ → σ → Prop
  | refl (s : σ) : Silent S 0 s s
  | step {n : ℕ} {s s₁ s' : σ} (h : S.step s = (none, s₁)) (hrest : Silent S n s₁ s') :
      Silent S (n + 1) s s'

/-- So many silent steps, then a result. -/
def Ends (S : System σ ρ l α) (n : ℕ) (s : σ) (r : ρ) (s' : σ) : Prop :=
  ∃ s₁, Silent S n s s₁ ∧ S.step s₁ = (some r, s')

/-- A conversation: the labels of the requests with their answers, and the label of the last
result. -/
inductive Converses (S : System σ ρ l α) : σ → List (l × α) → l → Prop
  | last {n : ℕ} {s s' : σ} {r : ρ} (h : S.Ends n s r s') : Converses S s [] (S.label r)
  | next {n : ℕ} {s s₁ s' : σ} {r : ρ} {a : α} {c : List (l × α)} {q : l}
      (h : S.Ends n s r s₁) (ha : S.answer r a s₁ = some s') (hrest : Converses S s' c q) :
      Converses S s ((S.label r, a) :: c) q

/-! ## Runs -/

theorem Silent.one {s s' : σ} (h : S.step s = (none, s')) : S.Silent 1 s s' := .step h (.refl s')

theorem Silent.trans {m n : ℕ} {s s₁ s' : σ} (h : S.Silent m s s₁) (h' : S.Silent n s₁ s') :
    S.Silent (m + n) s s' := by
  induction h with
  | refl => rwa [Nat.zero_add]
  | step hstep _ ih =>
    rw [Nat.succ_add]
    exact .step hstep (ih h')

theorem Silent.ends {m n : ℕ} {s s₁ s' : σ} {r : ρ} (h : S.Silent m s s₁)
    (h' : S.Ends n s₁ r s') : S.Ends (m + n) s r s' := by
  obtain ⟨s₂, hsilent, hstep⟩ := h'
  exact ⟨s₂, h.trans hsilent, hstep⟩

theorem Ends.of_step {s s' : σ} {r : ρ} (h : S.step s = (some r, s')) : S.Ends 0 s r s' :=
  ⟨s, .refl s, h⟩

theorem ends_zero {s s' : σ} {r : ρ} : S.Ends 0 s r s' ↔ S.step s = (some r, s') := by
  constructor
  · rintro ⟨_, ⟨⟩, hstep⟩
    exact hstep
  · exact Ends.of_step

theorem ends_succ {n : ℕ} {s s' : σ} {r : ρ} :
    S.Ends (n + 1) s r s' ↔ ∃ s₁, S.step s = (none, s₁) ∧ S.Ends n s₁ r s' := by
  constructor
  · rintro ⟨s₂, hsilent, hstep⟩
    cases hsilent with
    | step h hrest => exact ⟨_, h, s₂, hrest, hstep⟩
  · rintro ⟨s₁, h, s₂, hrest, hstep⟩
    exact ⟨s₂, .step h hrest, hstep⟩

/-- A run to a result passes through the silent steps from where it starts. -/
theorem Ends.after {m n : ℕ} {s t s' : σ} {r : ρ} (h : S.Ends n s r s') (hsilent : S.Silent m s t) :
    ∃ k, n = m + k ∧ S.Ends k t r s' := by
  induction hsilent generalizing n with
  | refl => exact ⟨n, (Nat.zero_add n).symm, h⟩
  | step hstep _ ih =>
    cases n with
    | zero =>
      have h := ends_zero.mp h
      rw [hstep] at h
      cases h
    | succ n =>
      obtain ⟨s₁, h₁, hrest⟩ := ends_succ.mp h
      rw [hstep] at h₁
      cases h₁
      obtain ⟨k, rfl, hk⟩ := ih hrest
      exact ⟨k, (Nat.succ_add _ _).symm, hk⟩

/-- There is one result. -/
theorem Ends.unique {m n : ℕ} {s s₁ s₂ : σ} {r q : ρ} (h : S.Ends m s r s₁)
    (h' : S.Ends n s q s₂) : m = n ∧ r = q ∧ s₁ = s₂ := by
  obtain ⟨t, hsilent, hstep⟩ := h
  obtain ⟨k, rfl, hk⟩ := h'.after hsilent
  cases k with
  | zero =>
    have hk := ends_zero.mp hk
    rw [hstep] at hk
    cases hk
    exact ⟨rfl, rfl, rfl⟩
  | succ k =>
    obtain ⟨u, hu, -⟩ := ends_succ.mp hk
    rw [hstep] at hu
    cases hu

/-- A system that comes to a last result says nothing else. -/
theorem converses_of_ends {n : ℕ} {s s' : σ} {r : ρ} (h : S.Ends n s r s')
    (hlast : ∀ a, S.answer r a s' = none) {c : List (l × α)} {q : l} :
    S.Converses s c q ↔ c = [] ∧ q = S.label r := by
  constructor
  · intro hc
    cases hc with
    | last hends =>
      obtain ⟨-, rfl, -⟩ := h.unique hends
      exact ⟨rfl, rfl⟩
    | next hends ha =>
      obtain ⟨-, rfl, rfl⟩ := h.unique hends
      rw [hlast] at ha
      cases ha
  · rintro ⟨rfl, rfl⟩
    exact .last h

/-! ## Simulation -/

/-- What the two systems become of the same answer. -/
def Answered (R : σ → τ → Prop) (s : Option σ) (t : Option τ) : Prop :=
  (s = none ∧ t = none) ∨ ∃ s' t', s = some s' ∧ t = some t' ∧ R s' t'

theorem answered_refl (s : Option σ) : Answered Eq s s := by
  cases s with
  | none => exact .inl ⟨rfl, rfl⟩
  | some s => exact .inr ⟨s, s, rfl, rfl, rfl⟩

/-- Every step of `S` is matched by at least one step of `T`. -/
structure Simulation (S : System σ ρ l α) (T : System τ ρ' l α) (R : σ → τ → Prop) : Prop where
  silent : ∀ {s t s'}, R s t → S.step s = (none, s') →
    ∃ n t', T.Silent (n + 1) t t' ∧ R s' t'
  result : ∀ {s t r s'}, R s t → S.step s = (some r, s') →
    ∃ n r' t', T.Ends n t r' t' ∧ T.label r' = S.label r ∧
      ∀ a, Answered R (S.answer r a s') (T.answer r' a t')

namespace Simulation

variable {R : σ → τ → Prop} (h : Simulation S T R)

include h

theorem ends {n : ℕ} {s s' : σ} {t : τ} {r : ρ} (hR : R s t) (hends : S.Ends n s r s') :
    ∃ m r' t', T.Ends m t r' t' ∧ T.label r' = S.label r ∧
      ∀ a, Answered R (S.answer r a s') (T.answer r' a t') := by
  induction n generalizing s t with
  | zero => exact h.result hR (ends_zero.mp hends)
  | succ n ih =>
    obtain ⟨s₁, hstep, hrest⟩ := ends_succ.mp hends
    obtain ⟨k, t₁, hsilent, hR₁⟩ := h.silent hR hstep
    obtain ⟨m, r', t', hends', hresult⟩ := ih hR₁ hrest
    exact ⟨_, r', t', hsilent.ends hends', hresult⟩

/-- A result of `T` is one of `S`: the induction is on the steps that `T` has left. -/
theorem ends_of_ends {m : ℕ} {s : σ} {t t' : τ} {r' : ρ'} (hR : R s t)
    (hends : T.Ends m t r' t') :
    ∃ n r s', S.Ends n s r s' ∧ T.label r' = S.label r ∧
      ∀ a, Answered R (S.answer r a s') (T.answer r' a t') := by
  induction m using Nat.strongRecOn generalizing s t with
  | ind m ih =>
    rcases hstep : S.step s with ⟨_ | r, s₁⟩
    · obtain ⟨k, t₁, hsilent, hR₁⟩ := h.silent hR hstep
      obtain ⟨m', rfl, hrest⟩ := hends.after hsilent
      obtain ⟨n, r, s', hends', hresult⟩ := ih m' (by omega) hR₁ hrest
      exact ⟨_, r, s', (Silent.one hstep).ends hends', hresult⟩
    · obtain ⟨n, q, u, hends', hresult⟩ := h.result hR hstep
      obtain ⟨-, rfl, rfl⟩ := hends.unique hends'
      exact ⟨0, r, s₁, Ends.of_step hstep, hresult⟩

/-- **Conversations.** -/
theorem same_conversations {s : σ} {t : τ} (hR : R s t) {c : List (l × α)} {q : l} :
    S.Converses s c q ↔ T.Converses t c q := by
  constructor
  · intro hc
    induction hc generalizing t with
    | last hends =>
      obtain ⟨m, r', t', hends', hlabel, -⟩ := h.ends hR hends
      rw [← hlabel]
      exact .last hends'
    | next hends ha _ ih =>
      obtain ⟨m, r', t', hends', hlabel, hanswer⟩ := h.ends hR hends
      rcases hanswer _ with ⟨hnone, -⟩ | ⟨s₁, t₁, hs, ht, hR₁⟩
      · rw [ha] at hnone
        cases hnone
      · rw [ha] at hs
        cases hs
        rw [← hlabel]
        exact .next hends' ht (ih hR₁)
  · intro hc
    induction hc generalizing s with
    | last hends =>
      obtain ⟨n, r, s', hends', hlabel, -⟩ := h.ends_of_ends hR hends
      rw [hlabel]
      exact .last hends'
    | next hends ha _ ih =>
      obtain ⟨n, r, s', hends', hlabel, hanswer⟩ := h.ends_of_ends hR hends
      rcases hanswer _ with ⟨-, hnone⟩ | ⟨s₁, t₁, hs, ht, hR₁⟩
      · rw [ha] at hnone
        cases hnone
      · rw [ha] at ht
        cases ht
        rw [hlabel]
        exact .next hends' hs (ih hR₁)

end Simulation

/-! ## Built-in answers -/

/-- The system with an environment that answers some of its requests. -/
def answering (S : System σ ρ l α) (auto : l → Option α) : System σ ρ l α where
  step s :=
    match S.step s with
    | (none, s') => (none, s')
    | (some r, s') =>
      match (auto (S.label r)).bind fun a => S.answer r a s' with
      | some s'' => (none, s'')
      | none => (some r, s')
  label := S.label
  answer := S.answer

section

variable {auto : l → Option α} {s s' : σ} {r : ρ} {n : ℕ}

theorem answering_silent (h : S.step s = (none, s')) :
    (S.answering auto).step s = (none, s') := by
  show (match S.step s with | (none, s') => _ | (some r, s') => _) = _
  rw [h]

theorem answering_answered (h : S.step s = (some r, s')) {a : α} {s'' : σ}
    (ha : auto (S.label r) = some a) (hs : S.answer r a s' = some s'') :
    (S.answering auto).step s = (none, s'') := by
  show (match S.step s with | (none, s') => _ | (some r, s') => _) = _
  rw [h]
  simp only [ha, Option.bind_some, hs]

theorem answering_result (h : S.step s = (some r, s'))
    (ha : ∀ a, auto (S.label r) = some a → S.answer r a s' = none) :
    (S.answering auto).step s = (some r, s') := by
  have hnone : ((auto (S.label r)).bind fun a => S.answer r a s') = none := by
    cases hauto : auto (S.label r) with
    | none => rfl
    | some a => exact ha a hauto
  show (match S.step s with | (none, s') => _ | (some r, s') => _) = _
  rw [h]
  simp only [hnone]

theorem Silent.answering (h : S.Silent n s s') : (S.answering auto).Silent n s s' := by
  induction h with
  | refl s => exact .refl s
  | step hstep _ ih => exact .step (answering_silent hstep) ih

theorem Ends.answering (h : S.Ends n s r s')
    (ha : ∀ a, auto (S.label r) = some a → S.answer r a s' = none) :
    (S.answering auto).Ends n s r s' := by
  obtain ⟨s₁, hsilent, hstep⟩ := h
  exact ⟨s₁, hsilent.answering, answering_result hstep ha⟩

end

/-- What a step with built-in answers was without. -/
theorem of_answering {auto : l → Option α} {s s' : σ} {o : Option ρ}
    (h : (S.answering auto).step s = (o, s')) :
    (o = none ∧ S.step s = (none, s')) ∨
    (∃ r a s₁, o = none ∧ S.step s = (some r, s₁) ∧ auto (S.label r) = some a ∧
      S.answer r a s₁ = some s') ∨
    ∃ r, o = some r ∧ S.step s = (some r, s') ∧
      ∀ a, auto (S.label r) = some a → S.answer r a s' = none := by
  rcases hstep : S.step s with ⟨_ | r, s₁⟩
  · rw [answering_silent hstep] at h
    cases h
    exact .inl ⟨rfl, rfl⟩
  · cases hauto : (auto (S.label r)).bind fun a => S.answer r a s₁ with
    | some s₂ =>
      obtain ⟨a, ha, hs⟩ := Option.bind_eq_some_iff.mp hauto
      rw [answering_answered hstep ha hs] at h
      cases h
      exact .inr (.inl ⟨r, a, s₁, rfl, rfl, ha, hs⟩)
    | none =>
      have hnone : ∀ a, auto (S.label r) = some a → S.answer r a s₁ = none := fun a ha => by
        rwa [ha] at hauto
      rw [answering_result hstep hnone] at h
      cases h
      exact .inr (.inr ⟨r, rfl, rfl, hnone⟩)

/-- A simulation holds under any environment. -/
theorem Simulation.answering {R : σ → τ → Prop} (h : Simulation S T R) (auto : l → Option α) :
    Simulation (S.answering auto) (T.answering auto) R where
  silent {s t s'} hR hstep := by
    rcases of_answering hstep with ⟨-, hs⟩ | ⟨r, a, s₁, -, hs, ha, hs'⟩ | ⟨r, hr, -⟩
    · obtain ⟨n, t', hsilent, hR'⟩ := h.silent hR hs
      exact ⟨n, t', hsilent.answering, hR'⟩
    · obtain ⟨n, r', t', ⟨t₁, hsilent, ht⟩, hlabel, hanswer⟩ := h.result hR hs
      rcases hanswer a with ⟨hnone, -⟩ | ⟨s₂, t₂, hs₂, ht₂, hR₂⟩
      · rw [hs'] at hnone
        cases hnone
      · rw [hs'] at hs₂
        cases hs₂
        have hone : (T.answering auto).step t₁ = (none, t₂) :=
          answering_answered ht (hlabel ▸ ha) ht₂
        exact ⟨n, t₂, hsilent.answering.trans (.one hone), hR₂⟩
    · cases hr
  result {s t r s'} hR hstep := by
    rcases of_answering hstep with ⟨hr, -⟩ | ⟨_, _, _, hr, -⟩ | ⟨r₁, hr, hs, hnone⟩
    · cases hr
    · cases hr
    · cases hr
      obtain ⟨n, r', t', ⟨t₁, hsilent, ht⟩, hlabel, hanswer⟩ := h.result hR hs
      refine ⟨n, r', t', Ends.answering ⟨t₁, hsilent, ht⟩ fun a ha => ?_, hlabel, hanswer⟩
      rcases hanswer a with ⟨-, hnone'⟩ | ⟨s₂, t₂, hs₂, -⟩
      · exact hnone'
      · rw [hnone a (hlabel ▸ ha)] at hs₂
        cases hs₂

end System
