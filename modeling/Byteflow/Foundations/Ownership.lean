import Mathlib.Data.Multiset.UnionInter

/-!
# Exclusive ownership of tokens

Tokens lie in places, `C p` being the multiset of the tokens in the place `p`. In an `Exclusive`
distribution no token lies twice in a place or in two places. Such a distribution stays exclusive
when tokens move between two places without being copied (`Exclusive.transfer`), and when a
token that lies nowhere is brought to a place (`Exclusive.insert`).
-/

namespace Ownership

variable {P α : Type*} {C C' : P → Multiset α}

/-- No token lies twice. -/
def Exclusive (C : P → Multiset α) : Prop :=
  (∀ p, (C p).Nodup) ∧ ∀ p q, p ≠ q → ∀ a ∈ C p, a ∉ C q

namespace Exclusive

theorem nodup (h : Exclusive C) (p : P) : (C p).Nodup := h.1 p

/-- A token lies in one place. -/
theorem place_unique (h : Exclusive C) {p q : P} {a : α} (hp : a ∈ C p) (hq : a ∈ C q) :
    p = q := by
  by_contra hpq
  exact h.2 p q hpq a hp hq

theorem nodup_add (h : Exclusive C) {p q : P} (hpq : p ≠ q) : (C p + C q).Nodup :=
  Multiset.nodup_add.mpr
    ⟨h.1 p, h.1 q, Multiset.disjoint_left.mpr fun {a} hp hq => h.2 p q hpq a hp hq⟩

/-- Fewer tokens in the same places. -/
theorem mono (h : Exclusive C) (hle : ∀ p, C' p ≤ C p) : Exclusive C' :=
  ⟨fun p => Multiset.nodup_of_le (hle p) (h.1 p),
    fun p q hpq a hp hq =>
      h.2 p q hpq a (Multiset.mem_of_le (hle p) hp) (Multiset.mem_of_le (hle q) hq)⟩

/-- **Tokens move between two places.** -/
theorem transfer (h : Exclusive C) {p q : P} (hpq : p ≠ q) (hmove : C' p + C' q ≤ C p + C q)
    (hrest : ∀ r, r ≠ p → r ≠ q → C' r ≤ C r) : Exclusive C' := by
  have hnodup := Multiset.nodup_of_le hmove (h.nodup_add hpq)
  obtain ⟨hnp, hnq, hdisj⟩ := Multiset.nodup_add.mp hnodup
  -- a token that is now in one of the two places came from one of the two
  have hfrom : ∀ a, a ∈ C' p ∨ a ∈ C' q → a ∈ C p ∨ a ∈ C q := fun a ha =>
    Multiset.mem_add.mp (Multiset.mem_of_le hmove (Multiset.mem_add.mpr ha))
  have hout : ∀ r, r ≠ p → r ≠ q → ∀ a ∈ C' r, ¬(a ∈ C' p ∨ a ∈ C' q) := by
    intro r hrp hrq a har ha
    have har := Multiset.mem_of_le (hrest r hrp hrq) har
    rcases hfrom a ha with ha | ha
    · exact h.2 r p hrp a har ha
    · exact h.2 r q hrq a har ha
  constructor
  · intro r
    by_cases hrp : r = p
    · exact hrp ▸ hnp
    by_cases hrq : r = q
    · exact hrq ▸ hnq
    exact Multiset.nodup_of_le (hrest r hrp hrq) (h.1 r)
  · intro r₁ r₂ hne a h₁ h₂
    by_cases hp₁ : r₁ = p
    · by_cases hq₂ : r₂ = q
      · exact Multiset.disjoint_left.mp hdisj (hp₁ ▸ h₁) (hq₂ ▸ h₂)
      · exact hout r₂ (fun e => hne (hp₁.trans e.symm)) hq₂ a h₂ (.inl (hp₁ ▸ h₁))
    by_cases hq₁ : r₁ = q
    · by_cases hp₂ : r₂ = p
      · exact Multiset.disjoint_left.mp hdisj (hp₂ ▸ h₂) (hq₁ ▸ h₁)
      · exact hout r₂ hp₂ (fun e => hne (hq₁.trans e.symm)) a h₂ (.inr (hq₁ ▸ h₁))
    by_cases hp₂ : r₂ = p
    · exact hout r₁ hp₁ hq₁ a h₁ (.inl (hp₂ ▸ h₂))
    by_cases hq₂ : r₂ = q
    · exact hout r₁ hp₁ hq₁ a h₁ (.inr (hq₂ ▸ h₂))
    exact h.2 r₁ r₂ hne a (Multiset.mem_of_le (hrest r₁ hp₁ hq₁) h₁)
      (Multiset.mem_of_le (hrest r₂ hp₂ hq₂) h₂)

/-- **A fresh token** is brought to a place. -/
theorem insert (h : Exclusive C) {p : P} {a : α} (hfresh : ∀ q, a ∉ C q)
    (hp : C' p ≤ a ::ₘ C p) (hrest : ∀ r, r ≠ p → C' r ≤ C r) : Exclusive C' := by
  have hmem : ∀ r, ∀ b ∈ C' r, b ∈ C r ∨ (r = p ∧ b = a) := by
    intro r b hb
    by_cases hr : r = p
    · subst hr
      rcases Multiset.mem_cons.mp (Multiset.mem_of_le hp hb) with rfl | hb
      · exact .inr ⟨rfl, rfl⟩
      · exact .inl hb
    · exact .inl (Multiset.mem_of_le (hrest r hr) hb)
  constructor
  · intro r
    by_cases hr : r = p
    · subst hr
      exact Multiset.nodup_of_le hp (Multiset.nodup_cons.mpr ⟨hfresh r, h.1 r⟩)
    · exact Multiset.nodup_of_le (hrest r hr) (h.1 r)
  · intro r₁ r₂ hne b h₁ h₂
    rcases hmem r₁ b h₁ with h₁ | ⟨rfl, rfl⟩
    · rcases hmem r₂ b h₂ with h₂ | ⟨rfl, rfl⟩
      · exact h.2 r₁ r₂ hne b h₁ h₂
      · exact hfresh r₁ h₁
    · rcases hmem r₂ b h₂ with h₂ | ⟨rfl, -⟩
      · exact hfresh r₂ h₂
      · exact hne rfl

section Filter

variable {P' : α → Prop} [DecidablePred P']

/-- Tokens that count move between two places, with some that do not count. -/
theorem transfer_filter (h : Exclusive fun r => (C r).filter P') {p q : P} (hpq : p ≠ q)
    (hmove : C' p + C' q ≤ C p + C q) (hrest : ∀ r, r ≠ p → r ≠ q → C' r ≤ C r) :
    Exclusive fun r => (C' r).filter P' := by
  refine h.transfer hpq ?_ fun r hrp hrq => Multiset.filter_le_filter _ (hrest r hrp hrq)
  rw [← Multiset.filter_add, ← Multiset.filter_add]
  exact Multiset.filter_le_filter _ hmove

/-- A fresh token is brought to a place, and may count. -/
theorem insert_filter (h : Exclusive fun r => (C r).filter P') {p : P} {a : α}
    (hfresh : ∀ q, a ∉ C q) (hp : C' p ≤ a ::ₘ C p) (hrest : ∀ r, r ≠ p → C' r ≤ C r) :
    Exclusive fun r => (C' r).filter P' := by
  refine h.insert (p := p) (a := a) (fun q ha => hfresh q (Multiset.mem_of_mem_filter ha)) ?_
    fun r hr => Multiset.filter_le_filter _ (hrest r hr)
  refine (Multiset.filter_le_filter _ hp).trans ?_
  by_cases ha : P' a
  · rw [Multiset.filter_cons_of_pos _ ha]
  · rw [Multiset.filter_cons_of_neg _ ha]
    exact Multiset.le_cons_self _ _

/-- Fewer tokens count. -/
theorem mono_filter {Q : α → Prop} [DecidablePred Q] (h : Exclusive fun r => (C r).filter P')
    (hle : ∀ r, C' r ≤ C r) (hQ : ∀ a, Q a → P' a) : Exclusive fun r => (C' r).filter Q := by
  refine h.mono fun r => (Multiset.filter_le_filter _ (hle r)).trans ?_
  exact Multiset.monotone_filter_right _ hQ

end Filter

end Exclusive

end Ownership
