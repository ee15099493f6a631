import Mathlib.Data.List.Basic

/-!
# Slots

A list of slots, each of which holds an element or is empty. A slot is made when it is first used,
with the slots before it. An element is searched for from the first slot on, so where only one slot
holds an element of the kind, that slot is found (`find_eq_some_iff`).
-/

namespace Slots

variable {α β : Type*} {l : List (Option α)} {i j n : ℕ} {a : α}

/-- What is in a slot. -/
def get (l : List (Option α)) (i : ℕ) : Option α := l[i]?.join

/-- The slots, with an element in one of them. -/
def put (l : List (Option α)) (i : ℕ) (a : α) : List (Option α) :=
  (l.rightpad (i + 1) none).set i (some a)

/-- The first slot with an element that is `p`. -/
def find (p : α → Bool) (l : List (Option α)) : Option ℕ := l.findIdx? (·.any p)

@[simp] theorem get_nil : get ([] : List (Option α)) i = none := rfl

theorem mem_iff : some a ∈ l ↔ ∃ i, get l i = some a := by
  rw [List.mem_iff_getElem?]
  exact exists_congr fun i => Option.join_eq_some_iff.symm

/-- A slot that is made is empty. -/
@[simp] theorem get_rightpad (l : List (Option α)) (n i : ℕ) :
    get (l.rightpad n none) i = get l i := by
  unfold get List.rightpad
  rw [List.getElem?_append]
  split_ifs with hlt
  · rfl
  · rw [List.getElem?_eq_none (l := l) (Nat.le_of_not_lt hlt), List.getElem?_replicate]
    split_ifs <;> rfl

theorem get_put (l : List (Option α)) (i j : ℕ) (a : α) :
    get (put l i a) j = if j = i then some a else get l j := by
  unfold put
  split_ifs with hij
  · subst hij
    have hlt : j < (l.rightpad (j + 1) none).length := by
      rw [List.length_rightpad]
      omega
    rw [get, List.getElem?_set_self hlt]
    rfl
  · rw [get, List.getElem?_set_ne (Ne.symm hij)]
    exact get_rightpad l (i + 1) j

@[simp] theorem length_put (l : List (Option α)) (i : ℕ) (a : α) :
    (put l i a).length = max l.length (i + 1) := by
  rw [put, List.length_set, List.length_rightpad, Nat.max_comm]

theorem get_map (f : α → β) (l : List (Option α)) (i : ℕ) :
    get (l.map (·.map f)) i = (get l i).map f := by
  unfold get
  rw [List.getElem?_map]
  rcases l[i]? with _ | _ | a <;> rfl

/-- Where no two slots have elements that are `p`, the slot that has one is found. -/
theorem find_eq_some_iff {p : α → Bool}
    (hone : ∀ i j a b, get l i = some a → p a → get l j = some b → p b → i = j) :
    find p l = some i ↔ ∃ a, get l i = some a ∧ p a := by
  have hfound {i : ℕ} (h : find p l = some i) : ∃ a, get l i = some a ∧ p a := by
    obtain ⟨hlt, hp, -⟩ := List.findIdx?_eq_some_iff_getElem.mp h
    obtain ⟨a, ha, hpa⟩ := (Option.any_eq_true _ _).mp hp
    exact ⟨a, by rw [get, List.getElem?_eq_getElem hlt, ha]; rfl, hpa⟩
  refine ⟨hfound, fun ⟨a, ha, hpa⟩ => ?_⟩
  cases hfind : find p l with
  | none =>
    have hmem : some a ∈ l := mem_iff.mpr ⟨i, ha⟩
    have hnot := List.findIdx?_eq_none_iff.mp hfind _ hmem
    rw [Option.any_some, hpa] at hnot
    cases hnot
  | some j =>
    obtain ⟨b, hb, hpb⟩ := hfound hfind
    rw [hone j i b a hb hpb ha hpa]

end Slots
