import Mathlib.Data.List.Basic
import Mathlib.Data.List.Nodup
import Mathlib.Data.List.Infix

/-!
# Taking the first match out of a list

Selective removal from a queue: find the position of the first element that satisfies a predicate
and remove it there. `List.find?` and `List.eraseP` say what this does; the lemmas below follow
the order and the multiset of the elements through it.
-/

namespace FirstMatch

variable {α : Type*} {p : α → Bool}

/-- Find the position of the first match, then remove the element there. -/
def extract (p : α → Bool) (l : List α) : Option α × List α :=
  match l.findIdx? p with
  | some i => (l[i]?, l.eraseIdx i)
  | none => (none, l)

theorem extract_eq (p : α → Bool) (l : List α) : extract p l = (l.find? p, l.eraseP p) := by
  rw [extract, List.find?_eq_bind_findIdx?_getElem?, List.eraseP_eq_eraseIdx]
  cases l.findIdx? p <;> rfl

/-- The first match and the rest: where the element stood. -/
theorem find?_split {l : List α} {a : α} (h : l.find? p = some a) :
    p a = true ∧ ∃ l₁ l₂, l = l₁ ++ a :: l₂ ∧ (∀ b ∈ l₁, p b = false) ∧
      l.eraseP p = l₁ ++ l₂ := by
  obtain ⟨ha, l₁, l₂, rfl, hl₁⟩ := List.find?_eq_some_iff_append.mp h
  have hl₁' : ∀ b ∈ l₁, p b = false := fun b hb => by simpa using hl₁ b hb
  refine ⟨ha, l₁, l₂, rfl, hl₁', ?_⟩
  rw [List.eraseP_append_right _ (fun b hb => by simp [hl₁' b hb]), List.eraseP_cons_of_pos ha]

theorem perm_cons_eraseP {l : List α} {a : α} (h : l.find? p = some a) :
    l.Perm (a :: l.eraseP p) := by
  obtain ⟨-, l₁, l₂, rfl, -, he⟩ := find?_split h
  rw [he]
  exact List.perm_middle

/-- Where everything matches, the first match is the head. -/
theorem eq_cons_eraseP_of_forall {l : List α} {a : α} (h : l.find? p = some a)
    (hall : ∀ b ∈ l, p b = true) : l = a :: l.eraseP p := by
  obtain ⟨-, l₁, l₂, rfl, hl₁, he⟩ := find?_split h
  have hnil : l₁ = [] := List.eq_nil_iff_forall_not_mem.mpr fun b hb => by
    have hpos := hall b (List.mem_append_left _ hb)
    rw [hl₁ b hb] at hpos
    cases hpos
  rw [he, hnil]
  rfl

theorem eraseP_of_find?_none {l : List α} (h : l.find? p = none) : l.eraseP p = l := by
  rw [List.eraseP_eq_self_iff]
  exact List.find?_eq_none.mp h

/-- Nothing in the list matches: the element appended last is the first match. -/
theorem find?_append_of_none {l : List α} {a : α} (h : ∀ b ∈ l, p b = false) (ha : p a = true) :
    (l ++ [a]).find? p = some a := by
  rw [List.find?_append, List.find?_eq_none.mpr (fun b hb => by simp [h b hb])]
  simp [ha]

/-- A sublist of a list of distinct elements is what a filter by its members keeps. -/
theorem filter_mem_of_sublist [DecidableEq α] {l l' : List α} (h : l.Sublist l')
    (hl' : l'.Nodup) : l'.filter (fun a => a ∈ l) = l := by
  induction h with
  | slnil => rfl
  | @cons l l' a h ih =>
    obtain ⟨ha, hd⟩ := List.nodup_cons.mp hl'
    have hal : a ∉ l := fun hmem => ha (h.subset hmem)
    rw [List.filter_cons_of_neg (by simpa using hal), ih hd]
  | @cons_cons l l' a h ih =>
    obtain ⟨ha, hd⟩ := List.nodup_cons.mp hl'
    have hcongr : l'.filter (fun b => b ∈ a :: l) = l'.filter (fun b => b ∈ l) := by
      refine List.filter_congr fun b hb => ?_
      have hba : b ≠ a := fun h => ha (h ▸ hb)
      simp [hba]
    rw [List.filter_cons_of_pos (by simp), hcongr, ih hd]

end FirstMatch
