import Mathlib.Algebra.BigOperators.Group.List.Basic

/-!
# Ledgers

A ledger is a list of entries, each on an account. `total` is what the amounts on an account come
to, `last` is the last entry on it; what happens on one account leaves the others alone.
-/

namespace Ledger

variable {α M : Type*} [DecidableEq α] [AddMonoid M] {a b : α}

/-- What an account comes to. -/
def total (entries : List (α × M)) (a : α) : M :=
  ((entries.filter (·.1 = a)).map (·.2)).sum

@[simp] theorem total_nil : total ([] : List (α × M)) a = 0 := rfl

@[simp] theorem total_append (entries entries' : List (α × M)) :
    total (entries ++ entries') a = total entries a + total entries' a := by
  simp only [total, List.filter_append, List.map_append, List.sum_append]

@[simp] theorem total_single_self (amount : M) : total [(a, amount)] a = amount := by
  simp [total]

/-- An account that no entry is about. -/
theorem total_eq_zero {entries : List (α × M)} (h : ∀ e ∈ entries, e.1 ≠ a) :
    total entries a = 0 := by
  have hnone : entries.filter (·.1 = a) = [] :=
    List.filter_eq_nil_iff.mpr fun e he => by simpa using h e he
  rw [total, hnone]
  rfl

theorem total_single_of_ne (h : b ≠ a) (amount : M) : total [(a, amount)] b = 0 :=
  total_eq_zero fun e he => by
    rw [List.mem_singleton.mp he]
    exact h.symm

/-! ## The last entry -/

section

variable {α M : Type*} [DecidableEq α] {a : α} {entries entries' : List (α × M)}

/-- The last entry on an account. -/
def last (entries : List (α × M)) (a : α) : Option M :=
  (entries.filter (·.1 = a)).getLast?.map (·.2)

@[simp] theorem last_nil : last ([] : List (α × M)) a = none := rfl

@[simp] theorem last_append_self (entries : List (α × M)) (m : M) :
    last (entries ++ [(a, m)]) a = some m := by
  simp [last]

/-- Entries on other accounts. -/
theorem last_append_of_ne (h : ∀ e ∈ entries', e.1 ≠ a) :
    last (entries ++ entries') a = last entries a := by
  have hnone : entries'.filter (·.1 = a) = [] :=
    List.filter_eq_nil_iff.mpr fun e he => by simpa using h e he
  simp only [last, List.filter_append, hnone, List.append_nil]

theorem mem_of_last {m : M} (h : last entries a = some m) : (a, m) ∈ entries := by
  obtain ⟨e, he, rfl⟩ := Option.map_eq_some_iff.mp h
  obtain ⟨hmem, ha⟩ := List.mem_filter.mp (List.mem_of_getLast? he)
  obtain rfl : e.1 = a := by simpa using ha
  exact hmem

end

end Ledger
