import Mathlib.Data.List.Sort
import Mathlib.Data.Multiset.AddSub

/-!
# Priority queues

A queue that hands out an entry of the least key. Which of the entries of one key comes first is
left open. `sorted` is a queue by insertion into a sorted list.
-/

/-- The operations of a priority queue, and what they do to the entries it holds. -/
structure PriorityQueue (Q E : Type) (key : E → ℕ) where
  empty : Q
  push : E → Q → Q
  pop : Q → Option (E × Q)
  entries : Q → Multiset E
  entries_empty : entries empty = 0
  entries_push (e : E) (q : Q) : entries (push e q) = e ::ₘ entries q
  pop_none {q : Q} (h : pop q = none) : entries q = 0
  pop_some {q q' : Q} {e : E} (h : pop q = some (e, q')) :
    entries q = e ::ₘ entries q' ∧ ∀ e' ∈ entries q', key e ≤ key e'

namespace PriorityQueue

variable {E : Type} {key : E → ℕ}

/-- An entry of the least key is in front. -/
theorem le_of_pop {Q : Type} (queue : PriorityQueue Q E key) {q q' : Q} {e e' : E}
    (h : queue.pop q = some (e, q')) (he' : e' ∈ queue.entries q) : key e ≤ key e' := by
  obtain ⟨hentries, hle⟩ := queue.pop_some h
  rw [hentries, Multiset.mem_cons] at he'
  rcases he' with rfl | he'
  · exact le_refl _
  · exact hle e' he'

/-- The only entry is in front. -/
theorem eq_of_pop {Q : Type} (queue : PriorityQueue Q E key) {q q' : Q} {e e' : E}
    (h : queue.pop q = some (e, q')) (hq : queue.entries q = {e'}) : e = e' := by
  rw [(queue.pop_some h).1] at hq
  exact Multiset.mem_singleton.mp (hq ▸ Multiset.mem_cons_self e _)

/-- Order by the key. -/
def Le (key : E → ℕ) (a b : E) : Prop := key a ≤ key b

instance (key : E → ℕ) : DecidableRel (Le key) := fun a b =>
  inferInstanceAs (Decidable (key a ≤ key b))

instance (key : E → ℕ) : Std.Total (Le key) := ⟨fun a b => le_total (key a) (key b)⟩

instance (key : E → ℕ) : IsTrans E (Le key) := ⟨fun _ _ _ => le_trans⟩

/-- A sorted list. -/
def sorted (key : E → ℕ) : PriorityQueue { es : List E // es.Pairwise (Le key) } E key where
  empty := ⟨[], List.Pairwise.nil⟩
  push e q := ⟨q.1.orderedInsert (Le key) e, q.2.orderedInsert e q.1⟩
  pop
    | ⟨[], _⟩ => none
    | ⟨e :: es, h⟩ => some (e, ⟨es, h.of_cons⟩)
  entries q := q.1
  entries_empty := rfl
  entries_push e q := Multiset.coe_eq_coe.mpr (List.perm_orderedInsert (Le key) e q.1)
  pop_none {q} h := by
    obtain ⟨_ | ⟨e, es⟩, hq⟩ := q
    · rfl
    · cases h
  pop_some {q q' e} h := by
    obtain ⟨_ | ⟨e', es⟩, hq⟩ := q
    · cases h
    · cases h
      exact ⟨rfl, fun e' he' => List.rel_of_pairwise_cons hq he'⟩

end PriorityQueue
