import Mathlib.Data.List.Nodup
import Mathlib.Logic.Function.Basic

/-!
# A table and its reverse index

A table gives each key at most one owner, and an index lists the keys of each owner. The index is
kept by hand: a key is entered with its owner, leaves alone, or is swept with all keys of the
owner. `Lists` says that the index lists exactly the keys of the table, and `Tidy` that it lists
none twice and keeps no empty list.
-/

namespace Reverse

open Function (update)

variable {α β : Type*} [DecidableEq α] [DecidableEq β]

/-- The keys of an owner; an owner without an entry has none. -/
def keys (index : β → Option (List α)) (b : β) : List α := (index b).getD []

/-- Take a key off the list of an owner, and drop the list if nothing is left of it. -/
def remove (index : β → Option (List α)) (b : β) (a : α) : β → Option (List α) :=
  match index b with
  | some l =>
    let kept := l.filter (· ≠ a)
    update index b (if kept.isEmpty then none else some kept)
  | none => index

variable {table : α → Option β} {index : β → Option (List α)} {a : α} {b b' : β} {l : List α}

omit [DecidableEq α] in
theorem keys_update (v : Option (List α)) :
    keys (update index b v) b' = if b' = b then v.getD [] else keys index b' := by
  by_cases hb : b' = b
  · subst hb
    simp [keys]
  · simp [keys, hb]

theorem keys_remove :
    keys (remove index b a) b' =
      if b' = b then (keys index b).filter (· ≠ a) else keys index b' := by
  unfold remove
  cases hl : index b with
  | none =>
    by_cases hb : b' = b
    · subst hb
      simp [keys, hl]
    · simp [hb]
  | some l =>
    rw [keys_update]
    by_cases hb : b' = b
    · simp only [hb, if_true, keys, hl, Option.getD_some]
      split_ifs with hempty
      · exact (List.isEmpty_iff.mp hempty).symm
      · rfl
    · simp [hb]

/-! ## The keys of the table -/

/-- The index lists under each owner exactly the keys that the table gives it. -/
def Lists (table : α → Option β) (index : β → Option (List α)) : Prop :=
  ∀ a b, a ∈ keys index b ↔ table a = some b

namespace Lists

omit [DecidableEq α] [DecidableEq β] in
theorem empty : Lists (fun _ : α => (none : Option β)) (fun _ => none) := by
  simp [Lists, keys]

omit [DecidableEq α] [DecidableEq β] in
/-- A key has an owner exactly if a list of the index has it. -/
theorem owner_iff (h : Lists table index) : table a = some b ↔ ∃ l, index b = some l ∧ a ∈ l := by
  rw [← h a b]
  cases hl : index b <;> simp [keys, hl]

omit [DecidableEq α] [DecidableEq β] in
theorem notMem (h : Lists table index) (hfree : table a = none) (b : β) : a ∉ keys index b := by
  simp [h a b, hfree]

/-- The keys of an owner, as the table tells them. -/
theorem ite_mem_keys {γ : Type*} (h : Lists table index) (x y : γ) :
    (if a ∈ keys index b then x else y) = if table a = some b then x else y :=
  if_congr (h a b) rfl rfl

/-- A key without an owner is entered. -/
theorem enter (h : Lists table index) (hfree : table a = none) (hl : l.Perm (a :: keys index b)) :
    Lists (update table a (some b)) (update index b (some l)) := by
  intro a' b'
  rw [keys_update]
  by_cases ha : a' = a
  · subst ha
    by_cases hb : b' = b
    · simp [hb, hl.mem_iff]
    · simp [hb, h.notMem hfree b', Ne.symm hb]
  · by_cases hb : b' = b
    · simp [hb, hl.mem_iff, ha, h a' b]
    · simp [hb, ha, h a' b']

/-- A key leaves. -/
theorem leave (h : Lists table index) (hb : table a = some b) :
    Lists (update table a none) (remove index b a) := by
  intro a' b'
  rw [keys_remove]
  by_cases ha : a' = a
  · subst ha
    by_cases hb' : b' = b
    · simp [hb']
    · simp [hb', h a' b', hb, Ne.symm hb']
  · by_cases hb' : b' = b
    · simp [hb', ha, h a' b]
    · simp [hb', ha, h a' b']

/-- All keys of an owner leave. -/
theorem sweep (h : Lists table index) (b : β) :
    Lists (fun a => if a ∈ keys index b then none else table a) (update index b none) := by
  intro a' b'
  rw [keys_update]
  dsimp only
  rw [h.ite_mem_keys]
  by_cases hb : b' = b
  · subst hb
    simp
  · by_cases ha : table a' = some b
    · simp [hb, ha, h a' b', Ne.symm hb]
    · simp [hb, ha, h a' b']

end Lists

/-! ## The lists of the index -/

/-- No list of the index is empty or has a key twice. -/
structure Tidy (index : β → Option (List α)) : Prop where
  nodup : ∀ b, (keys index b).Nodup
  ne_nil : ∀ b, index b ≠ some []

namespace Tidy

omit [DecidableEq α] [DecidableEq β] in
theorem empty : Tidy (fun _ : β => (none : Option (List α))) where
  nodup _ := List.nodup_nil
  ne_nil _ := by simp

omit [DecidableEq β] in
theorem count (h : Tidy index) (hl : index b = some l) : l ≠ [] ∧ ∀ a ∈ l, l.count a = 1 := by
  have hkeys : keys index b = l := by simp [keys, hl]
  refine ⟨fun hnil => h.ne_nil b (hnil ▸ hl), fun a ha => ?_⟩
  exact List.count_eq_one_of_mem (hkeys ▸ h.nodup b) ha

omit [DecidableEq α] in
theorem enter (h : Tidy index) (hnew : a ∉ keys index b) (hl : l.Perm (a :: keys index b)) :
    Tidy (update index b (some l)) := by
  refine ⟨fun b' => ?_, fun b' hnil => ?_⟩
  · rw [keys_update]
    split_ifs with hb
    · exact hl.nodup_iff.mpr (List.nodup_cons.mpr ⟨hnew, h.nodup b⟩)
    · exact h.nodup b'
  · by_cases hb : b' = b
    · subst hb
      rw [Function.update_self, Option.some.injEq] at hnil
      exact List.cons_ne_nil _ _ (List.perm_nil.mp (hnil ▸ hl.symm))
    · rw [Function.update_of_ne hb] at hnil
      exact h.ne_nil b' hnil

theorem leave (h : Tidy index) (b : β) (a : α) : Tidy (remove index b a) := by
  refine ⟨fun b' => ?_, fun b' hnil => ?_⟩
  · rw [keys_remove]
    split_ifs with hb
    · exact (h.nodup b).filter _
    · exact h.nodup b'
  · unfold remove at hnil
    cases hl : index b with
    | none => exact h.ne_nil b' (by simpa [hl] using hnil)
    | some l =>
      rw [hl] at hnil
      by_cases hb : b' = b
      · subst hb
        simp only [Function.update_self] at hnil
        split_ifs at hnil with hempty
        exact hempty (List.isEmpty_iff.mpr (Option.some.inj hnil))
      · simp only [Function.update_of_ne hb] at hnil
        exact h.ne_nil b' hnil

omit [DecidableEq α] in
theorem sweep (h : Tidy index) (b : β) : Tidy (update index b none) := by
  refine ⟨fun b' => ?_, fun b' hnil => ?_⟩
  · rw [keys_update]
    split_ifs with hb
    · exact List.nodup_nil
    · exact h.nodup b'
  · by_cases hb : b' = b
    · subst hb
      simp at hnil
    · rw [Function.update_of_ne hb] at hnil
      exact h.ne_nil b' hnil

end Tidy

end Reverse
