import Mathlib.Data.List.Basic
import Mathlib.Data.List.Infix

/-!
# Interned elements

A table is searched for an element by a relation `r`; the first match is the place of the element,
and an element without a match is appended. The relation may hold of different elements, and need
not hold of an element and itself, so a place need not have the element that was put there
(`faithful_iff`).
-/

namespace Intern

variable {α : Type*} (r : α → α → Bool)

/-- The place of an element: that of the first match, or the end of the table. -/
def place (t : List α) (a : α) : ℕ := t.findIdx (r · a)

/-- The table with the element. -/
def add (t : List α) (a : α) : List α := if t.any (r · a) then t else t ++ [a]

/-- The table after a list of elements. -/
def table (t : List α) (as : List α) : List α := as.foldl (add r) t

/-- The places that a list of elements is given. -/
def places (t : List α) : List α → List ℕ
  | [] => []
  | a :: as => place r t a :: places (add r t a) as

variable {r} {t t' as : List α} {a b : α} {n j k : ℕ}

theorem getElem?_of_extends (h : t <+: t') (hn : t[n]? = some a) : t'[n]? = some a := by
  obtain ⟨rest, rfl⟩ := h
  rw [List.getElem?_append_left (List.getElem?_eq_some_iff.mp hn).1, hn]

theorem prefix_add (t : List α) (a : α) : t <+: add r t a := by
  unfold add
  split_ifs
  · exact List.prefix_rfl
  · exact List.prefix_append _ _

theorem prefix_table (t : List α) (as : List α) : t <+: table r t as := by
  induction as generalizing t with
  | nil => exact List.prefix_rfl
  | cons a as ih => exact (prefix_add t a).trans (ih _)

theorem add_take_extends (t : List α) (h : as[k]? = some a) :
    add r (table r t (as.take k)) a <+: table r t as := by
  obtain ⟨hk, rfl⟩ := List.getElem?_eq_some_iff.mp h
  calc add r (table r t (as.take k)) as[k]
      = table r t (as.take (k + 1)) := by
        rw [List.take_add_one, h, table, table, List.foldl_append]
        rfl
    _ <+: table r (table r t (as.take (k + 1))) (as.drop (k + 1)) := prefix_table _ _
    _ = table r t as := by
        rw [table, table, ← List.foldl_append, List.take_append_drop]
        rfl

theorem getElem?_places (t : List α) (h : as[k]? = some a) :
    (places r t as)[k]? = some (place r (table r t (as.take k)) a) := by
  induction as generalizing t k with
  | nil => simp at h
  | cons b as ih =>
    cases k with
    | zero =>
      rw [List.getElem?_cons_zero, Option.some.injEq] at h
      simp [places, table, h]
    | succ k => exact ih _ (by simpa using h)

/-- Where an element is put, there is a match or the element itself. -/
theorem at_place (t : List α) (a : α) :
    ∃ b, (add r t a)[place r t a]? = some b ∧ (b = a ∨ r b a = true) := by
  unfold add place
  by_cases hany : t.any (r · a) = true
  · have hlt : t.findIdx (r · a) < t.length := by simpa [List.findIdx_lt_length] using hany
    exact ⟨t[t.findIdx (r · a)], by simp [hany, hlt],
      .inr (List.findIdx_getElem (p := (r · a)) (w := hlt))⟩
  · have heq : t.findIdx (r · a) = t.length := by simpa [List.findIdx_eq_length] using hany
    exact ⟨a, by simp [hany, heq], .inl rfl⟩

theorem at_places (t : List α) (h : as[k]? = some a) : ∃ n b, (places r t as)[k]? = some n ∧
    (table r t as)[n]? = some b ∧ (b = a ∨ r b a = true) := by
  obtain ⟨b, hb, hab⟩ := at_place (r := r) (table r t (as.take k)) a
  refine ⟨_, b, getElem?_places t h, ?_, hab⟩
  exact getElem?_of_extends (add_take_extends t h) hb

/-- What is behind the table was put there. -/
theorem exists_of_table (hn : (table r t as)[n]? = some a) (hlen : t.length ≤ n) :
    ∃ k : ℕ, as[k]? = some a ∧ (places r t as)[k]? = some n := by
  induction as generalizing t with
  | nil =>
    rw [table, List.foldl_nil, List.getElem?_eq_none hlen] at hn
    cases hn
  | cons b as ih =>
    by_cases hafter : (add r t b).length ≤ n
    · obtain ⟨k, hk, hplace⟩ := ih hn hafter
      exact ⟨k + 1, hk, hplace⟩
    · -- the place right behind the table is that of the first element
      have hnone : t.any (r · b) = false := by
        by_contra hany
        rw [Bool.not_eq_false] at hany
        rw [add, if_pos hany] at hafter
        exact hafter hlen
      have hadd : add r t b = t ++ [b] := by simp [add, hnone]
      have hplace : place r t b = t.length := by
        simpa [place, List.findIdx_eq_length] using hnone
      have hn' : n = t.length := by
        rw [hadd, List.length_append, List.length_singleton] at hafter
        omega
      have hb : (table r t (b :: as))[n]? = some b :=
        getElem?_of_extends (prefix_table (add r t b) as) (by simp [hadd, hn'])
      rw [hn, Option.some.injEq] at hb
      exact ⟨0, by simp [hb], by simp [places, hplace, hn']⟩

theorem mem_of_mem_table (h : a ∈ table r [] as) : a ∈ as := by
  obtain ⟨n, hn⟩ := List.mem_iff_getElem?.mp h
  obtain ⟨k, hk, -⟩ := exists_of_table hn (Nat.zero_le n)
  exact List.mem_of_getElem? hk

/-- The table has each element without a match before it. -/
theorem table_eq_eraseDupsBy : table r [] as = as.eraseDupsBy fun a b => r b a := by
  have hloop : ∀ t : List α,
      table r t as = List.eraseDupsBy.loop (fun a b => r b a) as t.reverse := by
    induction as with
    | nil => simp [table, List.eraseDupsBy.loop]
    | cons a as ih =>
      intro t
      have hany : t.reverse.any (fun b => r b a) = t.any (r · a) := List.any_reverse
      rw [table, List.foldl_cons, List.eraseDupsBy.loop, hany, add]
      cases t.any (r · a) with
      | true => exact ih t
      | false => simpa [table] using ih (t ++ [a])
  exact hloop []

/-! ## An equality in part -/

section

variable (hsymm : ∀ a b, r a b = true → r b a = true)
  (htrans : ∀ a b c, r a b = true → r b c = true → r a c = true)

include hsymm htrans

/-- What equals an element that is in the table is found at its place. -/
theorem place_of_extends (ht : add r t a <+: t') (hab : r a b = true) :
    place r t' b = place r t a := by
  have hpred : (r · b) = (r · a) := by
    funext c
    rw [Bool.eq_iff_iff]
    exact ⟨fun h => htrans c b a h (hsymm a b hab), fun h => htrans c a b h hab⟩
  obtain ⟨rest, rfl⟩ := ht
  unfold place add
  rw [hpred]
  have ha : r a a = true := htrans a b a hab (hsymm a b hab)
  by_cases hany : t.any (r · a) = true
  · have hlt : t.findIdx (r · a) < t.length := by simpa [List.findIdx_lt_length] using hany
    rw [if_pos hany, List.findIdx_append, if_pos hlt]
  · have heq : t.findIdx (r · a) = t.length := by simpa [List.findIdx_eq_length] using hany
    rw [if_neg hany, List.append_assoc, List.findIdx_append, if_neg heq.not_lt, heq]
    simp [List.findIdx_cons, ha]

theorem places_eq (hj : as[j]? = some a) (hk : as[k]? = some b) (hjk : j < k)
    (hab : r a b = true) : (places r t as)[j]? = (places r t as)[k]? := by
  rw [getElem?_places t hj, getElem?_places t hk]
  have hj' : (as.take k)[j]? = some a := by rwa [List.getElem?_take_of_lt hjk]
  have hextends := add_take_extends (r := r) t hj'
  rw [List.take_take, min_eq_left hjk.le] at hextends
  rw [place_of_extends hsymm htrans hextends hab]

/-- **When each element is found where it was put**, in a table that is read through `f`, and the
elements that are `P` are put in one place: no two different elements match, each element of the
table is read at its place, and an element that is `P` is read at one place only. -/
theorem faithful_iff (f : ℕ → ℕ) (P : α → Prop) (as : List α) :
    ((∀ (k : ℕ) a, as[k]? = some a →
        ∃ n, (places r [] as)[k]? = some n ∧ (table r [] as)[f n]? = some a) ∧
      ∀ (j k : ℕ) a, P a → as[j]? = some a → as[k]? = some a →
        ((places r [] as)[j]?).map f = ((places r [] as)[k]?).map f) ↔
    (∀ a ∈ as, ∀ b ∈ as, r a b = true → a = b) ∧
      (∀ n < (table r [] as).length, (table r [] as)[f n]? = (table r [] as)[n]?) ∧
      ∀ (n m : ℕ) a, P a → (table r [] as)[n]? = some a → (table r [] as)[m]? = some a →
        f n = f m := by
  constructor
  · rintro ⟨hread, hone⟩
    have hbefore : ∀ (j k : ℕ) a b, as[j]? = some a → as[k]? = some b → j < k → r a b = true →
        a = b := by
      intro j k a b hj hk hjk hab
      obtain ⟨n, hn, ha⟩ := hread j a hj
      obtain ⟨m, hm, hb⟩ := hread k b hk
      rw [places_eq hsymm htrans hj hk hjk hab, hm, Option.some.injEq] at hn
      rw [← hn, hb, Option.some.injEq] at ha
      exact ha.symm
    refine ⟨fun a ha b hb hab => ?_, fun n hn => ?_, fun n m a hP hn hm => ?_⟩
    · obtain ⟨j, hj⟩ := List.mem_iff_getElem?.mp ha
      obtain ⟨k, hk⟩ := List.mem_iff_getElem?.mp hb
      rcases lt_trichotomy j k with hjk | rfl | hjk
      · exact hbefore j k a b hj hk hjk hab
      · exact Option.some.inj (hj.symm.trans hk)
      · exact (hbefore k j b a hk hj hjk (hsymm a b hab)).symm
    · obtain ⟨k, hk, hplace⟩ := exists_of_table (List.getElem?_eq_getElem hn) (Nat.zero_le n)
      obtain ⟨n', hn', ha⟩ := hread k _ hk
      rw [hplace, Option.some.injEq] at hn'
      rw [← hn'] at ha
      rw [ha, List.getElem?_eq_getElem hn]
    · obtain ⟨j, hj, hplace⟩ := exists_of_table hn (Nat.zero_le n)
      obtain ⟨k, hk, hplace'⟩ := exists_of_table hm (Nat.zero_le m)
      simpa [hplace, hplace'] using hone j k a hP hj hk
  · rintro ⟨heq, hread, hone⟩
    have hat : ∀ (k : ℕ) a, as[k]? = some a →
        ∃ n, (places r [] as)[k]? = some n ∧ (table r [] as)[n]? = some a := by
      intro k a hk
      obtain ⟨n, b, hn, hb, hab⟩ := at_places (r := r) [] hk
      have hba : b = a := by
        rcases hab with rfl | hab
        · rfl
        · have hmem : b ∈ as := mem_of_mem_table (List.mem_of_getElem? hb)
          exact heq b hmem a (List.mem_of_getElem? hk) hab
      exact ⟨n, hn, hba ▸ hb⟩
    refine ⟨fun k a hk => ?_, fun j k a hP hj hk => ?_⟩
    · obtain ⟨n, hn, ha⟩ := hat k a hk
      exact ⟨n, hn, (hread n (List.getElem?_eq_some_iff.mp ha).1).trans ha⟩
    · obtain ⟨n, hn, ha⟩ := hat j a hj
      obtain ⟨m, hm, ha'⟩ := hat k a hk
      rw [hn, hm, Option.map_some, Option.map_some, hone n m a hP ha ha']

end

end Intern
