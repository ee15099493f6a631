import Byteflow.Jit.Interpreted
import Byteflow.Jit.Kept

/-!
# Registers of the interpreter as integers

Compiled code has a register of the interpreter as an integer: the value that the block holds for
it, or else its slot (`view`). `Mirrors` says that these are the integers of a register file, and
holds through the reads, the writes and the flush of a block. On exit every slot becomes an integer
in the VM, so a register of the VM has the integer of the interpreter's (`SameInteger`), but not
its kind.
-/

namespace Byteflow

namespace Jit

/-! ## Views -/

def view (m : RegisterMap Int64) (fr : JitFrame) (r : ℕ) : Option Int64 :=
  m[r]?.join.or fr.slots[r]?

/-- Compiled code has the integers of the registers, in a block that holds at most the first `kept`
of them as values. -/
structure Mirrors (kept : ℕ) (regs : List Value) (m : RegisterMap Int64) (fr : JitFrame) :
    Prop where
  length : m.length = kept
  small : kept ≤ 256
  room : kept ≤ fr.slots.length
  integer : ∀ r v, regs[r]? = some v → ∃ i, flat v = some i ∧ view m fr r = some i

/-- The slots hold what the block holds. -/
def Flushed (m : RegisterMap Int64) (fr : JitFrame) : Prop :=
  ∀ (r : ℕ) (i : Int64), m[r]?.join = some i → fr.slots[r]? = some i

section

variable {kept : ℕ} {regs : List Value} {m : RegisterMap Int64} {fr : JitFrame}
  {reg : UInt8} {v : Value}
  {i : Int64} {r : ℕ}

theorem view_set_self (h : r < m.length) : view (List.set m r (some i)) fr r = some i := by
  unfold view
  rw [List.getElem?_set_self h]
  rfl

theorem view_set_of_ne {r' : ℕ} (h : r ≠ r') :
    view (List.set m r (some i)) fr r' = view m fr r' := by
  unfold view
  rw [List.getElem?_set_ne h]

theorem view_new (n : ℕ) : view (RegisterMap.new n) fr r = fr.slots[r]? := by
  unfold view RegisterMap.new
  rw [List.getElem?_replicate]
  split_ifs <;> rfl

/-- Only the slots of a frame matter. -/
theorem Mirrors.congr {fr' : JitFrame} (h : Mirrors kept regs m fr)
    (hslots : fr'.slots = fr.slots) :
    Mirrors kept regs m fr' := by
  refine ⟨h.length, h.small, by rw [hslots]; exact h.room, fun r v hv => ?_⟩
  unfold view
  rw [hslots]
  exact h.integer r v hv

/-- A write to a register that the block can hold. -/
theorem Mirrors.set (h : Mirrors kept regs m fr) (hreg : reg.toNat < kept) (hv : flat v = some i) :
    Mirrors kept (regs.set reg.toNat v) (m.set reg i) fr := by
  unfold RegisterMap.set
  refine ⟨List.length_set.trans h.length, h.small, h.room, ?_⟩
  intro r w hw
  by_cases hr : reg.toNat = r
  · subst hr
    have hlt : reg.toNat < regs.length := by
      by_contra hge
      rw [List.getElem?_eq_none_iff.mpr (by rw [List.length_set]; omega)] at hw
      cases hw
    rw [List.getElem?_set_self hlt] at hw
    cases hw
    exact ⟨i, hv, view_set_self (by rw [h.length]; exact hreg)⟩
  · rw [List.getElem?_set_ne hr] at hw
    rw [view_set_of_ne hr]
    exact h.integer r w hw

/-- A read, after which the block holds the register if it can. -/
theorem Mirrors.read (h : Mirrors kept regs m fr) (hv : regs[reg.toNat]? = some v) :
    ∃ i, flat v = some i ∧ readReg m fr reg = some i ∧ Mirrors kept regs (m.set reg i) fr := by
  obtain ⟨i, hflat, hview⟩ := h.integer _ v hv
  refine ⟨i, hflat, hview, ?_⟩
  by_cases hreg : reg.toNat < kept
  · have hset : regs.set reg.toNat v = regs := by
      obtain ⟨hlt, hget⟩ := List.getElem?_eq_some_iff.mp hv
      rw [← hget]
      exact List.set_getElem_self hlt
    rw [← hset]
    exact h.set hreg hflat
  · have hset : m.set reg i = m := by
      apply List.set_eq_of_length_le
      rw [h.length]
      exact not_lt.mp hreg
    rw [hset]
    exact h

/-- All registers have slots. -/
theorem Mirrors.length_le (h : Mirrors kept regs m fr) : regs.length ≤ fr.slots.length := by
  by_contra hlt
  have hlast : fr.slots.length < regs.length := not_le.mp hlt
  obtain ⟨i, -, hi⟩ := h.integer _ _ (List.getElem?_eq_getElem hlast)
  have hheld : m.length ≤ fr.slots.length := h.length.trans_le h.room
  unfold view at hi
  rw [List.getElem?_eq_none_iff.mpr hheld, List.getElem?_eq_none_iff.mpr le_rfl] at hi
  cases hi

/-- A register file of this length has a value there. -/
theorem exists_register (h : reg.toNat < regs.length) : ∃ v, regs[reg.toNat]? = some v :=
  ⟨_, List.getElem?_eq_getElem h⟩

/-! ## Flushes -/

theorem slots_store {fr' : JitFrame} {slot : ℕ} (h : fr.store slot i = some fr') (r : ℕ) :
    fr'.slots[r]? = if slot = r then some i else fr.slots[r]? := by
  unfold JitFrame.store at h
  split_ifs at h with hlt
  cases h
  dsimp only
  split_ifs with hr
  · subst hr
    exact List.getElem?_set_self hlt
  · exact List.getElem?_set_ne hr

/-- The slots after a flush. -/
theorem slots_flush {reg : ℕ} {fr' : JitFrame} (hsmall : reg + m.length ≤ 256)
    (h : flushSlots reg m fr = some fr') (r : ℕ) :
    fr'.slots[r]? = if r < reg then fr.slots[r]? else m[r - reg]?.join.or fr.slots[r]? := by
  induction m generalizing reg fr with
  | nil =>
    cases h
    simp
  | cons value values ih =>
    rw [List.length_cons] at hsmall
    cases value with
    | none =>
      rw [ih (by omega) h]
      by_cases hlt : r < reg
      · rw [if_pos (by omega), if_pos hlt]
      · rw [if_neg hlt]
        obtain ⟨k, rfl⟩ := Nat.exists_eq_add_of_le (not_lt.mp hlt)
        rw [Nat.add_sub_cancel_left]
        cases k with
        | zero => simp
        | succ k =>
          rw [if_neg (by omega), List.getElem?_cons_succ]
          congr 3
          omega
    | some v =>
      have hslot : (UInt8.ofNat reg).toNat = reg := by
        rw [UInt8.toNat_ofNat']
        omega
      obtain ⟨mid, hstore, hflush⟩ := Option.bind_eq_some_iff.mp h
      rw [ih (by omega) hflush, slots_store hstore, hslot]
      by_cases hlt : r < reg
      · rw [if_pos (by omega), if_pos hlt, if_neg (by omega)]
      · rw [if_neg hlt]
        obtain ⟨k, rfl⟩ := Nat.exists_eq_add_of_le (not_lt.mp hlt)
        rw [Nat.add_sub_cancel_left]
        cases k with
        | zero => simp
        | succ k =>
          rw [if_neg (by omega), if_neg (by omega), List.getElem?_cons_succ]
          congr 3
          omega

/-- A flush puts the registers into the slots. -/
theorem Mirrors.flush (h : Mirrors kept regs m fr) :
    ∃ fr', flushSlots 0 m fr = some fr' ∧ fr.SlotsOnly fr' ∧ Mirrors kept regs m fr' ∧
      (∀ r, fr'.slots[r]? = view m fr r) ∧ Mirrors kept regs (RegisterMap.new kept) fr' := by
  have hroom : 0 + m.length ≤ fr.slots.length := by
    rw [Nat.zero_add, h.length]
    exact h.room
  have hsmall : 0 + m.length ≤ 256 := by
    rw [Nat.zero_add, h.length]
    exact h.small
  obtain ⟨fr', hflush⟩ := flushSlots_fits hroom hsmall
  have honly := slotsOnly_of_flush hflush
  have hview : ∀ r, fr'.slots[r]? = view m fr r := by
    intro r
    rw [slots_flush hsmall hflush, if_neg (Nat.not_lt_zero r), Nat.sub_zero]
    rfl
  have hroom' : kept ≤ fr'.slots.length := by
    rw [honly.length]
    exact h.room
  refine ⟨fr', hflush, honly, ⟨h.length, h.small, hroom', ?_⟩, hview,
    ⟨List.length_replicate, h.small, hroom', ?_⟩⟩
  · intro r v hv
    obtain ⟨i, hflat, hi⟩ := h.integer r v hv
    refine ⟨i, hflat, ?_⟩
    unfold view
    rw [hview, hi]
    unfold view at hi
    cases hm : m[r]?.join with
    | none => rfl
    | some j =>
      rw [hm] at hi
      exact hi
  · intro r v hv
    obtain ⟨i, hflat, hi⟩ := h.integer r v hv
    exact ⟨i, hflat, by rw [view_new, hview, hi]⟩

/-- Without anything to flush the slots hold the registers. -/
theorem Mirrors.of_flushed (h : Mirrors kept regs m fr) (hflushed : Flushed m fr) :
    Mirrors kept regs (RegisterMap.new kept) fr := by
  refine ⟨List.length_replicate, h.small, h.room, ?_⟩
  intro r v hv
  obtain ⟨i, hflat, hi⟩ := h.integer r v hv
  refine ⟨i, hflat, ?_⟩
  rw [view_new]
  unfold view at hi
  cases hm : m[r]?.join with
  | none =>
    rw [hm] at hi
    exact hi
  | some j =>
    rw [hm] at hi
    cases hi
    exact hflushed r i hm

/-! ## Copies -/

/-- The slots after the arguments of a call are copied, from slots that the copies leave alone. -/
theorem slots_copy {dst : UInt8} {k argc : ℕ} (hroom : dst.toNat + k + argc ≤ fr.slots.length)
    (hsmall : dst.toNat + k + argc ≤ 256) :
    ∃ fr', copySlots dst k argc fr = some fr' ∧ fr.SlotsOnly fr' ∧
      ∀ r, fr'.slots[r]? = fr.slots[if k ≤ r ∧ r < k + argc then dst.toNat + r else r]? := by
  induction argc generalizing k fr with
  | zero =>
    refine ⟨fr, rfl, .refl fr, fun r => ?_⟩
    rw [if_neg (by omega)]
  | succ argc ih =>
    have hsrc : (dst.toUInt32 + UInt32.ofNat k).toNat = dst.toNat + k := by
      rw [UInt32.toNat_add, UInt8.toNat_toUInt32, UInt32.toNat_ofNat']
      omega
    have hdst : (UInt32.ofNat k).toNat = k := by
      rw [UInt32.toNat_ofNat']
      omega
    have hlt : dst.toNat + k < fr.slots.length := by omega
    have hk : k < fr.slots.length := by omega
    obtain ⟨mid, hstore⟩ := JitFrame.exists_store fr.slots[dst.toNat + k] hk
    have honly := JitFrame.slotsOnly_of_store hstore
    have hnext : dst.toNat + (k + 1) + argc ≤ mid.slots.length := by
      rw [honly.length]
      omega
    obtain ⟨fr', hcopy, honly', hslots⟩ := ih hnext (by omega)
    refine ⟨fr', ?_, honly.trans honly', fun r => ?_⟩
    · rw [copySlots, hsrc, hdst, List.getElem?_eq_getElem hlt]
      simp only [Option.bind_eq_bind, Option.bind_some, hstore]
      exact hcopy
    · rw [hslots]
      by_cases hr : r = k
      · subst hr
        have hout : ¬(r + 1 ≤ r ∧ r < r + 1 + argc) := by omega
        have hin : r ≤ r ∧ r < r + (argc + 1) := by omega
        rw [if_neg hout, if_pos hin, slots_store hstore, if_pos rfl, List.getElem?_eq_getElem hlt]
      by_cases hin : k + 1 ≤ r ∧ r < k + 1 + argc
      · have hin' : k ≤ r ∧ r < k + (argc + 1) := by omega
        rw [if_pos hin, if_pos hin', slots_store hstore, if_neg (by omega)]
      · have hout : ¬(k ≤ r ∧ r < k + (argc + 1)) := by omega
        rw [if_neg hin, if_neg hout, slots_store hstore, if_neg (Ne.symm hr)]

end

end Jit

end Byteflow
