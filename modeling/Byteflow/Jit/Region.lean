import Byteflow.Jit.Trace
import Mathlib.Data.List.Nodup

/-!
# The loop that collects a region

`collect` counts its rounds down, the loop of the source does not: it goes on until its queue is
empty or the region is full. `Collects` is that loop, and `collects_region` says that it ends, with
the blocks that `collect` returns: a start adds two others at most, and only if its block takes from
the total. What the loop keeps is then proved by induction on its rounds.
-/

namespace Byteflow

namespace Jit

/-- From this queue, with these starts seen and so many instructions recorded, the loop ends, and
records these blocks. -/
inductive Collects (chunk : Chunk) :
    List UInt32 → List UInt32 → ℕ → List TraceBlock → Prop
  | done {seen : List UInt32} {total : ℕ} : Collects chunk [] seen total []
  | again {start : UInt32} {queue seen : List UInt32} {total : ℕ} {blocks : List TraceBlock}
      (hseen : start ∈ seen) (h : Collects chunk queue seen total blocks) :
      Collects chunk (start :: queue) seen total blocks
  | full {start : UInt32} {queue seen : List UInt32} {total : ℕ} (hnew : start ∉ seen)
      (hfull : maxTraceLength ≤ total) : Collects chunk (start :: queue) seen total []
  | empty {start : UInt32} {queue seen next : List UInt32} {total : ℕ} {blocks : List TraceBlock}
      (hnew : start ∉ seen) (hroom : total < maxTraceLength)
      (hscan : scan chunk (maxTraceLength - total) start = ([], next))
      (h : Collects chunk (queue ++ next) (start :: seen) total blocks) :
      Collects chunk (start :: queue) seen total blocks
  | block {start : UInt32} {queue seen pcs next : List UInt32} {total : ℕ}
      {blocks : List TraceBlock} (hnew : start ∉ seen) (hroom : total < maxTraceLength)
      (hscan : scan chunk (maxTraceLength - total) start = (pcs, next)) (hpcs : pcs ≠ [])
      (h : Collects chunk (queue ++ next) (start :: seen) (total + pcs.length) blocks) :
      Collects chunk (start :: queue) seen total (⟨start, pcs⟩ :: blocks)

variable {chunk : Chunk}

/-! ## One block -/

/-- A block has its room, and where it goes on has two sides at most; an empty one goes nowhere. -/
structure Scanned (room : ℕ) (pcs next : List UInt32) : Prop where
  length_le : pcs.length ≤ room
  sides_le : next.length ≤ 2
  empty : pcs = [] → next = []

theorem scanned_scan (room : ℕ) (pc : UInt32) :
    Scanned room (scan chunk room pc).1 (scan chunk room pc).2 := by
  induction room generalizing pc with
  | zero => exact ⟨le_rfl, Nat.zero_le _, fun _ => rfl⟩
  | succ room ih =>
    have hnone : Scanned (room + 1) [] [] := ⟨Nat.zero_le _, Nat.zero_le _, fun _ => rfl⟩
    have hlast (next : List UInt32) (hnext : next.length ≤ 2) : Scanned (room + 1) [pc] next :=
      ⟨Nat.succ_le_succ (Nat.zero_le _), hnext, fun h => by cases h⟩
    have hsides (callee : Option UInt32) : (callee.toList ++ [pc + 1]).length ≤ 2 := by
      cases callee <;> simp
    unfold scan
    cases chunk.code[pc.toNat]? with
    | none => exact hnone
    | some instr =>
      dsimp only
      split_ifs
      · exact hnone
      · exact hlast [] (Nat.zero_le _)
      · split
        · exact hlast [] (Nat.zero_le _)
        · exact hlast _ (Nat.le_succ _)
        · exact hlast _ le_rfl
        · exact hlast _ (hsides _)
        · exact ⟨Nat.succ_le_succ (ih _).length_le, (ih _).sides_le, fun h => by cases h⟩

/-! ## The loop ends -/

/-- The rounds that are left: one for each start in the queue, and two for each instruction that
there is room for. -/
theorem collects_collect {fuel : ℕ} {queue seen : List UInt32} {total : ℕ}
    (h : queue.length + 2 * (maxTraceLength - total) ≤ fuel) :
    Collects chunk queue seen total (collect chunk fuel queue seen total) := by
  induction fuel generalizing queue seen total with
  | zero =>
    cases queue with
    | nil => exact .done
    | cons start queue => simp at h
  | succ fuel ih =>
    cases queue with
    | nil => exact .done
    | cons start queue =>
      rw [List.length_cons] at h
      rw [collect]
      split_ifs with hseen hfull
      · exact .again hseen (ih (by omega))
      · exact .full hseen hfull
      · have hroom : total < maxTraceLength := not_le.mp hfull
        have hscanned := @scanned_scan chunk (maxTraceLength - total) start
        obtain ⟨pcs, next, hscan⟩ : ∃ pcs next,
            scan chunk (maxTraceLength - total) start = (pcs, next) := ⟨_, _, rfl⟩
        rw [hscan] at hscanned ⊢
        have hlength := hscanned.length_le
        have hnext := hscanned.sides_le
        dsimp only at hlength hnext ⊢
        split_ifs with hpcs
        · have hempty := hscanned.empty hpcs
          dsimp only at hempty
          subst hpcs hempty
          refine .empty hseen hroom hscan (ih ?_)
          simp only [List.append_nil]
          omega
        · have hpos : 0 < pcs.length := List.length_pos_iff.mpr hpcs
          refine .block hseen hroom hscan hpcs (ih ?_)
          rw [List.length_append]
          omega

theorem collects_region (chunk : Chunk) (key : TraceKey) :
    Collects chunk [key.entryPc] [] 0 (collectTraceRegion chunk key) :=
  collects_collect (by rw [List.length_singleton]; omega)

/-! ## What the loop keeps -/

namespace Collects

variable {queue seen : List UInt32} {total : ℕ} {blocks : List TraceBlock}

/-- No state of the loop has two rounds to go on with. -/
theorem unique {blocks' : List TraceBlock} (h : Collects chunk queue seen total blocks)
    (h' : Collects chunk queue seen total blocks') : blocks' = blocks := by
  induction h generalizing blocks' with
  | done =>
    cases h'
    rfl
  | again hseen _ ih =>
    cases h' with
    | again _ h' => exact ih h'
    | full hnew _ => exact absurd hseen hnew
    | empty hnew _ _ _ => exact absurd hseen hnew
    | block hnew _ _ _ _ => exact absurd hseen hnew
  | full hnew hfull =>
    cases h' with
    | again hseen _ => exact absurd hseen hnew
    | full _ _ => rfl
    | empty _ hroom _ _ => exact absurd hroom (not_lt.mpr hfull)
    | block _ hroom _ _ _ => exact absurd hroom (not_lt.mpr hfull)
  | empty hnew hroom hscan _ ih =>
    cases h' with
    | again hseen _ => exact absurd hseen hnew
    | full _ hfull => exact absurd hroom (not_lt.mpr hfull)
    | empty _ _ hscan' h' =>
      cases hscan.symm.trans hscan'
      exact ih h'
    | block _ _ hscan' hpcs _ =>
      cases hscan.symm.trans hscan'
      exact absurd rfl hpcs
  | block hnew hroom hscan hpcs _ ih =>
    cases h' with
    | again hseen _ => exact absurd hseen hnew
    | full _ hfull => exact absurd hroom (not_lt.mpr hfull)
    | empty _ _ hscan' _ =>
      cases hscan.symm.trans hscan'
      exact absurd rfl hpcs
    | block _ _ hscan' _ h' =>
      cases hscan.symm.trans hscan'
      rw [ih h']

/-- The blocks take no more than the room that was left. -/
theorem length_le (h : Collects chunk queue seen total blocks) (htotal : total ≤ maxTraceLength) :
    total + (blocks.flatMap (·.pcs)).length ≤ maxTraceLength := by
  induction h with
  | done => simpa using htotal
  | again _ _ ih => exact ih htotal
  | full _ _ => simpa using htotal
  | empty _ _ _ _ ih => exact ih htotal
  | @block start queue seen pcs next total blocks _ hroom hscan _ _ ih =>
    have hscanned := (@scanned_scan chunk (maxTraceLength - total) start).length_le
    rw [hscan] at hscanned
    dsimp only at hscanned
    rw [List.flatMap_cons, List.length_append]
    dsimp only
    have hrest := ih (by omega)
    omega

/-- Every block has a start that was not seen before, and its own. -/
theorem starts (h : Collects chunk queue seen total blocks) :
    (∀ b ∈ blocks, b.startPc ∉ seen) ∧ (blocks.map (·.startPc)).Nodup := by
  induction h with
  | done => exact ⟨fun _ h => absurd h List.not_mem_nil, List.nodup_nil⟩
  | again _ _ ih => exact ih
  | full _ _ => exact ⟨fun _ h => absurd h List.not_mem_nil, List.nodup_nil⟩
  | empty _ _ _ _ ih =>
    exact ⟨fun b hb hseen => ih.1 b hb (List.mem_cons_of_mem _ hseen), ih.2⟩
  | block hnew _ _ _ _ ih =>
    refine ⟨fun b hb => ?_, ?_⟩
    · rcases List.mem_cons.mp hb with rfl | hb
      · exact hnew
      · exact fun hseen => ih.1 b hb (List.mem_cons_of_mem _ hseen)
    · rw [List.map_cons, List.nodup_cons]
      refine ⟨fun hstart => ?_, ih.2⟩
      obtain ⟨b, hb, hsame⟩ := List.mem_map.mp hstart
      exact ih.1 b hb (hsame ▸ List.mem_cons_self)

/-- Every block was scanned from its start. -/
theorem scanned (h : Collects chunk queue seen total blocks) {b : TraceBlock} (hb : b ∈ blocks) :
    ∃ room, (scan chunk room b.startPc).1 = b.pcs ∧ b.pcs ≠ [] := by
  induction h with
  | done => cases hb
  | again _ _ ih => exact ih hb
  | full _ _ => cases hb
  | empty _ _ _ _ ih => exact ih hb
  | block _ _ hscan hpcs _ ih =>
    rcases List.mem_cons.mp hb with rfl | hb
    · exact ⟨_, congrArg Prod.fst hscan, hpcs⟩
    · exact ih hb

end Collects

/-- The program counters of a block are its start and those after it, at instructions that are
recorded. -/
theorem Follows.getElem {pc : UInt32} {pcs : List UInt32} (h : Follows chunk pc pcs) {i : ℕ}
    {p : UInt32} (hp : pcs[i]? = some p) :
    p = pc + UInt32.ofNat i ∧ (∃ instr, chunk.code[p.toNat]? = some instr) ∧
      (chunk.code.length < 2 ^ 32 → p.toNat = pc.toNat + i) := by
  induction pcs generalizing pc i with
  | nil => simp at hp
  | cons q qs ih =>
    obtain ⟨rfl, ⟨instr, hinstr, -⟩, hrest⟩ := h
    cases i with
    | zero =>
      cases hp
      exact ⟨(UInt32.add_zero _).symm, ⟨instr, hinstr⟩, fun _ => rfl⟩
    | succ i =>
      obtain ⟨hpc, hcode, hnat⟩ := ih hrest hp
      refine ⟨?_, hcode, fun hlength => ?_⟩
      · rw [hpc, UInt32.add_assoc, UInt32.ofNat_add, UInt32.add_comm 1]
        rfl
      · rw [hnat hlength, toNat_succ_pc hlength hinstr]
        omega

/-- **Regions are finite and well formed.** -/
theorem region_wellFormed (chunk : Chunk) (key : TraceKey) :
    (∀ blocks, Collects chunk [key.entryPc] [] 0 blocks ↔
      blocks = collectTraceRegion chunk key) ∧
    ((collectTraceRegion chunk key).flatMap (·.pcs)).length ≤ maxTraceLength ∧
    ((collectTraceRegion chunk key).map (·.startPc)).Nodup ∧
    ∀ b ∈ collectTraceRegion chunk key, ∀ (i : ℕ) (p : UInt32), b.pcs[i]? = some p →
      p = b.startPc + UInt32.ofNat i ∧ (∃ instr, chunk.code[p.toNat]? = some instr) ∧
        (chunk.code.length < 2 ^ 32 → p.toNat = b.startPc.toNat + i) := by
  have hcollects := collects_region chunk key
  refine ⟨fun blocks => ⟨hcollects.unique, ?_⟩, ?_, hcollects.starts.2, fun b hb i p hp => ?_⟩
  · rintro rfl
    exact hcollects
  · have htotal := hcollects.length_le (Nat.zero_le _)
    rwa [Nat.zero_add] at htotal
  · exact (follows_of_mem_collect hb).1.getElem hp

end Jit

end Byteflow
