import Byteflow.Scheduler.Quota
import Byteflow.Scheduler.Quota.Bucket

/-!
# The arithmetic of the quotas

All calls on the quota of a flow, with its two buckets. `operations` lists the sums and differences
that a call computes, by plain operators or by wrapping atomic ones. They fit their types, and no
top-up, credit or refill lowers a counter, exactly as long as each operand is within the distance of
the counter to the end of its type (`safe_iff_bounded`).
-/

namespace Byteflow

/-- A `FlowQuota` with its buckets. -/
structure FullQuota where
  flow : FlowQuota
  spawnBucket : TokenBucket
  sendBucket : TokenBucket

/-- The bursts and rates of a `QuotaConfig`. -/
structure BucketConfig where
  spawnBurst : Int64
  spawnPerSec : Int64
  sendBurst : Int64
  sendPerSec : Int64

namespace FullQuota

open TokenBucket (Reading)

def fromConfig (cfg : QuotaConfig) (buckets : BucketConfig) (now : ℕ) : FullQuota :=
  ⟨.fromConfig cfg, .new buckets.spawnBurst buckets.spawnPerSec now,
    .new buckets.sendBurst buckets.sendPerSec now⟩

/-- A call on the quota. -/
inductive Call
  | chargeCpu (cost : Int64)
  | alloc (bytes : ℕ)
  | free (bytes : ℕ)
  | checkSpawn (r : Reading)
  | checkSend (r : Reading)
  | topUpCpu (extra : Int64)
  | topUpMem (extra : ℕ)
  | topUpSend (extra : Int64)

/-- A top-up is not negative. -/
def Call.NonNegative : Call → Prop
  | topUpCpu extra | topUpSend extra => 0 ≤ extra.toInt
  | _ => True

variable (product : ℕ → Int64 → Int64)

def apply (q : FullQuota) : Call → FullQuota
  | .chargeCpu cost => { q with flow := (q.flow.chargeCpu cost).toOption.getD q.flow }
  | .alloc bytes => { q with flow := (q.flow.alloc bytes).toOption.getD q.flow }
  | .free bytes => { q with flow := q.flow.free bytes }
  | .checkSpawn r => { q with spawnBucket := (q.spawnBucket.tryConsume product r).2 }
  | .checkSend r => { q with sendBucket := (q.sendBucket.tryConsume product r).2 }
  | .topUpCpu extra => { q with flow := q.flow.topUpCpu extra }
  | .topUpMem extra => { q with flow := q.flow.topUpMem extra }
  | .topUpSend extra => { q with sendBucket := q.sendBucket.credit extra }

/-- What a bucket computes when it is asked for a token. -/
def consumption (b : TokenBucket) (r : Reading) : List Plain :=
  b.sum product r ++
    if (b.refill product r).tokens ≤ 0 then [] else [.i64 ((b.refill product r).tokens.toInt - 1)]

/-- The operations of a call. Those of `alloc` and `free` saturate. -/
def operations (q : FullQuota) : Call → List Plain
  | .chargeCpu cost =>
    -- `fetch_sub`, the same difference again, and `fetch_add` if it is negative
    let left := q.flow.cpuBudget - cost
    .i64 (q.flow.cpuBudget.toInt - cost.toInt) :: .i64 (q.flow.cpuBudget.toInt - cost.toInt) ::
      if left < 0 then [.i64 (left.toInt + cost.toInt)] else []
  | .alloc _ | .free _ => []
  | .checkSpawn r => consumption product q.spawnBucket r
  | .checkSend r => consumption product q.sendBucket r
  | .topUpCpu extra => [.i64 (q.flow.cpuBudget.toInt + extra.toInt)]
  | .topUpMem extra => [.u64 (q.flow.memLimit + extra)]
  | .topUpSend extra => if extra ≤ 0 then [] else [.i64 (q.sendBucket.tokens.toInt + extra.toInt)]

/-- A refill does not lower the number of tokens, but to the capacity. -/
def Refilled (b : TokenBucket) (r : Reading) : Prop :=
  b.tokens.toInt ≤ (b.refill product r).tokens.toInt ∨
    (b.refill product r).tokens = b.capacity

/-- A top-up, a credit or a refill does not lower what it is for. -/
def NotLowered (q : FullQuota) : Call → Prop
  | .checkSpawn r => Refilled product q.spawnBucket r
  | .checkSend r => Refilled product q.sendBucket r
  | .topUpCpu extra => q.flow.cpuBudget.toInt ≤ (q.flow.topUpCpu extra).cpuBudget.toInt
  | .topUpMem extra => q.flow.memLimit ≤ (q.flow.topUpMem extra).memLimit
  | .topUpSend extra => q.sendBucket.tokens.toInt ≤ (q.sendBucket.credit extra).tokens.toInt
  | _ => True

/-- The arithmetic of a call is safe. -/
def Safe (q : FullQuota) (c : Call) : Prop :=
  (∀ p ∈ q.operations product c, p.Fits) ∧ q.NotLowered product c

/-- What a bucket adds is within its distance to the end of the type. -/
def RoomFor (b : TokenBucket) (r : Reading) : Prop :=
  ∀ add, b.added product r = some add → add.toInt ≤ 0x7FFFFFFFFFFFFFFF - b.tokens.toInt

/-- The operands of a call are within the distance of the counter to the end of its type. -/
def Bounded (q : FullQuota) : Call → Prop
  | .chargeCpu cost =>
    q.flow.cpuBudget.toInt - 0x7FFFFFFFFFFFFFFF ≤ cost.toInt ∧
      cost.toInt ≤ q.flow.cpuBudget.toInt + 0x8000000000000000
  | .alloc _ | .free _ => True
  | .checkSpawn r => RoomFor product q.spawnBucket r
  | .checkSend r => RoomFor product q.sendBucket r
  | .topUpCpu extra => extra.toInt ≤ 0x7FFFFFFFFFFFFFFF - q.flow.cpuBudget.toInt
  | .topUpMem extra => (extra : ℤ) ≤ 0xFFFFFFFFFFFFFFFF - q.flow.memLimit
  | .topUpSend extra => extra.toInt ≤ 0x7FFFFFFFFFFFFFFF - q.sendBucket.tokens.toInt

variable {product} {q : FullQuota} {c : Call} {b : TokenBucket} {r : Reading}

/-! ## One call -/

theorem fits_i64_iff (v : ℤ) :
    (Plain.i64 v).Fits ↔ -0x8000000000000000 ≤ v ∧ v ≤ 0x7FFFFFFFFFFFFFFF := Iff.rfl

/-- A sum with what is not negative is bounded above only. -/
theorem fits_add_iff (x y : Int64) (hy : 0 ≤ y.toInt) :
    (Plain.i64 (x.toInt + y.toInt)).Fits ↔ y.toInt ≤ 0x7FFFFFFFFFFFFFFF - x.toInt := by
  have hlow := x.le_toInt
  rw [fits_i64_iff]
  omega

theorem fits_sum_iff : (∀ p ∈ b.sum product r, p.Fits) ↔ RoomFor product b r := by
  unfold TokenBucket.sum RoomFor
  cases hadded : b.added product r with
  | none => simp
  | some add =>
    have hpos := (TokenBucket.pos_of_added hadded).1
    simp only [List.forall_mem_singleton, Option.some.injEq, forall_eq']
    exact fits_add_iff _ _ hpos.le

theorem fits_consumption_iff :
    (∀ p ∈ consumption product b r, p.Fits) ↔ RoomFor product b r := by
  unfold consumption
  rw [List.forall_mem_append, fits_sum_iff]
  refine and_iff_left ?_
  have hlt := (b.refill product r).tokens.toInt_lt
  split_ifs with hempty
  · exact fun _ h => absurd h List.not_mem_nil
  · rw [Int64.le_iff_toInt_le, Int64.toInt_zero] at hempty
    rw [List.forall_mem_singleton, fits_i64_iff]
    omega

theorem refilled_of_roomFor (h : RoomFor product b r) : Refilled product b r := by
  cases hadded : b.added product r with
  | none =>
    refine .inl ?_
    rw [TokenBucket.refill_of_none hadded]
  | some add =>
    have htokens := TokenBucket.tokens_refill hadded (fits_sum_iff.mpr h)
    have hpos := (TokenBucket.pos_of_added hadded).1
    rcases le_total (b.tokens.toInt + add.toInt) b.capacity.toInt with hle | hle
    · refine .inl ?_
      rw [htokens, min_eq_left hle]
      omega
    · refine .inr (Int64.toInt_inj.mp ?_)
      rw [htokens, min_eq_right hle]

/-- A charge that fits gives back exactly what it took, if it fails. -/
theorem fits_charge_iff (cost : Int64) :
    (∀ p ∈ q.operations product (.chargeCpu cost), p.Fits) ↔
      q.Bounded product (.chargeCpu cost) := by
  have hhigh := q.flow.cpuBudget.toInt_lt
  have hlow := q.flow.cpuBudget.le_toInt
  have hbounds : (Plain.i64 (q.flow.cpuBudget.toInt - cost.toInt)).Fits ↔
      q.Bounded product (.chargeCpu cost) := by
    rw [fits_i64_iff]
    unfold Bounded
    dsimp only
    omega
  simp only [operations, List.forall_mem_cons, ← hbounds]
  refine ⟨fun h => h.1, fun h => ⟨h, h, ?_⟩⟩
  split_ifs
  · rw [List.forall_mem_singleton, Plain.toInt_sub_of_fits h, fits_i64_iff]
    omega
  · exact fun _ h => absurd h List.not_mem_nil

/-- **One call.** -/
theorem safe_call_iff (hc : c.NonNegative) : q.Safe product c ↔ q.Bounded product c := by
  unfold Safe
  cases c with
  | chargeCpu cost => exact (and_iff_left trivial).trans (fits_charge_iff cost)
  | alloc bytes | free bytes =>
    exact iff_of_true ⟨fun _ h => absurd h List.not_mem_nil, trivial⟩ trivial
  | checkSpawn r | checkSend r =>
    exact (and_congr_left fun _ => fits_consumption_iff).trans
      (and_iff_left_of_imp refilled_of_roomFor)
  | topUpCpu extra =>
    have hfits := fits_add_iff q.flow.cpuBudget extra hc
    have hpos : 0 ≤ extra.toInt := hc
    simp only [operations, List.forall_mem_singleton, hfits]
    refine and_iff_left_of_imp fun h => ?_
    show q.flow.cpuBudget.toInt ≤ (q.flow.cpuBudget + extra).toInt
    rw [Plain.toInt_add_of_fits (hfits.mpr h)]
    omega
  | topUpMem extra =>
    have hfits : (Plain.u64 (q.flow.memLimit + extra)).Fits ↔
        (extra : ℤ) ≤ 0xFFFFFFFFFFFFFFFF - q.flow.memLimit := by
      show ((0 : ℤ) ≤ q.flow.memLimit + extra ∧
        (q.flow.memLimit + extra : ℤ) ≤ 0xFFFFFFFFFFFFFFFF) ↔ _
      omega
    simp only [operations, List.forall_mem_singleton, hfits]
    refine and_iff_left_of_imp fun h => ?_
    show q.flow.memLimit ≤ (q.flow.memLimit + extra) % 2 ^ 64
    have h : (extra : ℤ) ≤ 0xFFFFFFFFFFFFFFFF - q.flow.memLimit := h
    rw [Nat.mod_eq_of_lt] <;> omega
  | topUpSend extra =>
    have hfits := fits_add_iff q.sendBucket.tokens extra hc
    have hlt := q.sendBucket.tokens.toInt_lt
    have hpos : 0 ≤ extra.toInt := hc
    have hnone : extra ≤ 0 ↔ extra.toInt ≤ 0 := Int64.le_iff_toInt_le
    unfold operations NotLowered Bounded TokenBucket.credit
    dsimp only
    split_ifs with hzero
    · rw [hnone] at hzero
      exact iff_of_true ⟨fun _ h => absurd h List.not_mem_nil, le_rfl⟩ (by omega)
    · rw [List.forall_mem_singleton, hfits]
      refine and_iff_left_of_imp fun h => ?_
      rw [Plain.toInt_add_of_fits (hfits.mpr h)]
      omega

/-! ## Runs -/

/-- **Quotas.** In every sequence of calls the arithmetic is safe exactly as long as the operands
are within the distance of the counters to the ends of their types. -/
theorem safe_iff_bounded (product : ℕ → Int64 → Int64) (cfg : QuotaConfig) (buckets : BucketConfig)
    (now : ℕ) {cs : List Call} (hcs : ∀ c ∈ cs, c.NonNegative) :
    Schedule.Guarded (apply product) (Safe product) (fromConfig cfg buckets now) cs ↔
      Schedule.Guarded (apply product) (Bounded product) (fromConfig cfg buckets now) cs := by
  generalize fromConfig cfg buckets now = q
  induction cs generalizing q with
  | nil => exact Iff.rfl
  | cons c cs ih =>
    obtain ⟨hc, hcs⟩ := List.forall_mem_cons.mp hcs
    exact and_congr (safe_call_iff hc) (ih hcs _)

/-- The starting point for untrusted modules. -/
def sandbox : QuotaConfig := ⟨50000, 16777216⟩

def sandboxBuckets : BucketConfig := ⟨32, 32, 256, 64⟩

theorem safe_iff_bounded_sandbox :
    Schedule.Guarded (apply TokenBucket.exactProduct) (Safe TokenBucket.exactProduct)
        (fromConfig sandbox sandboxBuckets 0) [.chargeCpu 7, .topUpCpu 1000] ↔
      Schedule.Guarded (apply TokenBucket.exactProduct) (Bounded TokenBucket.exactProduct)
        (fromConfig sandbox sandboxBuckets 0) [.chargeCpu 7, .topUpCpu 1000] := by
  refine safe_iff_bounded TokenBucket.exactProduct sandbox sandboxBuckets 0 ?_
  simp [Call.NonNegative]

/-- A top-up with the greatest number leaves a negative budget. -/
theorem topUp_lowers :
    ((fromConfig sandbox sandboxBuckets 0).flow.topUpCpu Int64.maxValue).cpuBudget < 0 ∧
      ¬Schedule.Guarded (apply TokenBucket.product) (Safe TokenBucket.product)
        (fromConfig sandbox sandboxBuckets 0) [.topUpCpu Int64.maxValue] := by
  have hlowered : ¬(fromConfig sandbox sandboxBuckets 0).flow.cpuBudget.toInt ≤
      ((fromConfig sandbox sandboxBuckets 0).flow.topUpCpu Int64.maxValue).cpuBudget.toInt := by
    decide
  exact ⟨by decide, fun h => hlowered h.1.2⟩

end FullQuota

end Byteflow
