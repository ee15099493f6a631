import Byteflow.Foundations.Plain
import Byteflow.Foundations.Schedule
import Mathlib.Data.Rat.Cast.Order
import Mathlib.Tactic.Linarith
import Mathlib.Tactic.Ring

/-!
# Token buckets

The rate limit of the spawns and sends of a flow (`scheduler/quota.rs`). A bucket is refilled when
it is asked for a token: by the product of the rate and the time since the reference time, which
moves only when tokens are added. Below 50 ms, or for a product below one, nothing is added, and
the time stays to be counted. So a window of time lets pass what the rate gives for it, a full
bucket, and what was left to be counted at its start (`window_bound`).

Times are nanoseconds. The product is a parameter: that of the code is `product`, in floating point,
and `exactProduct` is the exact one.
-/

namespace Byteflow

structure TokenBucket where
  capacity : Int64
  tokens : Int64
  refillPerSec : Int64
  lastRefill : ℕ
  deriving DecidableEq

namespace TokenBucket

/-- The two readings of the clock in a call: when it measures what has elapsed, and when it sets the
reference time. -/
structure Reading where
  now : ℕ
  stamp : ℕ

/-- A second, in nanoseconds. -/
def second : ℕ := 1000000000

def new (capacity refillPerSec : Int64) (now : ℕ) : TokenBucket :=
  ⟨capacity, capacity, refillPerSec, now⟩

/-- The product of the code: seconds times rate in floating point, and a saturating cast. -/
def product (elapsed : ℕ) (rate : Int64) : Int64 :=
  ((Float.ofNat (elapsed / second) + Float.ofNat (elapsed % second) / Float.ofNat second) *
    rate.toFloat).toInt64

/-- The product as an exact rational, rounded down, with the same cast. -/
def exactProduct (elapsed : ℕ) (rate : Int64) : Int64 :=
  Int64.ofInt
    (max (-0x8000000000000000) (min ((elapsed * rate.toInt) / second) 0x7FFFFFFFFFFFFFFF))

/-- What a refill adds, if it gets to the addition. -/
def added (product : ℕ → Int64 → Int64) (r : Reading) (b : TokenBucket) : Option Int64 :=
  let elapsed := r.now - b.lastRefill
  if elapsed < 50000000 then none
  else
    let add := product elapsed b.refillPerSec
    if 0 < add then some add else none

def refill (product : ℕ → Int64 → Int64) (r : Reading) (b : TokenBucket) : TokenBucket :=
  match b.added product r with
  | none => b
  | some add => { b with tokens := min (b.tokens + add) b.capacity, lastRefill := r.stamp }

/-- A token is consumed, if one was available. -/
def tryConsume (product : ℕ → Int64 → Int64) (r : Reading) (b : TokenBucket) :
    Bool × TokenBucket :=
  let b := b.refill product r
  if b.tokens ≤ 0 then (false, b) else (true, { b with tokens := b.tokens - 1 })

/-- A credit may exceed the capacity, until the next refill. -/
def credit (extra : Int64) (b : TokenBucket) : TokenBucket :=
  if extra ≤ 0 then b else { b with tokens := b.tokens + extra }

/-- The bucket after a sequence of calls. -/
def consumes (product : ℕ → Int64 → Int64) (b : TokenBucket) (rs : List Reading) : TokenBucket :=
  Schedule.run (fun b r => (b.tryConsume product r).2) b rs

/-- The times of the calls that got a token. -/
def passed (product : ℕ → Int64 → Int64) (b : TokenBucket) (rs : List Reading) : List ℕ :=
  Schedule.trace (fun b r => (b.tryConsume product r).2)
    (fun b r => if (b.tryConsume product r).1 then [r.now] else []) b rs

/-- The clock does not run backwards. -/
def Ticks (start : ℕ) : List Reading → Prop
  | [] => True
  | r :: rs => start ≤ r.now ∧ r.now ≤ r.stamp ∧ Ticks r.stamp rs

/-- The sum of a refill. -/
def sum (product : ℕ → Int64 → Int64) (r : Reading) (b : TokenBucket) : List Plain :=
  match b.added product r with
  | none => []
  | some add => [.i64 (b.tokens.toInt + add.toInt)]

variable {b : TokenBucket} {r : Reading} {rs : List Reading}

/-! ## One call -/

theorem refill_of_none {product : ℕ → Int64 → Int64} (h : b.added product r = none) :
    b.refill product r = b := by
  unfold refill
  rw [h]

theorem refill_of_some {product : ℕ → Int64 → Int64} {add : Int64}
    (h : b.added product r = some add) :
    b.refill product r =
      { b with tokens := min (b.tokens + add) b.capacity, lastRefill := r.stamp } := by
  unfold refill
  rw [h]

@[simp] theorem refill_capacity (product : ℕ → Int64 → Int64) :
    (b.refill product r).capacity = b.capacity := by
  unfold refill
  split <;> rfl

@[simp] theorem refill_refillPerSec (product : ℕ → Int64 → Int64) :
    (b.refill product r).refillPerSec = b.refillPerSec := by
  unfold refill
  split <;> rfl

theorem toInt_min (x y : Int64) : (min x y).toInt = min x.toInt y.toInt := by
  have hmin : min x y = if x ≤ y then x else y := rfl
  rw [hmin]
  split_ifs with h
  · rw [Int64.le_iff_toInt_le] at h
    exact (min_eq_left h).symm
  · rw [Int64.le_iff_toInt_le] at h
    exact (min_eq_right (by omega)).symm

/-- The tokens after a refill whose sum fits. -/
theorem tokens_refill {product : ℕ → Int64 → Int64} {add : Int64}
    (h : b.added product r = some add) (hfits : ∀ p ∈ b.sum product r, p.Fits) :
    (b.refill product r).tokens.toInt = min (b.tokens.toInt + add.toInt) b.capacity.toInt := by
  unfold sum at hfits
  rw [h, List.forall_mem_singleton] at hfits
  rw [refill_of_some h, toInt_min, Plain.toInt_add_of_fits hfits]

theorem pos_of_added {product : ℕ → Int64 → Int64} {add : Int64}
    (h : b.added product r = some add) :
    0 < add.toInt ∧ add = product (r.now - b.lastRefill) b.refillPerSec := by
  simp only [added] at h
  split_ifs at h with hshort hpos
  cases h
  rw [Int64.lt_iff_toInt_lt] at hpos
  exact ⟨hpos, rfl⟩

/-- What the bucket holds. -/
def Within (b : TokenBucket) : Prop := 0 ≤ b.tokens.toInt ∧ b.tokens.toInt ≤ b.capacity.toInt

/-- No sum of a refill overflows. -/
def Fits (product : ℕ → Int64 → Int64) (b : TokenBucket) (rs : List Reading) : Prop :=
  Schedule.Guarded (fun b r => (b.tryConsume product r).2)
    (fun b r => ∀ p ∈ b.sum product r, p.Fits) b rs

theorem Within.refill {product : ℕ → Int64 → Int64} (h : Within b)
    (hfits : ∀ p ∈ b.sum product r, p.Fits) : Within (b.refill product r) := by
  cases hadded : b.added product r with
  | none => rwa [refill_of_none hadded]
  | some add =>
    have htokens := tokens_refill hadded hfits
    have hpos := (pos_of_added hadded).1
    obtain ⟨hzero, hcapacity⟩ := h
    unfold Within
    rw [htokens, refill_capacity]
    omega

theorem tryConsume_of_empty {product : ℕ → Int64 → Int64}
    (h : (b.refill product r).tokens ≤ 0) :
    b.tryConsume product r = (false, b.refill product r) := if_pos h

theorem tryConsume_of_pos {product : ℕ → Int64 → Int64}
    (h : ¬(b.refill product r).tokens ≤ 0) :
    b.tryConsume product r =
      (true, { b.refill product r with tokens := (b.refill product r).tokens - 1 }) := if_neg h

/-- What a call leaves of the refilled bucket, and whether it takes a token. -/
theorem tryConsume_cases {product : ℕ → Int64 → Int64} (h : Within (b.refill product r)) :
    (b.tryConsume product r).2.capacity = b.capacity ∧
      (b.tryConsume product r).2.refillPerSec = b.refillPerSec ∧
      (b.tryConsume product r).2.lastRefill = (b.refill product r).lastRefill ∧
      (b.tryConsume product r).2.tokens.toInt + (if (b.tryConsume product r).1 then 1 else 0) =
        (b.refill product r).tokens.toInt ∧ 0 ≤ (b.tryConsume product r).2.tokens.toInt := by
  obtain ⟨hzero, -⟩ := h
  by_cases hempty : (b.refill product r).tokens ≤ 0
  · rw [tryConsume_of_empty hempty]
    exact ⟨refill_capacity product, refill_refillPerSec product, rfl, by simp, hzero⟩
  · rw [tryConsume_of_pos hempty]
    rw [Int64.le_iff_toInt_le, Int64.toInt_zero] at hempty
    have hlt := (b.refill product r).tokens.toInt_lt
    have hsub :
        ((b.refill product r).tokens - 1).toInt = (b.refill product r).tokens.toInt - 1 := by
      refine Plain.toInt_sub_of_fits (y := 1) ⟨?_, ?_⟩
      · show -0x8000000000000000 ≤ (b.refill product r).tokens.toInt - 1
        omega
      · show (b.refill product r).tokens.toInt - 1 ≤ 0x7FFFFFFFFFFFFFFF
        omega
    refine ⟨refill_capacity product, refill_refillPerSec product, rfl, ?_, ?_⟩
    · simp only [hsub, if_true]
      omega
    · show 0 ≤ ((b.refill product r).tokens - 1).toInt
      rw [hsub]
      omega

theorem Within.tryConsume {product : ℕ → Int64 → Int64} (h : Within b)
    (hfits : ∀ p ∈ b.sum product r, p.Fits) : Within (b.tryConsume product r).2 := by
  have hrefill := h.refill hfits
  obtain ⟨hcapacity, -, -, htokens, hzero⟩ := tryConsume_cases hrefill
  refine ⟨hzero, ?_⟩
  have hle := hrefill.2
  rw [refill_capacity] at hle
  rw [hcapacity]
  split_ifs at htokens <;> omega

/-! ## The exact product -/

theorem toInt_exactProduct {elapsed : ℕ} {rate : Int64} (hrate : 0 ≤ rate.toInt) :
    (exactProduct elapsed rate).toInt =
      min ((elapsed * rate.toInt) / second) 0x7FFFFFFFFFFFFFFF := by
  have hnonneg : 0 ≤ (elapsed * rate.toInt) / (second : ℤ) :=
    Int.ediv_nonneg (mul_nonneg (Int.natCast_nonneg _) hrate) (Int.natCast_nonneg _)
  rw [exactProduct, Int64.toInt_ofInt_of_le] <;> omega

/-- A refill adds no more than what the rate gives for the time since the last one. -/
theorem added_le {add : Int64} (hrate : 0 ≤ b.refillPerSec.toInt)
    (h : b.added exactProduct r = some add) :
    second * add.toInt ≤ (r.now - b.lastRefill : ℕ) * b.refillPerSec.toInt := by
  obtain ⟨-, rfl⟩ := pos_of_added h
  rw [toInt_exactProduct hrate]
  have hsecond : (0 : ℤ) < second := by decide
  have hfloor := Int.mul_ediv_self_le (x := (r.now - b.lastRefill : ℕ) * b.refillPerSec.toInt)
    hsecond.ne'
  refine le_trans (mul_le_mul_of_nonneg_left (min_le_left _ _) hsecond.le) hfloor

/-- What is left to be counted when nothing is added. -/
theorem left_of_none (hrate : 0 ≤ b.refillPerSec.toInt) (h : b.added exactProduct r = none) :
    (r.now - b.lastRefill : ℕ) * b.refillPerSec.toInt <
      max (second : ℤ) (50000000 * b.refillPerSec.toInt) := by
  have hsecond : (0 : ℤ) < second := by decide
  simp only [added] at h
  split_ifs at h with hshort hpos
  · rcases hrate.eq_or_lt with hzero | hrate
    · rw [← hzero, mul_zero]
      exact lt_max_of_lt_left hsecond
    · refine lt_max_of_lt_right (mul_lt_mul_of_pos_right ?_ hrate)
      omega
  · refine lt_max_of_lt_left ?_
    rw [Int64.lt_iff_toInt_lt, toInt_exactProduct hrate, Int64.toInt_zero] at hpos
    have hfloor : (r.now - b.lastRefill : ℕ) * b.refillPerSec.toInt / (second : ℤ) < 1 := by omega
    rwa [Int.ediv_lt_iff_lt_mul hsecond, one_mul] at hfloor

/-! ## Windows -/

/-- What the bucket may let pass until `e`, in tokens by nanoseconds of a second. -/
def potential (e : ℕ) (b : TokenBucket) : ℤ :=
  second * b.tokens.toInt + (e - b.lastRefill : ℕ) * b.refillPerSec.toInt

theorem passed_cons (product : ℕ → Int64 → Int64) (b : TokenBucket) (r : Reading)
    (rs : List Reading) :
    b.passed product (r :: rs) = (if (b.tryConsume product r).1 then [r.now] else []) ++
      (b.tryConsume product r).2.passed product rs := rfl

theorem le_of_mem_passed {product : ℕ → Int64 → Int64} {start : ℕ} (h : Ticks start rs) {t : ℕ}
    (ht : t ∈ b.passed product rs) : start ≤ t := by
  induction rs generalizing b start with
  | nil => exact absurd ht List.not_mem_nil
  | cons r rs ih =>
    obtain ⟨hnow, hstamp, hrs⟩ := h
    rw [passed_cons] at ht
    rcases List.mem_append.mp ht with ht | ht
    · split_ifs at ht
      · rwa [List.mem_singleton.mp ht]
      · exact absurd ht List.not_mem_nil
    · exact (hnow.trans hstamp).trans (ih hrs ht)

/-- A refill does not raise the potential. -/
theorem potential_refill {e : ℕ} (hrate : 0 ≤ b.refillPerSec.toInt)
    (hnow : r.now ≤ e) (hlast : b.lastRefill ≤ r.now) (hstamp : r.now ≤ r.stamp)
    (hfits : ∀ p ∈ b.sum exactProduct r, p.Fits) :
    (b.refill exactProduct r).potential e ≤ b.potential e := by
  cases hadded : b.added exactProduct r with
  | none => rw [refill_of_none hadded]
  | some add =>
    have htokens := tokens_refill hadded hfits
    have hle := added_le hrate hadded
    have hlast' : (b.refill exactProduct r).lastRefill = r.stamp := by rw [refill_of_some hadded]
    have hspan : ((e - r.stamp : ℕ) : ℤ) + (r.now - b.lastRefill : ℕ) ≤ (e - b.lastRefill : ℕ) := by
      omega
    have hspan := mul_le_mul_of_nonneg_right hspan hrate
    have hsecond : (0 : ℤ) < second := by decide
    have hmin := mul_le_mul_of_nonneg_left
      (min_le_left (b.tokens.toInt + add.toInt) b.capacity.toInt) hsecond.le
    unfold potential
    rw [htokens, hlast', refill_refillPerSec]
    linarith [add_mul ((e - r.stamp : ℕ) : ℤ) (r.now - b.lastRefill : ℕ) b.refillPerSec.toInt,
      mul_add (second : ℤ) b.tokens.toInt add.toInt]

/-- What has passed until `e` is paid by the potential after the first refill. -/
theorem countP_passed_cons {e : ℕ} (h : Within (b.refill exactProduct r))
    (ih : second * (((b.tryConsume exactProduct r).2.passed exactProduct rs).countP (· ≤ e) : ℤ) ≤
      (b.tryConsume exactProduct r).2.potential e) :
    second * ((b.passed exactProduct (r :: rs)).countP (· ≤ e) : ℤ) ≤
      (b.refill exactProduct r).potential e := by
  obtain ⟨-, hrate, hlast, htokens, -⟩ := tryConsume_cases h
  have hfirst : ((if (b.tryConsume exactProduct r).1 then [r.now] else []).countP (· ≤ e) : ℤ) ≤
      if (b.tryConsume exactProduct r).1 then 1 else 0 := by
    split_ifs
    · exact_mod_cast List.countP_le_length
    · rfl
  unfold potential at ih ⊢
  rw [hlast, hrate] at ih
  rw [passed_cons, List.countP_append, ← htokens, refill_refillPerSec]
  have hsecond : (0 : ℤ) < second := by decide
  have hfirst := mul_le_mul_of_nonneg_left hfirst hsecond.le
  push_cast
  linarith [mul_add (second : ℤ)
    ((if (b.tryConsume exactProduct r).1 then [r.now] else []).countP (· ≤ e) : ℤ)
    (((b.tryConsume exactProduct r).2.passed exactProduct rs).countP (· ≤ e) : ℤ),
    mul_add (second : ℤ) (b.tryConsume exactProduct r).2.tokens.toInt
      (if (b.tryConsume exactProduct r).1 then 1 else 0)]

theorem Ticks.after (h : Ticks b.lastRefill (r :: rs)) {product : ℕ → Int64 → Int64}
    (hwithin : Within (b.refill product r)) :
    ∃ start, (b.tryConsume product r).2.lastRefill ≤ start ∧ Ticks start rs := by
  obtain ⟨hnow, hstamp, hrs⟩ := h
  refine ⟨r.stamp, ?_, hrs⟩
  rw [(tryConsume_cases hwithin).2.2.1]
  unfold refill
  split
  · exact hnow.trans hstamp
  · exact le_rfl

theorem Ticks.mono {start start' : ℕ} (h : Ticks start rs) (hle : start' ≤ start) :
    Ticks start' rs := by
  cases rs with
  | nil => trivial
  | cons r rs => exact ⟨hle.trans h.1, h.2⟩

theorem Within.potential_nonneg (h : Within b) (hrate : 0 ≤ b.refillPerSec.toInt) (e : ℕ) :
    0 ≤ b.potential e :=
  add_nonneg (mul_nonneg (Int.natCast_nonneg _) h.1) (mul_nonneg (Int.natCast_nonneg _) hrate)

/-- **What passes until `e`** is paid by the potential. -/
theorem countP_passed_le {e : ℕ} (hwithin : Within b) (hrate : 0 ≤ b.refillPerSec.toInt)
    (hticks : Ticks b.lastRefill rs) (hfits : Fits exactProduct b rs) :
    second * ((b.passed exactProduct rs).countP (· ≤ e) : ℤ) ≤ b.potential e := by
  induction rs generalizing b with
  | nil => exact (mul_zero (second : ℤ)).trans_le (hwithin.potential_nonneg hrate e)
  | cons r rs ih =>
    obtain ⟨hsum, hfits⟩ := hfits
    have hrefill := hwithin.refill hsum
    obtain ⟨-, hrate', -, -, -⟩ := tryConsume_cases hrefill
    obtain ⟨start, hstart, hrs⟩ := hticks.after hrefill
    have hrest := ih (hwithin.tryConsume hsum) (by rwa [hrate']) (hrs.mono hstart) hfits
    rcases Nat.lt_or_ge e r.now with hlate | hnow
    · have hnone : (b.passed exactProduct (r :: rs)).countP (· ≤ e) = 0 := by
        refine List.countP_eq_zero.mpr fun t ht => ?_
        have hfrom : Ticks r.now (r :: rs) := ⟨le_rfl, hticks.2⟩
        have hle := le_of_mem_passed hfrom ht
        simp only [decide_eq_true_eq]
        omega
      rw [hnone]
      exact (mul_zero (second : ℤ)).trans_le (hwithin.potential_nonneg hrate e)
    · exact (countP_passed_cons hrefill hrest).trans
        (potential_refill hrate hnow hticks.1 hticks.2.1 hsum)

/-- **A window.** It lets pass a full bucket, what the rate gives for it, and what was left to be
counted when it began. -/
theorem countP_window {s w : ℕ} (hwithin : Within b) (hrate : 0 ≤ b.refillPerSec.toInt)
    (hticks : Ticks b.lastRefill rs) (hfits : Fits exactProduct b rs) :
    second * ((b.passed exactProduct rs).countP (fun t => s ≤ t ∧ t ≤ s + w) : ℤ) <
      second * b.capacity.toInt + w * b.refillPerSec.toInt +
        max (second : ℤ) (50000000 * b.refillPerSec.toInt) := by
  have hsecond : (0 : ℤ) < second := by decide
  induction rs generalizing b with
  | nil =>
    have hcapacity := mul_nonneg hsecond.le (hwithin.1.trans hwithin.2)
    have hgiven := mul_nonneg (Int.natCast_nonneg w) hrate
    have hleft := lt_max_of_lt_left (c := 50000000 * b.refillPerSec.toInt) hsecond
    refine (mul_zero (second : ℤ)).trans_lt ?_
    omega
  | cons r rs ih =>
    have hall := countP_passed_le (e := s + w) hwithin hrate hticks hfits
    obtain ⟨hsum, hfits⟩ := hfits
    have hrefill := hwithin.refill hsum
    have hnext := hwithin.tryConsume hsum
    obtain ⟨hcapacity, hrate', -, -, -⟩ := tryConsume_cases hrefill
    obtain ⟨start, hstart, hrs⟩ := hticks.after hrefill
    have hticks' := hrs.mono hstart
    rcases Nat.lt_or_ge r.now s with hearly | hnow
    · -- the call comes before the window
      have hskip : (b.passed exactProduct (r :: rs)).countP (fun t => s ≤ t ∧ t ≤ s + w) =
          ((b.tryConsume exactProduct r).2.passed exactProduct rs).countP
            (fun t => s ≤ t ∧ t ≤ s + w) := by
        rw [passed_cons, List.countP_append]
        split_ifs
        · simp [Nat.not_le.mpr hearly]
        · simp
      rw [hskip, ← hcapacity, ← hrate']
      exact ih hnext (by rwa [hrate']) hticks' hfits
    · have hmono : (b.passed exactProduct (r :: rs)).countP (fun t => s ≤ t ∧ t ≤ s + w) ≤
          (b.passed exactProduct (r :: rs)).countP (· ≤ s + w) :=
        List.countP_mono_left fun t _ ht => by simp_all
      have hmono : second * ((b.passed exactProduct (r :: rs)).countP
          (fun t => s ≤ t ∧ t ≤ s + w) : ℤ) ≤
          second * ((b.passed exactProduct (r :: rs)).countP (· ≤ s + w) : ℤ) :=
        mul_le_mul_of_nonneg_left (by exact_mod_cast hmono) hsecond.le
      cases hadded : b.added exactProduct r with
      | none =>
        have hleft := left_of_none hrate hadded
        have hspan : ((s + w - b.lastRefill : ℕ) : ℤ) ≤ w + (r.now - b.lastRefill : ℕ) := by omega
        have hspan := mul_le_mul_of_nonneg_right hspan hrate
        have htokens := mul_le_mul_of_nonneg_left hwithin.2 hsecond.le
        unfold potential at hall
        linarith [add_mul (w : ℤ) (r.now - b.lastRefill : ℕ) b.refillPerSec.toInt]
      | some add =>
        have hrest := countP_passed_le (e := s + w) hnext (by rwa [hrate']) hticks' hfits
        have hpaid := countP_passed_cons hrefill hrest
        have hlast : (b.refill exactProduct r).lastRefill = r.stamp := by rw [refill_of_some hadded]
        have hspan : ((s + w - r.stamp : ℕ) : ℤ) ≤ w := by
          have := hticks.2.1
          omega
        have hspan := mul_le_mul_of_nonneg_right hspan hrate
        have htokens := mul_le_mul_of_nonneg_left hrefill.2 hsecond.le
        have hleft := lt_max_of_lt_left (c := 50000000 * b.refillPerSec.toInt) hsecond
        unfold potential at hpaid
        rw [refill_capacity] at htokens
        rw [hlast, refill_refillPerSec] at hpaid
        linarith

theorem within_new {capacity rate : Int64} (h : 0 ≤ capacity.toInt) (start : ℕ) :
    Within (new capacity rate start) := ⟨h, le_rfl⟩

/-- **Rate.** The bucket never holds a negative number of tokens nor more than its capacity, and no
window of time lets pass as much as its capacity, what the rate gives for the window, and the larger
of one token and what the rate gives for 50 ms. -/
theorem window_bound {capacity rate : Int64} (hcapacity : 0 ≤ capacity.toInt)
    (hrate : 0 ≤ rate.toInt) {start : ℕ} (hticks : Ticks start rs)
    (hfits : Fits exactProduct (new capacity rate start) rs) :
    (∀ rs', rs' <+: rs → Within ((new capacity rate start).consumes exactProduct rs') ∧
      ∀ r, rs' ++ [r] <+: rs →
        Within (((new capacity rate start).consumes exactProduct rs').refill exactProduct r)) ∧
      ∀ s w : ℕ, (((new capacity rate start).passed exactProduct rs).countP
          (fun t => s ≤ t ∧ t ≤ s + w) : ℚ) <
        capacity.toInt + rate.toInt * (w / second : ℚ) + max 1 (rate.toInt / 20 : ℚ) := by
  have hwithin : Within (new capacity rate start) := within_new hcapacity start
  refine ⟨fun rs' hle => ?_, fun s w => ?_⟩
  · have hkept : Within ((new capacity rate start).consumes exactProduct rs') := by
      obtain ⟨rest, rfl⟩ := hle
      exact (Schedule.Guarded.append.mp hfits).1.invariant
        (fun b r hsum h => h.tryConsume hsum) hwithin
    refine ⟨hkept, fun r hle => hkept.refill ?_⟩
    obtain ⟨rest, rfl⟩ := hle
    have hfits := (Schedule.Guarded.append.mp hfits).1
    exact (Schedule.Guarded.append.mp hfits).2.1
  · have hwindow := countP_window (s := s) (w := w) hwithin hrate hticks hfits
    have hwindow : (second : ℚ) * (((new capacity rate start).passed exactProduct rs).countP
        (fun t => s ≤ t ∧ t ≤ s + w) : ℚ) <
        second * capacity.toInt + w * rate.toInt + max (second : ℚ) (50000000 * rate.toInt) := by
      exact_mod_cast hwindow
    have hsecond : (second : ℚ) = 1000000000 := by norm_num [second]
    have hmax : max (second : ℚ) (50000000 * rate.toInt) =
        second * max 1 (rate.toInt / 20 : ℚ) := by
      rw [hsecond, mul_max_of_nonneg _ _ (by norm_num)]
      congr 1
      · ring
      · ring
    rw [hmax, hsecond] at hwindow
    rw [hsecond]
    linarith

/-- A full bucket of ten tokens at one per second: ten calls just before a second has passed, and
one when it has. -/
def lateCalls : List Reading :=
  List.replicate 10 ⟨990000000, 990000000⟩ ++ [⟨1000000000, 1000000000⟩]

theorem window_bound_lateCalls :
    (∀ rs', rs' <+: lateCalls → Within ((new 10 1 0).consumes exactProduct rs') ∧
      ∀ r, rs' ++ [r] <+: lateCalls →
        Within (((new 10 1 0).consumes exactProduct rs').refill exactProduct r)) ∧
      ∀ s w : ℕ, (((new 10 1 0).passed exactProduct lateCalls).countP
          (fun t => s ≤ t ∧ t ≤ s + w) : ℚ) <
        (10 : Int64).toInt + (1 : Int64).toInt * (w / second : ℚ) +
          max 1 ((1 : Int64).toInt / 20 : ℚ) := by
  have hticks : Ticks 0 lateCalls := by simp [lateCalls, List.replicate, Ticks]
  have hfits : Fits exactProduct (new 10 1 0) lateCalls := by
    unfold Fits
    decide
  exact window_bound (by decide) (by decide) hticks hfits

/-- All eleven get a token within 10 ms, for which ten and a hundredth are due. -/
theorem window_exceeded :
    Ticks 0 lateCalls ∧ Fits exactProduct (new 10 1 0) lateCalls ∧
      ¬((((new 10 1 0).passed exactProduct lateCalls).countP
          (fun t => 990000000 ≤ t ∧ t ≤ 990000000 + 10000000) : ℚ) ≤
        (10 : Int64).toInt + (1 : Int64).toInt * (10000000 / second : ℚ)) := by
  have hfits : Fits exactProduct (new 10 1 0) lateCalls := by
    unfold Fits
    decide
  have hcount : ((new 10 1 0).passed exactProduct lateCalls).countP
      (fun t => 990000000 ≤ t ∧ t ≤ 990000000 + 10000000) = 11 := by decide
  have hten : (10 : Int64).toInt = 10 := rfl
  have hone : (1 : Int64).toInt = 1 := rfl
  refine ⟨by simp [lateCalls, List.replicate, Ticks], hfits, ?_⟩
  rw [hcount, hten, hone]
  norm_num [second]

end TokenBucket

end Byteflow
