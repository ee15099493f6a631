import Mathlib.Algebra.Order.Ring.Nat
import Mathlib.Data.List.Basic

/-!
# Byte formats

A parser takes bytes from the front of its input. `Parses p bs a` says that `p` reads exactly the
bytes `bs` as `a`, whatever follows them; the round trip of a format is one such fact for each kind
of data, composed by the rules below. `Takes p Q` is the other direction: whatever `p` accepts, it
has taken bytes that `Q` allows for the result. `Steady short p` says that `p` looks at no more than
it takes; so less than what it reads makes it fail by `short` (`Parses.truncated`). Numbers are
little-endian, of a fixed width.
-/

/-- Code that takes bytes from the front of the input, or fails. -/
abbrev Parser (ε : Type) := StateT (List UInt8) (Except ε)

namespace Parser

variable {ε α β : Type}

/-- The next `n` bytes; `short` if there are fewer. -/
def take (short : ε) (n : ℕ) : Parser ε (List UInt8) := fun bs =>
  if bs.length < n then .error short else .ok (bs.take n, bs.drop n)

/-- `p` for each index from `i` on, `n` times. -/
def many (p : ℕ → Parser ε α) : ℕ → ℕ → Parser ε (List α)
  | _, 0 => pure []
  | i, n + 1 => do
    let a ← p i
    let as ← many p (i + 1) n
    return a :: as

/-- The parser reads the bytes as `a`, and leaves what follows. -/
def Parses (p : Parser ε α) (bs : List UInt8) (a : α) : Prop :=
  ∀ rest, p.run (bs ++ rest) = .ok (a, rest)

theorem parses_pure (a : α) : Parses (pure a : Parser ε α) [] a := fun _ => rfl

theorem Parses.bind {p : Parser ε α} {f : α → Parser ε β} {bs bs' : List UInt8} {a : α} {b : β}
    (hp : Parses p bs a) (hf : Parses (f a) bs' b) : Parses (p >>= f) (bs ++ bs') b := by
  intro rest
  rw [StateT.run_bind, List.append_assoc, hp]
  exact hf rest

theorem Parses.map {p : Parser ε α} {bs : List UInt8} {a : α} (hp : Parses p bs a) (f : α → β) :
    Parses (f <$> p) bs (f a) := by
  intro rest
  rw [StateT.run_map, hp]
  rfl

/-- The last step of a parser adds no bytes. -/
theorem Parses.ret {p : Parser ε α} {f : α → Parser ε β} {bs : List UInt8} {a : α} {b : β}
    (hp : Parses p bs a) (hf : f a = pure b) : Parses (p >>= f) bs b := by
  have hb : Parses (f a) [] b := hf ▸ parses_pure b
  have h := hp.bind hb
  rwa [List.append_nil] at h

theorem parses_take (short : ε) (bs : List UInt8) : Parses (take short bs.length) bs bs := by
  intro rest
  have h : ¬(bs ++ rest).length < bs.length := by
    rw [List.length_append]
    omega
  show (if (bs ++ rest).length < bs.length then Except.error short else _) = _
  rw [if_neg h, List.take_left, List.drop_left]

/-- A table: its entries are read in turn. -/
theorem parses_many {p : ℕ → Parser ε α} {write : α → List UInt8} {as : List α} {i : ℕ}
    (h : ∀ a ∈ as, ∀ j, Parses (p j) (write a) a) :
    Parses (many p i as.length) (as.flatMap write) as := by
  induction as generalizing i with
  | nil => exact parses_pure []
  | cons a as ih =>
    have hrest : Parses (many p (i + 1) as.length) (as.flatMap write) as :=
      ih fun b hb => h b (List.mem_cons_of_mem _ hb)
    exact (h a List.mem_cons_self i).bind (hrest.ret rfl)

/-! ## What a parser has taken -/

/-- Whatever the parser accepts, it has taken some bytes from the front of the input, and `Q` holds
of the result and these bytes. -/
def Takes (p : Parser ε α) (Q : α → List UInt8 → Prop) : Prop :=
  ∀ bs a rest, p.run bs = .ok (a, rest) → ∃ taken, bs = taken ++ rest ∧ Q a taken

theorem takes_pure {a : α} {Q : α → List UInt8 → Prop} (h : Q a []) :
    Takes (pure a : Parser ε α) Q := by
  intro bs b rest hrun
  cases hrun
  exact ⟨[], rfl, h⟩

theorem takes_throw (e : ε) (Q : α → List UInt8 → Prop) : Takes (throw e : Parser ε α) Q := by
  intro bs b rest hrun
  cases hrun

theorem Takes.mono {p : Parser ε α} {Q Q' : α → List UInt8 → Prop} (hp : Takes p Q)
    (h : ∀ a taken, Q a taken → Q' a taken) : Takes p Q' := by
  intro bs a rest hrun
  obtain ⟨taken, hbs, hQ⟩ := hp bs a rest hrun
  exact ⟨taken, hbs, h a taken hQ⟩

theorem Takes.bind {p : Parser ε α} {f : α → Parser ε β} {Q : α → List UInt8 → Prop}
    {R : β → List UInt8 → Prop} (hp : Takes p Q)
    (hf : ∀ a taken, Q a taken → Takes (f a) fun b taken' => R b (taken ++ taken')) :
    Takes (p >>= f) R := by
  intro bs b rest hrun
  rw [StateT.run_bind] at hrun
  cases hp' : p.run bs with
  | error e =>
    rw [hp'] at hrun
    cases hrun
  | ok r =>
    obtain ⟨a, mid⟩ := r
    rw [hp'] at hrun
    obtain ⟨taken, hbs, hQ⟩ := hp bs a mid hp'
    obtain ⟨taken', hmid, hR⟩ := hf a taken hQ mid b rest hrun
    exact ⟨taken ++ taken', by rw [hbs, hmid, List.append_assoc], hR⟩

theorem Takes.map {p : Parser ε α} {Q : α → List UInt8 → Prop} (hp : Takes p Q) (f : α → β) :
    Takes (f <$> p) fun b taken => ∃ a, Q a taken ∧ f a = b := by
  rw [map_eq_pure_bind]
  refine hp.bind fun a taken hQ => takes_pure ?_
  rw [List.append_nil]
  exact ⟨a, hQ, rfl⟩

theorem takes_take (short : ε) (n : ℕ) :
    Takes (take short n) fun a taken => taken = a ∧ a.length = n := by
  intro bs a rest hrun
  by_cases hshort : bs.length < n
  · rw [StateT.run, take, if_pos hshort] at hrun
    cases hrun
  · rw [StateT.run, take, if_neg hshort] at hrun
    cases hrun
    exact ⟨bs.take n, (List.take_append_drop n bs).symm, rfl, List.length_take_of_le (by omega)⟩

/-- The entries of a table have taken their bytes in turn. -/
theorem takes_many {p : ℕ → Parser ε α} {Q : α → List UInt8 → Prop} (h : ∀ i, Takes (p i) Q)
    (i n : ℕ) :
    Takes (many p i n) fun as taken =>
      as.length = n ∧ ∃ parts, List.Forall₂ Q as parts ∧ taken = parts.flatten := by
  induction n generalizing i with
  | zero => exact takes_pure ⟨rfl, [], .nil, rfl⟩
  | succ n ih =>
    refine (h i).bind fun a part ha => (ih (i + 1)).bind fun as taken has => takes_pure ?_
    obtain ⟨hlen, parts, hparts, rfl⟩ := has
    exact ⟨by rw [List.length_cons, hlen], part :: parts, .cons ha hparts, by simp⟩

/-! ## Truncated input -/

/-- Bytes that are appended to the input are left over, unless the input was too short. -/
def Steady (short : ε) (p : Parser ε α) : Prop :=
  ∀ bs more,
    (∃ a rest, p.run bs = .ok (a, rest) ∧ p.run (bs ++ more) = .ok (a, rest ++ more)) ∨
    p.run bs = .error short ∨
    ∃ e, p.run bs = .error e ∧ p.run (bs ++ more) = .error e

variable {short : ε}

theorem steady_pure (a : α) : Steady short (pure a : Parser ε α) :=
  fun bs _ => .inl ⟨a, bs, rfl, rfl⟩

theorem steady_throw (e : ε) : Steady short (throw e : Parser ε α) :=
  fun _ _ => .inr (.inr ⟨e, rfl, rfl⟩)

theorem Steady.bind {p : Parser ε α} {f : α → Parser ε β} (hp : Steady short p)
    (hf : ∀ a, Steady short (f a)) : Steady short (p >>= f) := by
  intro bs more
  simp only [StateT.run_bind]
  obtain ⟨a, rest, h, hmore⟩ | h | ⟨e, h, hmore⟩ := hp bs more
  · rw [h, hmore]
    exact hf a rest more
  · rw [h]
    exact .inr (.inl rfl)
  · rw [h, hmore]
    exact .inr (.inr ⟨e, rfl, rfl⟩)

theorem Steady.map {p : Parser ε α} (hp : Steady short p) (f : α → β) :
    Steady short (f <$> p) := by
  rw [map_eq_pure_bind]
  exact hp.bind fun a => steady_pure (f a)

theorem steady_take (short : ε) (n : ℕ) : Steady short (take short n) := by
  intro bs more
  by_cases hshort : bs.length < n
  · exact .inr (.inl (if_pos hshort))
  · have hlong : ¬(bs ++ more).length < n := by
      rw [List.length_append]
      omega
    have hle : n ≤ bs.length := by omega
    refine .inl ⟨bs.take n, bs.drop n, if_neg hshort, (if_neg hlong).trans ?_⟩
    rw [List.take_append_of_le_length hle, List.drop_append_of_le_length hle]

theorem steady_many {p : ℕ → Parser ε α} (h : ∀ i, Steady short (p i)) (i n : ℕ) :
    Steady short (many p i n) := by
  induction n generalizing i with
  | zero => exact steady_pure []
  | succ n ih => exact (h i).bind fun a => (ih (i + 1)).bind fun as => steady_pure (a :: as)

/-- Less than the bytes that the parser reads is too short for it. -/
theorem Parses.truncated {p : Parser ε α} {bs front missing : List UInt8} {a : α}
    (hp : Parses p bs a) (hsteady : Steady short p) (hbs : front ++ missing = bs)
    (hmissing : missing ≠ []) : p.run front = .error short := by
  have hall : p.run (front ++ missing) = .ok (a, []) := by
    have h := hp []
    rwa [List.append_nil, ← hbs] at h
  obtain ⟨b, rest, -, h⟩ | h | ⟨e, -, h⟩ := hsteady front missing
  · -- what is missing would be left over
    rw [hall] at h
    cases rest <;> cases missing
    · exact absurd rfl hmissing
    · cases h
    · exact absurd rfl hmissing
    · cases h
  · exact h
  · rw [hall] at h
    cases h

end Parser

/-! ## Little-endian numbers -/

/-- The `n` lowest bytes of a number, the lowest first. -/
def leBytes : ℕ → ℕ → List UInt8
  | 0, _ => []
  | n + 1, x => UInt8.ofNat x :: leBytes n (x / 256)

def ofLeBytes : List UInt8 → ℕ
  | [] => 0
  | b :: bs => b.toNat + 256 * ofLeBytes bs

@[simp] theorem length_leBytes (n x : ℕ) : (leBytes n x).length = n := by
  induction n generalizing x with
  | zero => rfl
  | succ n ih => simp [leBytes, ih]

/-- A number that fits into `n` bytes comes back. -/
theorem ofLeBytes_leBytes {n x : ℕ} (h : x < 256 ^ n) : ofLeBytes (leBytes n x) = x := by
  induction n generalizing x with
  | zero =>
    have hzero : x = 0 := by simpa using h
    rw [hzero]
    rfl
  | succ n ih =>
    have hdiv : x / 256 < 256 ^ n := by
      rw [pow_succ] at h
      omega
    have hbyte : (UInt8.ofNat x).toNat = x % 256 := rfl
    rw [leBytes, ofLeBytes, ih hdiv, hbyte]
    omega

theorem ofLeBytes_lt (bs : List UInt8) : ofLeBytes bs < 256 ^ bs.length := by
  induction bs with
  | nil => exact Nat.one_pos
  | cons b bs ih =>
    have hb := b.toNat_lt
    rw [ofLeBytes, List.length_cons, pow_succ]
    omega

/-- The bytes of a number come back. -/
theorem leBytes_ofLeBytes (bs : List UInt8) : leBytes bs.length (ofLeBytes bs) = bs := by
  induction bs with
  | nil => rfl
  | cons b bs ih =>
    have hb := b.toNat_lt
    have hlow : UInt8.ofNat (b.toNat + 256 * ofLeBytes bs) = b := by
      apply UInt8.toNat_inj.mp
      show (b.toNat + 256 * ofLeBytes bs) % 256 = b.toNat
      omega
    have hhigh : (b.toNat + 256 * ofLeBytes bs) / 256 = ofLeBytes bs := by omega
    rw [ofLeBytes, List.length_cons, leBytes, hlow, hhigh, ih]

namespace Parser

variable {ε : Type}

/-- A number of `n` bytes. -/
def number (short : ε) (n : ℕ) : Parser ε ℕ := ofLeBytes <$> take short n

theorem parses_number (short : ε) {n x : ℕ} (h : x < 256 ^ n) :
    Parses (number short n) (leBytes n x) x := by
  have htake := parses_take short (leBytes n x)
  rw [length_leBytes] at htake
  have hmap := htake.map ofLeBytes
  rwa [ofLeBytes_leBytes h] at hmap

theorem steady_number (short : ε) (n : ℕ) : Steady short (number short n) :=
  (steady_take short n).map ofLeBytes

theorem takes_number (short : ε) (n : ℕ) :
    Takes (number short n) fun x taken => x < 256 ^ n ∧ taken = leBytes n x := by
  refine ((takes_take short n).map ofLeBytes).mono ?_
  rintro x taken ⟨bs, ⟨rfl, rfl⟩, rfl⟩
  exact ⟨ofLeBytes_lt taken, (leBytes_ofLeBytes taken).symm⟩

end Parser
