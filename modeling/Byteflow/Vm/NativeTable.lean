import Mathlib.Data.List.Induction
import Mathlib.Data.List.Nodup
import Byteflow.Foundations.Slots
import Byteflow.Vm.StdNatives

/-!
# Building the native table

The host registers its natives one by one, each under a name, in a slot that it gives or in the next
one (`vm/native.rs`). A chunk has the number of the slot, so what was registered must stay where it
is.

The builder takes a list of registrations if and only if no name and no slot occurs twice, and
refuses the first that makes one occur twice; a name is then looked up at the slot it was registered
in, where the call finds the native that was registered with it (`registered`). The slots themselves
are read off the list (`placed`). The next slot is a number of 32 bits: once the last slot is in use
it is slot `0` (`next_slot`).
-/

namespace Byteflow

/-- The natives with their names, by slot. -/
structure NativeTableBuilder where
  entries : List (Option (String × NativeFn))

inductive NativeTableError
  | duplicateName (name : String)
  | slotOccupied (index : UInt32) (name : String)
  deriving DecidableEq

namespace NativeTableBuilder

def new : NativeTableBuilder := ⟨[]⟩

/-- `NativeTable::names`. -/
def names (b : NativeTableBuilder) : List String := b.entries.filterMap (·.map (·.1))

/-- `NativeTable::index_of`. -/
def indexOf (b : NativeTableBuilder) (name : String) : Option UInt32 :=
  (Slots.find (·.1 = name) b.entries).map UInt32.ofNat

/-- Register `f` under `name` in slot `index`. -/
def registerAt (b : NativeTableBuilder) (index : UInt32) (name : String) (f : NativeFn) :
    Except NativeTableError NativeTableBuilder :=
  if name ∈ b.names then .error (.duplicateName name)
  else
    let entries := b.entries.rightpad (index.toNat + 1) none
    if (Slots.get entries index.toNat).isSome then .error (.slotOccupied index name)
    else .ok ⟨entries.set index.toNat (some (name, f))⟩

/-- Register `f` under `name` in the next slot. -/
def register (b : NativeTableBuilder) (name : String) (f : NativeFn) :
    Except NativeTableError NativeTableBuilder :=
  b.registerAt (UInt32.ofNat b.entries.length) name f

def build (b : NativeTableBuilder) : NativeTable := b.entries.map (·.map (·.2))

/-- The map that `std_natives` makes of its table. -/
def nameMap (b : NativeTableBuilder) : List (String × UInt32) :=
  b.names.filterMap fun name => (b.indexOf name).map fun index => (name, index)

/-! ## A list of registrations -/

/-- A call of `register_at`, or of `register` if there is no slot. -/
structure Registration where
  slot : Option UInt32
  name : String
  native : NativeFn

def add (b : NativeTableBuilder) (r : Registration) : Except NativeTableError NativeTableBuilder :=
  match r.slot with
  | none => b.register r.name r.native
  | some index => b.registerAt index r.name r.native

def registerAll (rs : List Registration) : Except NativeTableError NativeTableBuilder :=
  rs.foldlM add new

/-- The slot of a registration, after `size` slots. -/
def Registration.slotAt (r : Registration) (size : ℕ) : UInt32 := r.slot.getD (UInt32.ofNat size)

/-- How many slots there are with the slot of a registration. -/
def Registration.extend (r : Registration) (size : ℕ) : ℕ := max size ((r.slotAt size).toNat + 1)

/-- How many slots there are after a list of registrations. -/
def extent (rs : List Registration) : ℕ := rs.foldl (fun size r => r.extend size) 0

/-- The registrations with their slots, from `size` slots on. -/
def placedFrom : ℕ → List Registration → List (UInt32 × Registration)
  | _, [] => []
  | size, r :: rs => (r.slotAt size, r) :: placedFrom (r.extend size) rs

def placed (rs : List Registration) : List (UInt32 × Registration) := placedFrom 0 rs

/-- No name and no slot occurs twice. -/
structure Accepted (rs : List Registration) : Prop where
  names : (rs.map Registration.name).Nodup
  slots : ((placed rs).map Prod.fst).Nodup

/-- What is wrong with a registration after others: the name occurs among them, or else the slot. -/
def Clash (rs : List Registration) (r : Registration) : NativeTableError → Prop
  | .duplicateName name => name = r.name ∧ r.name ∈ rs.map Registration.name
  | .slotOccupied index name => name = r.name ∧ index = r.slotAt (extent rs) ∧
    r.name ∉ rs.map Registration.name ∧ index ∈ (placed rs).map Prod.fst

variable {b b' : NativeTableBuilder} {rs rs' : List Registration} {r : Registration}
  {slot : UInt32} {name : String} {f : NativeFn} {e : NativeTableError}

theorem placedFrom_append (size : ℕ) (rs rs' : List Registration) :
    placedFrom size (rs ++ rs') =
      placedFrom size rs ++ placedFrom (rs.foldl (fun size r => r.extend size) size) rs' := by
  induction rs generalizing size with
  | nil => rfl
  | cons r rs ih => rw [List.cons_append, placedFrom, ih]; rfl

theorem placed_append (rs rs' : List Registration) :
    placed (rs ++ rs') = placed rs ++ placedFrom (extent rs) rs' := placedFrom_append 0 rs rs'

theorem extent_append_singleton (rs : List Registration) (r : Registration) :
    extent (rs ++ [r]) = r.extend (extent rs) := by
  rw [extent, List.foldl_append]
  rfl

theorem placed_append_singleton (rs : List Registration) (r : Registration) :
    placed (rs ++ [r]) = placed rs ++ [(r.slotAt (extent rs), r)] := placed_append rs [r]

theorem map_snd_placedFrom (size : ℕ) (rs : List Registration) :
    (placedFrom size rs).map Prod.snd = rs := by
  induction rs generalizing size with
  | nil => rfl
  | cons r rs ih => rw [placedFrom, List.map_cons, ih]

theorem Accepted.of_append (h : Accepted (rs ++ rs')) : Accepted rs := by
  obtain ⟨hnames, hslots⟩ := h
  rw [List.map_append] at hnames
  rw [placed_append, List.map_append] at hslots
  exact ⟨hnames.of_append_left, hslots.of_append_left⟩

theorem accepted_append_singleton : Accepted (rs ++ [r]) ↔ Accepted rs ∧
    r.name ∉ rs.map Registration.name ∧ r.slotAt (extent rs) ∉ (placed rs).map Prod.fst := by
  have hnames : ((rs ++ [r]).map Registration.name).Nodup ↔
      r.name ∉ rs.map Registration.name ∧ (rs.map Registration.name).Nodup := by
    rw [List.map_append, List.map_singleton, ← List.concat_eq_append, List.nodup_concat]
  have hslots : ((placed (rs ++ [r])).map Prod.fst).Nodup ↔
      r.slotAt (extent rs) ∉ (placed rs).map Prod.fst ∧ ((placed rs).map Prod.fst).Nodup := by
    rw [placed_append_singleton, List.map_append, List.map_singleton, ← List.concat_eq_append,
      List.nodup_concat]
  constructor
  · rintro ⟨hname, hslot⟩
    exact ⟨⟨(hnames.mp hname).2, (hslots.mp hslot).2⟩, (hnames.mp hname).1, (hslots.mp hslot).1⟩
  · rintro ⟨⟨hbefore, hplaced⟩, hname, hslot⟩
    exact ⟨hnames.mpr ⟨hname, hbefore⟩, hslots.mpr ⟨hslot, hplaced⟩⟩

/-! ## What the builder holds -/

/-- The builder has what was registered, and nothing else. -/
structure Holds (b : NativeTableBuilder) (rs : List Registration) : Prop where
  accepted : Accepted rs
  length : b.entries.length = extent rs
  entry (i : ℕ) (entry : String × NativeFn) : Slots.get b.entries i = some entry ↔
    ∃ p ∈ placed rs, p.1.toNat = i ∧ (p.2.name, p.2.native) = entry

theorem holds_new : Holds new [] where
  accepted := ⟨List.nodup_nil, List.nodup_nil⟩
  length := rfl
  entry i entry := by simp [new, placed, placedFrom]

theorem exists_placed (hr : r ∈ rs) : ∃ slot, (slot, r) ∈ placed rs := by
  rw [← map_snd_placedFrom 0 rs] at hr
  obtain ⟨⟨slot, r⟩, hp, rfl⟩ := List.mem_map.mp hr
  exact ⟨slot, hp⟩

theorem mem_of_placed (h : (slot, r) ∈ placed rs) : r ∈ rs := by
  rw [← map_snd_placedFrom 0 rs]
  exact List.mem_map.mpr ⟨_, h, rfl⟩

theorem Holds.mem_names (h : Holds b rs) : name ∈ b.names ↔ name ∈ rs.map Registration.name := by
  rw [names, List.mem_filterMap, List.mem_map]
  constructor
  · rintro ⟨_ | entry, hentry, hname⟩
    · cases hname
    cases hname
    obtain ⟨i, hi⟩ := Slots.mem_iff.mp hentry
    obtain ⟨⟨slot, r⟩, hp, -, rfl⟩ := (h.entry i entry).mp hi
    exact ⟨r, mem_of_placed hp, rfl⟩
  · rintro ⟨r, hr, rfl⟩
    obtain ⟨slot, hp⟩ := exists_placed hr
    have hget := (h.entry slot.toNat (r.name, r.native)).mpr ⟨_, hp, rfl, rfl⟩
    exact ⟨_, Slots.mem_iff.mpr ⟨_, hget⟩, rfl⟩

theorem Holds.isSome_iff (h : Holds b rs) :
    (Slots.get b.entries slot.toNat).isSome = true ↔ slot ∈ (placed rs).map Prod.fst := by
  rw [Option.isSome_iff_exists, List.mem_map]
  constructor
  · rintro ⟨entry, hentry⟩
    obtain ⟨p, hp, hslot, -⟩ := (h.entry _ _).mp hentry
    exact ⟨p, hp, UInt32.toNat_inj.mp hslot⟩
  · rintro ⟨p, hp, rfl⟩
    exact ⟨_, (h.entry _ _).mpr ⟨p, hp, rfl, rfl⟩⟩

theorem registerAt_eq (b : NativeTableBuilder) (index : UInt32) (name : String) (f : NativeFn) :
    b.registerAt index name f = if name ∈ b.names then .error (.duplicateName name)
      else if (Slots.get b.entries index.toNat).isSome then .error (.slotOccupied index name)
      else .ok ⟨Slots.put b.entries index.toNat (name, f)⟩ := by
  unfold registerAt
  simp only [Slots.get_rightpad]
  rfl

/-- Both calls register in the slot of the registration. -/
theorem Holds.add_eq (h : Holds b rs) (r : Registration) :
    b.add r = b.registerAt (r.slotAt (extent rs)) r.name r.native := by
  unfold add register Registration.slotAt
  rw [h.length]
  cases r.slot <;> rfl

/-- The step: a registration is refused for the first clash, or it is held with the others. -/
theorem Holds.step (h : Holds b rs) (r : Registration) :
    (∃ b', b.add r = .ok b' ∧ Holds b' (rs ++ [r])) ∨ ∃ e, b.add r = .error e ∧ Clash rs r e := by
  rw [h.add_eq, registerAt_eq]
  split_ifs with hname hslot
  · exact .inr ⟨_, rfl, rfl, h.mem_names.mp hname⟩
  · rw [h.isSome_iff] at hslot
    exact .inr ⟨_, rfl, rfl, rfl, fun hmem => hname (h.mem_names.mpr hmem), hslot⟩
  · rw [h.isSome_iff] at hslot
    rw [h.mem_names] at hname
    refine .inl ⟨_, rfl, ?_⟩
    refine ⟨accepted_append_singleton.mpr ⟨h.accepted, hname, hslot⟩, ?_, fun i entry => ?_⟩
    · rw [Slots.length_put, h.length, extent_append_singleton]
      rfl
    · rw [Slots.get_put, placed_append_singleton]
      simp only [List.mem_append, List.mem_singleton, or_and_right, exists_or, exists_eq_left]
      split_ifs with hi
      · subst hi
        have hfree : ¬∃ p ∈ placed rs, p.1.toNat = (r.slotAt (extent rs)).toNat ∧
            (p.2.name, p.2.native) = entry := by
          rintro ⟨p, hp, heq, -⟩
          exact hslot (List.mem_map.mpr ⟨p, hp, UInt32.toNat_inj.mp heq⟩)
        simp [hfree]
      · rw [h.entry]
        simp [Ne.symm hi]

theorem registerAll_append_cons (rs : List Registration) (r : Registration)
    (rs' : List Registration) : registerAll (rs ++ r :: rs') =
      registerAll rs >>= fun b => b.add r >>= fun b' => rs'.foldlM add b' := by
  rw [registerAll, List.foldlM_append]
  rfl

/-- The run: all registrations are held, or those before the first clash were. -/
theorem holds_or_clash (rs : List Registration) :
    (∃ b, registerAll rs = .ok b ∧ Holds b rs) ∨
      ∃ before r after e, rs = before ++ r :: after ∧ Accepted before ∧ Clash before r e ∧
        registerAll rs = .error e := by
  induction rs using List.reverseRecOn with
  | nil => exact .inl ⟨new, rfl, holds_new⟩
  | append_singleton rs r ih =>
    obtain ⟨b, hb, h⟩ | ⟨before, r', after, e, rfl, hbefore, hclash, he⟩ := ih
    · have hadd : registerAll (rs ++ [r]) = b.add r := by
        rw [registerAll_append_cons, hb]
        exact bind_pure (b.add r)
      rw [hadd]
      obtain ⟨b', hb', h'⟩ | ⟨e, he, hclash⟩ := h.step r
      · exact .inl ⟨b', hb', h'⟩
      · exact .inr ⟨rs, r, [], e, rfl, h.accepted, hclash, he⟩
    · refine .inr ⟨before, r', after ++ [r], e, by simp, hbefore, hclash, ?_⟩
      rw [registerAll_append_cons, he]
      rfl

theorem Clash.not_accepted {after : List Registration} (h : Clash rs r e) :
    ¬Accepted (rs ++ r :: after) := by
  intro haccepted
  rw [← List.singleton_append, ← List.append_assoc] at haccepted
  obtain ⟨-, hname, hslot⟩ := accepted_append_singleton.mp haccepted.of_append
  cases e with
  | duplicateName name => exact hname h.2
  | slotOccupied index name =>
    obtain ⟨-, rfl, -, hmem⟩ := h
    exact hslot hmem

theorem Clash.unique {e' : NativeTableError} (h : Clash rs r e) (h' : Clash rs r e') : e = e' := by
  cases e <;> cases e'
  · rw [h.1, h'.1]
  · exact absurd h.2 h'.2.2.1
  · exact absurd h'.2 h.2.2.1
  · rw [h.1, h'.1, h.2.1, h'.2.1]

theorem holds_of_registerAll (h : registerAll rs = .ok b) : Holds b rs := by
  obtain ⟨b', hb', h'⟩ | ⟨_, _, _, e, _, _, _, he⟩ := holds_or_clash rs
  · rw [h] at hb'
    cases hb'
    exact h'
  · rw [h] at he
    cases he

theorem exists_of_accepted (h : Accepted rs) : ∃ b, registerAll rs = .ok b ∧ Holds b rs := by
  obtain hok | ⟨before, r, after, e, rfl, -, hclash, -⟩ := holds_or_clash rs
  · exact hok
  · exact absurd h hclash.not_accepted

/-! ## What is found -/

/-- A name is registered once, so it is found. -/
theorem Holds.indexOf_iff (h : Holds b rs) :
    b.indexOf name = some slot ↔ ∃ r, (slot, r) ∈ placed rs ∧ r.name = name := by
  have hone : ∀ i j (a c : String × NativeFn),
      Slots.get b.entries i = some a → decide (a.1 = name) →
      Slots.get b.entries j = some c → decide (c.1 = name) → i = j := by
    intro i j a c hi ha hj hc
    rw [decide_eq_true_iff] at ha hc
    obtain ⟨p, hp, rfl, rfl⟩ := (h.entry i a).mp hi
    obtain ⟨q, hq, rfl, rfl⟩ := (h.entry j c).mp hj
    have hnames := h.accepted.names
    rw [← map_snd_placedFrom 0 rs, List.map_map] at hnames
    rw [List.inj_on_of_nodup_map hnames hp hq (ha.trans hc.symm)]
  rw [indexOf, Option.map_eq_some_iff]
  constructor
  · rintro ⟨i, hi, rfl⟩
    obtain ⟨entry, hentry, hname⟩ := (Slots.find_eq_some_iff hone).mp hi
    obtain ⟨⟨slot, r⟩, hp, rfl, rfl⟩ := (h.entry i entry).mp hentry
    exact ⟨r, by rwa [UInt32.ofNat_toNat], of_decide_eq_true hname⟩
  · rintro ⟨r, hp, rfl⟩
    have hget := (h.entry slot.toNat (r.name, r.native)).mpr ⟨_, hp, rfl, rfl⟩
    refine ⟨slot.toNat, (Slots.find_eq_some_iff hone).mpr ⟨_, hget, decide_eq_true rfl⟩, ?_⟩
    exact UInt32.ofNat_toNat

theorem Holds.get_iff (h : Holds b rs) :
    b.build.get slot = some f ↔ ∃ r, (slot, r) ∈ placed rs ∧ r.native = f := by
  have hget : b.build.get slot = (Slots.get b.entries slot.toNat).map (·.2) :=
    Slots.get_map Prod.snd b.entries slot.toNat
  rw [hget, Option.map_eq_some_iff]
  constructor
  · rintro ⟨entry, hentry, rfl⟩
    obtain ⟨⟨slot', r⟩, hp, hslot, rfl⟩ := (h.entry _ _).mp hentry
    rw [UInt32.toNat_inj] at hslot
    exact ⟨r, hslot ▸ hp, rfl⟩
  · rintro ⟨r, hp, rfl⟩
    exact ⟨_, (h.entry slot.toNat (r.name, r.native)).mpr ⟨_, hp, rfl, rfl⟩, rfl⟩

theorem Holds.mem_nameMap (h : Holds b rs) :
    (name, slot) ∈ b.nameMap ↔ b.indexOf name = some slot := by
  simp only [nameMap, List.mem_filterMap, Option.map_eq_some_iff, Prod.mk.injEq]
  constructor
  · rintro ⟨_, -, _, hindex, rfl, rfl⟩
    exact hindex
  · intro hindex
    obtain ⟨r, hp, rfl⟩ := h.indexOf_iff.mp hindex
    have hmem : r.name ∈ b.names := h.mem_names.mpr (List.mem_map_of_mem (mem_of_placed hp))
    exact ⟨r.name, hmem, slot, hindex, rfl, rfl⟩

/-- **The native table.** A list of registrations is taken if and only if no name and no slot occurs
twice, and refused for its first clash. A name is looked up at the slot that it was registered in,
by the table and by its map, and there is the native that was registered with it. -/
theorem registered (rs : List Registration) :
    ((∃ b, registerAll rs = .ok b) ↔ Accepted rs) ∧
    (∀ e, registerAll rs = .error e ↔
      ∃ before r after, rs = before ++ r :: after ∧ Accepted before ∧ Clash before r e) ∧
    ∀ b, registerAll rs = .ok b → b.build.length = extent rs ∧
      (∀ name slot, b.indexOf name = some slot ↔ ∃ r, (slot, r) ∈ placed rs ∧ r.name = name) ∧
      (∀ name slot, (name, slot) ∈ b.nameMap ↔ b.indexOf name = some slot) ∧
      ∀ slot f, b.build.get slot = some f ↔ ∃ r, (slot, r) ∈ placed rs ∧ r.native = f := by
  refine ⟨⟨fun ⟨b, hb⟩ => (holds_of_registerAll hb).accepted, fun h => ?_⟩, fun e => ⟨?_, ?_⟩, ?_⟩
  · obtain ⟨b, hb, -⟩ := exists_of_accepted h
    exact ⟨b, hb⟩
  · intro he
    obtain ⟨b, hb, -⟩ | ⟨before, r, after, e', hrs, hbefore, hclash, he'⟩ := holds_or_clash rs
    · rw [he] at hb
      cases hb
    · rw [he] at he'
      cases he'
      exact ⟨before, r, after, hrs, hbefore, hclash⟩
  · rintro ⟨before, r, after, rfl, hbefore, hclash⟩
    obtain ⟨b, hb, h⟩ := exists_of_accepted hbefore
    have hadd : b.add r = .error e := by
      obtain ⟨b', hb', h'⟩ | ⟨e', he', hclash'⟩ := h.step r
      · exact absurd h'.accepted hclash.not_accepted
      · rw [he', hclash.unique hclash']
    rw [registerAll_append_cons, hb]
    change b.add r >>= _ = _
    rw [hadd]
    rfl
  · intro b hb
    have h := holds_of_registerAll hb
    refine ⟨?_, fun name slot => h.indexOf_iff, fun name slot => h.mem_nameMap,
      fun slot f => h.get_iff⟩
    rw [build, List.length_map, h.length]

/-- What is registered later leaves each name in its slot, and each slot its native. -/
theorem kept_of_append (h : registerAll (rs ++ rs') = .ok b') : ∃ b, registerAll rs = .ok b ∧
    (∀ name slot, b.indexOf name = some slot → b'.indexOf name = some slot) ∧
    ∀ slot f, b.build.get slot = some f → b'.build.get slot = some f := by
  have h' := holds_of_registerAll h
  obtain ⟨b, hb, hholds⟩ := exists_of_accepted h'.accepted.of_append
  have hsub : placed rs ⊆ placed (rs ++ rs') := by
    rw [placed_append]
    exact List.subset_append_left _ _
  refine ⟨b, hb, fun name slot hname => ?_, fun slot f hget => ?_⟩
  · obtain ⟨r, hp, hr⟩ := hholds.indexOf_iff.mp hname
    exact h'.indexOf_iff.mpr ⟨r, hsub hp, hr⟩
  · obtain ⟨r, hp, hr⟩ := hholds.get_iff.mp hget
    exact h'.get_iff.mpr ⟨r, hsub hp, hr⟩

/-- A table fails as natives do if each native that was registered does. -/
theorem failsAsNative_iff (h : registerAll rs = .ok b) : b.build.FailsAsNative ↔
    ∀ r ∈ rs, ∀ tick args fault, r.native tick args = .error fault →
      ∃ message, fault = .nativeError message := by
  have h := holds_of_registerAll h
  constructor
  · intro hfails r hr
    obtain ⟨slot, hp⟩ := exists_placed hr
    exact hfails slot r.native (h.get_iff.mpr ⟨r, hp, rfl⟩)
  · intro hall slot f hf
    obtain ⟨r, hp, rfl⟩ := h.get_iff.mp hf
    exact hall r (mem_of_placed hp)

/-! ## The next slot -/

theorem extend_le {size : ℕ} (h : size ≤ 2 ^ 32) (r : Registration) : r.extend size ≤ 2 ^ 32 := by
  have hslot := (r.slotAt size).toNat_lt
  unfold Registration.extend
  omega

theorem extent_le (rs : List Registration) : extent rs ≤ 2 ^ 32 := by
  induction rs using List.reverseRecOn with
  | nil => exact Nat.zero_le _
  | append_singleton rs r ih =>
    rw [extent_append_singleton]
    exact extend_le ih r

theorem lt_extent_of_placed (h : (slot, r) ∈ placed rs) : slot.toNat < extent rs := by
  induction rs using List.reverseRecOn with
  | nil => cases h
  | append_singleton rs r' ih =>
    rw [extent_append_singleton, Registration.extend]
    rw [placed_append_singleton, List.mem_append, List.mem_singleton] at h
    rcases h with h | h
    · exact lt_max_of_lt_left (ih h)
    · cases h
      exact lt_max_of_lt_right (Nat.lt_succ_self _)

/-- The last of the slots is in use. -/
theorem exists_of_extent (h : extent rs ≠ 0) : ∃ p ∈ placed rs, p.1.toNat + 1 = extent rs := by
  induction rs using List.reverseRecOn with
  | nil => exact absurd rfl h
  | append_singleton rs r ih =>
    rw [extent_append_singleton, Registration.extend, placed_append_singleton]
    rcases le_total (extent rs) ((r.slotAt (extent rs)).toNat + 1) with hle | hle
    · exact ⟨_, List.mem_append_right _ (List.mem_singleton_self _), (max_eq_right hle).symm⟩
    · obtain ⟨p, hp, hextent⟩ := ih (by omega)
      exact ⟨p, List.mem_append_left _ hp, by rw [max_eq_left hle, hextent]⟩

/-- The next slot is behind all that are in use; but it is slot `0` once the last slot of 32 bits
is in use. -/
theorem next_slot (rs : List Registration) (h : r.slot = none) :
    if UInt32.ofNat (2 ^ 32 - 1) ∈ (placed rs).map Prod.fst then r.slotAt (extent rs) = 0
    else ∀ slot ∈ (placed rs).map Prod.fst, slot < r.slotAt (extent rs) := by
  rw [Registration.slotAt, h, Option.getD_none]
  split_ifs with hlast
  · obtain ⟨⟨slot, r'⟩, hp, hslot⟩ := List.mem_map.mp hlast
    have hlt := lt_extent_of_placed hp
    rw [show slot = UInt32.ofNat (2 ^ 32 - 1) from hslot] at hlt
    have hextent : extent rs = 2 ^ 32 := le_antisymm (extent_le rs) hlt
    rw [hextent]
    rfl
  · have hextent : extent rs < 2 ^ 32 := by
      refine lt_of_le_of_ne (extent_le rs) fun heq => hlast ?_
      have hne : extent rs ≠ 0 := by omega
      obtain ⟨p, hp, hslot⟩ := exists_of_extent hne
      refine List.mem_map.mpr ⟨p, hp, UInt32.toNat_inj.mp ?_⟩
      rw [heq] at hslot
      exact Nat.succ_injective hslot
    intro slot hslot
    obtain ⟨p, hp, rfl⟩ := List.mem_map.mp hslot
    rw [UInt32.lt_iff_toNat_lt, UInt32.toNat_ofNat_of_lt' hextent]
    exact lt_extent_of_placed hp

end NativeTableBuilder

/-! ## The standard table -/

open StdNatives NativeTableBuilder

/-- The calls of `std_native_table`. -/
def stdRegistrations : List Registration :=
  [⟨none, "print", print⟩, ⟨none, "now_ms", nowMs⟩, ⟨none, "make_msg", makeMsg⟩,
    ⟨none, "msg_sender", msgSender⟩, ⟨none, "msg_request_id", msgRequestId⟩,
    ⟨none, "msg_tag", msgTag⟩, ⟨none, "msg_payload", msgPayload⟩,
    ⟨none, "msg_reply_cap", msgReplyCap⟩]

/-- `std_native_map`. -/
def stdNativeMap : List (String × UInt32) :=
  [("print", 0), ("now_ms", 1), ("make_msg", 2), ("msg_sender", 3), ("msg_request_id", 4),
    ("msg_tag", 5), ("msg_payload", 6), ("msg_reply_cap", 7)]

/-- The standard table is what its registrations build, and its map is the one in the source. -/
theorem stdNatives_registered : ∃ b, registerAll stdRegistrations = .ok b ∧ b.build = stdNatives ∧
    ∀ name slot, b.indexOf name = some slot ↔ (name, slot) ∈ stdNativeMap := by
  have haccepted : Accepted stdRegistrations := ⟨by decide, by decide⟩
  obtain ⟨b, hb, h⟩ := exists_of_accepted haccepted
  refine ⟨b, hb, ?_, fun name slot => ?_⟩
  · have hbuild : (registerAll stdRegistrations).map build = .ok stdNatives := rfl
    rw [hb] at hbuild
    exact Except.ok.inj hbuild
  · rw [h.indexOf_iff]
    have hplaced : (placed stdRegistrations).map (fun p => (p.2.name, p.1)) = stdNativeMap := rfl
    rw [← hplaced]
    simp

end Byteflow
