import Mathlib.Algebra.Order.BigOperators.Group.Finset
import Mathlib.Algebra.Order.BigOperators.Group.List
import Byteflow.Vm.Run

/-!
# The heap quota

What a flow is charged for covers the strings and byte strings in its registers, each buffer
counted once however many registers share it (`heap_bounded`): an argument is passed to a callee
for nothing, and a store of the buffer that a register holds already is free.

Values have no addresses. `Places` gives the buffer of each register one, and `Follows` is how
the addresses move when the VM executes an instruction or takes a value.
-/

namespace Byteflow

/-! ## Charges -/

namespace FlowQuota

variable {q q' q'' : FlowQuota} {m n : ℕ}

/-- The quota is charged for at least `n` bytes; the count stops at the largest `usize`. -/
structure Pays (n : ℕ) (q q' : FlowQuota) : Prop where
  bounded : q.memUsed ≤ q.memLimit → q'.memUsed ≤ q'.memLimit
  charged : min (q.memUsed + n) usizeMax ≤ q'.memUsed

theorem Pays.refl (q : FlowQuota) : q.Pays 0 q := ⟨id, min_le_left _ _⟩

theorem Pays.trans (h : q.Pays m q') (h' : q'.Pays n q'') : q.Pays (m + n) q'' where
  bounded := h'.bounded ∘ h.bounded
  charged := by
    have h₁ := h.charged
    have h₂ := h'.charged
    omega

theorem Pays.mono (h : q.Pays m q') (hn : n ≤ m) : q.Pays n q' where
  bounded := h.bounded
  charged := by
    have h₁ := h.charged
    omega

theorem pays_alloc (h : q.alloc n = .ok q') : q.Pays n q' := by
  simp only [alloc] at h
  split at h
  · cases h
  · rename_i hlimit
    cases h
    exact ⟨fun _ => Nat.le_of_not_lt hlimit, le_refl _⟩

end FlowQuota

namespace Vm

variable {vm vm' : Vm} {host : Host} {q q' : FlowQuota}

theorem pays_chargeHeapValue {v : Value} (h : chargeHeapValue q v = .ok q') :
    q.Pays v.bufferLen q' := by
  rcases alloc_of_chargeHeapValue h with ⟨rfl, hfree⟩ | halloc
  · rw [hfree]
    exact .refl _
  · exact FlowQuota.pays_alloc halloc

theorem pays_chargeAll {vs : List Value} (h : chargeAll q vs = .ok q') :
    q.Pays (vs.map (·.bufferLen)).sum q' := by
  induction vs generalizing q with
  | nil =>
    cases h
    exact .refl _
  | cons v vs ih =>
    obtain ⟨q₁, hv, hvs⟩ := of_bind_ok h
    exact (pays_chargeHeapValue hv).trans (ih hvs)

/-- A store is paid for, unless the register holds the very same buffer. -/
theorem pays_chargeRegisterStore {reg : UInt8} {v : Value} (hq : vm.quota = some q)
    (h : vm.chargeRegisterStore host reg v = .ok vm') :
    ∃ q', vm'.quota = some q' ∧ q.Pays 0 q' ∧
      (host.aliased = true ∧ vm.peekReg reg = some v ∨ q.Pays v.bufferLen q') := by
  simp only [chargeRegisterStore, hq] at h
  split at h
  · rename_i hsame
    cases h
    rw [Bool.and_eq_true, decide_eq_true_eq] at hsame
    exact ⟨q, hq, .refl q, .inl hsame⟩
  · split at h
    · rename_i q₁ hcharge
      cases h
      have hpays := pays_chargeHeapValue hcharge
      exact ⟨q₁, rfl, hpays.mono (Nat.zero_le _), .inr hpays⟩
    · cases h

theorem pays_setReg (host : Host) (reg : UInt8) (v : Value) (hq : vm.quota = some q) :
    ∃ q', (vm.setReg host reg v).2.quota = some q' ∧ q.Pays 0 q' ∧
      ((vm.setReg host reg v).1 = .ok () →
        host.aliased = true ∧ vm.peekReg reg = some v ∨ q.Pays v.bufferLen q') := by
  unfold setReg
  cases hcharge : vm.chargeRegisterStore host reg v with
  | error fault => exact ⟨q, hq, .refl q, by simp⟩
  | ok vm₁ =>
    obtain ⟨q', hq', hpays, hstore⟩ := pays_chargeRegisterStore hq hcharge
    refine ⟨q', ?_, hpays, fun _ => hstore⟩
    simp only
    split
    · exact hq'
    · split <;> exact hq'

theorem pays_of_setReg {vm₁ : Vm} {reg : UInt8} {v : Value} {r : Except Fault Unit}
    (hq : vm.quota = some q) (hquota : vm₁.quota = vm.quota)
    (h : vm₁.setReg host reg v = (r, vm')) : ∃ q', vm'.quota = some q' ∧ q.Pays 0 q' := by
  obtain ⟨q', hq', hpays, -⟩ := vm₁.pays_setReg host reg v (hquota.trans hq)
  rw [h] at hq'
  exact ⟨q', hq', hpays⟩

@[simp] theorem goto_quota (pc : ℕ) : (vm.goto pc).quota = vm.quota := by
  unfold goto
  split <;> rfl

@[simp] theorem fetched_quota : vm.fetched.quota = vm.quota := goto_quota _

/-! ## Addresses -/

/-- The address of the buffer in each register, by the depth of its frame, counted from the
outermost, and the number of the register. -/
abbrev Places := ℕ → ℕ → ℕ

def Places.put (places : Places) (depth reg address : ℕ) : Places :=
  Function.update places depth (Function.update (places depth) reg address)

/-- The register files, the top one first. -/
def files (vm : Vm) : List (List Value) := vm.frames.map (·.registers)

/-- What the registers hold, and where. -/
def slots (places : Places) : List (List Value) → List (ℕ × Value)
  | [] => []
  | file :: rest => file.mapIdx (fun i v => (places rest.length i, v)) ++ slots places rest

/-- The length of all the buffers that registers hold, each counted once. -/
def footprint (places : Places) (files : List (List Value)) : ℕ :=
  ∑ slot ∈ (slots places files).toFinset, slot.2.bufferLen

variable {places places' : Places} {file : List Value} {rest : List (List Value)}

theorem mem_slots_cons {slot : ℕ × Value} : slot ∈ slots places (file :: rest) ↔
    (∃ i, ∃ v, file[i]? = some v ∧ slot = (places rest.length i, v)) ∨
      slot ∈ slots places rest := by
  rw [slots, List.mem_append]
  refine or_congr_left ?_
  rw [List.mem_mapIdx]
  constructor
  · rintro ⟨i, hi, rfl⟩
    exact ⟨i, file[i], List.getElem?_eq_getElem hi, rfl⟩
  · rintro ⟨i, v, hv, rfl⟩
    obtain ⟨hi, rfl⟩ := List.getElem?_eq_some_iff.mp hv
    exact ⟨i, hi, rfl⟩

/-- The registers of a frame are where they are, whatever is above it. -/
theorem slots_suffix {fs gs : List (List Value)} (h : fs <:+ gs) :
    slots places fs ⊆ slots places gs := by
  obtain ⟨above, rfl⟩ := h
  induction above with
  | nil => exact List.Subset.refl _
  | cons file above ih => exact fun slot hslot => mem_slots_cons.mpr (.inr (ih hslot))

theorem slots_congr {fs : List (List Value)}
    (h : ∀ depth < fs.length, places' depth = places depth) :
    slots places' fs = slots places fs := by
  induction fs with
  | nil => rfl
  | cons file rest ih =>
    rw [slots, slots, ih fun depth hlt => h depth (Nat.lt_succ_of_lt hlt),
      h rest.length (Nat.lt_succ_self _)]

/-- A store puts one buffer where it is. -/
theorem slots_put {reg address : ℕ} {v : Value} :
    slots (places.put rest.length reg address) (file.set reg v :: rest) ⊆
      (address, v) :: slots places (file :: rest) := by
  have hrest : slots (places.put rest.length reg address) rest = slots places rest :=
    slots_congr fun depth hlt => Function.update_of_ne (Nat.ne_of_lt hlt) ..
  intro slot hslot
  rw [List.mem_cons]
  obtain ⟨i, w, hw, rfl⟩ | hslot := mem_slots_cons.mp hslot
  · have hat : places.put rest.length reg address rest.length =
        Function.update (places rest.length) reg address := Function.update_self ..
    rw [hat]
    by_cases hi : reg = i
    · subst hi
      left
      have hwv : v = w := by
        rw [List.getElem?_set] at hw
        split at hw
        · split at hw
          · exact Option.some.inj hw
          · cases hw
        · contradiction
      rw [Function.update_self, hwv]
    · right
      rw [Function.update_of_ne (Ne.symm hi)]
      rw [List.getElem?_set_ne hi] at hw
      exact mem_slots_cons.mpr (.inl ⟨i, w, hw, rfl⟩)
  · rw [hrest] at hslot
    exact .inr (mem_slots_cons.mpr (.inr hslot))

/-- One element more adds no more than its share. -/
theorem sum_insert_le {α : Type} [DecidableEq α] (f : α → ℕ) (a : α) (s : Finset α) :
    ∑ x ∈ insert a s, f x ≤ f a + ∑ x ∈ s, f x := by
  by_cases h : a ∈ s
  · rw [Finset.insert_eq_of_mem h]
    exact Nat.le_add_left ..
  · rw [Finset.sum_insert h]

theorem sum_toFinset_le {α : Type} [DecidableEq α] (f : α → ℕ) (l : List α) :
    ∑ x ∈ l.toFinset, f x ≤ (l.map f).sum := by
  induction l with
  | nil => exact Nat.le_refl _
  | cons a l ih =>
    rw [List.toFinset_cons, List.map_cons, List.sum_cons]
    exact (sum_insert_le f a _).trans (Nat.add_le_add_left ih _)

theorem footprint_le {fs gs : List (List Value)}
    (h : ∀ slot ∈ slots places' gs, slot.2.bufferLen ≠ 0 → slot ∈ slots places fs) :
    footprint places' gs ≤ footprint places fs :=
  Finset.sum_le_sum_of_ne_zero fun slot hslot hlen =>
    List.mem_toFinset.mpr (h slot (List.mem_toFinset.mp hslot) hlen)

theorem footprint_le_add {fs gs : List (List Value)} {address : ℕ} {v : Value}
    (h : slots places' gs ⊆ (address, v) :: slots places fs) :
    footprint places' gs ≤ footprint places fs + v.bufferLen := by
  have hsubset : (slots places' gs).toFinset ⊆ insert (address, v) (slots places fs).toFinset := by
    rw [← List.toFinset_cons]
    exact fun slot hslot => List.mem_toFinset.mpr (h (List.mem_toFinset.mp hslot))
  calc footprint places' gs
      ≤ ∑ slot ∈ insert (address, v) (slots places fs).toFinset, slot.2.bufferLen :=
        Finset.sum_le_sum_of_subset hsubset
    _ ≤ v.bufferLen + footprint places fs := sum_insert_le ..
    _ = footprint places fs + v.bufferLen := Nat.add_comm ..

/-- Counted once or as often as it is held, a buffer is no longer. -/
theorem footprint_le_sum (places : Places) (fs : List (List Value)) :
    footprint places fs ≤ (fs.flatten.map (·.bufferLen)).sum := by
  have hvalues : (slots places fs).map Prod.snd = fs.flatten := by
    induction fs with
    | nil => rfl
    | cons file rest ih =>
      have hfile : (file.mapIdx fun i v => (places rest.length i, v)).map Prod.snd = file := by
        refine List.ext_getElem? fun i => ?_
        rw [List.getElem?_map, List.getElem?_mapIdx, Option.map_map]
        exact Option.map_id_apply
      rw [slots, List.map_append, hfile, ih, List.flatten_cons]
  rw [← hvalues, List.map_map]
  exact sum_toFinset_le ..

/-! ## Events -/

/-- How the addresses move when the VM goes on to `vm'`. -/
inductive Follows (host : Host) (vm : Vm) (places : Places) : Vm → Places → Prop
  /-- No register is stored to. Frames may have been left. -/
  | stays {vm' : Vm} (hfiles : vm'.files <:+ vm.files) : Follows host vm places vm' places
  /-- A store, perhaps after a frame was left. The address of what is stored is unknown, unless
  it is the buffer that the register holds. -/
  | stores {vm₁ vm' : Vm} {reg : UInt8} {v : Value} (hfiles : vm₁.files <:+ vm.files)
      (hquota : vm₁.quota = vm.quota) (h : vm₁.setReg host reg v = (.ok (), vm')) (address : ℕ)
      (hsame : host.aliased = true → vm₁.peekReg reg = some v →
        address = places (vm₁.frames.length - 1) reg.toNat) :
      Follows host vm places vm' (places.put (vm₁.frames.length - 1) reg.toNat address)
  /-- The arguments of a call are the buffers of the caller. -/
  | enters {vm' : Vm} {function : UInt32} {argc : ℕ} {dst : UInt8} {args : List Value}
      {frame : Frame} (hargs : vm.gather dst 0 argc = .ok args)
      (h : enter vm.chunk function args (some dst) = .ok frame)
      (hfiles : vm'.files = frame.registers :: vm.files) :
      Follows host vm places vm' (Function.update places vm.frames.length
        fun i => places (vm.frames.length - 1) (dst.toNat + i))

/-- A VM under a quota, with the addresses of its buffers and the bytes of a hop that the quota
pays for. The buffers and the hop share one address space. -/
inductive Reaches : Vm → Places → ℕ → Prop
  | attached {vm vm' : Vm} {quota : FlowQuota} (hquota : quota.memUsed ≤ quota.memLimit)
      (h : vm.setQuota quota = .ok vm') (places : Places)
      (hfits : footprint places vm'.files ≤ usizeMax) : Reaches vm' places 0
  | step {vm : Vm} {places places' : Places} {held : ℕ} (h : Reaches vm places held) (host : Host)
      (hfollows : Follows host vm places (vm.step host).2 places')
      (hfits : footprint places' (vm.step host).2.files + held ≤ usizeMax) :
      Reaches (vm.step host).2 places' held
  | resumeWith {vm : Vm} {places places' : Places} {held : ℕ} (h : Reaches vm places held)
      (host : Host) (reg : UInt8) (v : Value)
      (hfollows : Follows host vm places (vm.resumeWith host reg v) places')
      (hfits : footprint places' (vm.resumeWith host reg v).files + held ≤ usizeMax) :
      Reaches (vm.resumeWith host reg v) places' held
  | alloc {vm : Vm} {places : Places} {held : ℕ} (h : Reaches vm places held)
      {quota quota' : FlowQuota} {bytes : ℕ} (hquota : vm.quota = some quota)
      (halloc : quota.alloc bytes = .ok quota')
      (hfits : footprint places vm.files + (held + bytes) ≤ usizeMax) :
      Reaches { vm with quota := some quota' } places (held + bytes)
  | free {vm : Vm} {places : Places} {held : ℕ} (h : Reaches vm places held) {bytes : ℕ}
      (hbytes : bytes ≤ held) : Reaches (vm.onQuota (·.free bytes)) places (held - bytes)

@[simp] theorem goto_files (pc : ℕ) : (vm.goto pc).files = vm.files := by
  unfold goto
  split
  · rfl
  · rename_i frame rest hframes
    rw [files, files, hframes]
    rfl

@[simp] theorem fetched_files : vm.fetched.files = vm.files := goto_files _

/-- What an instruction stores into has the registers and the quota that were there before. -/
theorem ready (h : vm' = vm.fetched ∨ vm' = vm.fetched.freshRequestId.2) :
    vm'.files = vm.files ∧ vm'.quota = vm.quota := by
  obtain rfl | rfl := h
  · exact ⟨fetched_files, fetched_quota⟩
  · unfold freshRequestId
    split <;> exact ⟨fetched_files, fetched_quota⟩

/-- An instruction changes the quota by what it pays. -/
theorem pays_step (hq : vm.quota = some q) (host : Host) :
    ∃ q', (vm.step host).2.quota = some q' ∧ q.Pays 0 q' := by
  have hmoves := step_moves host vm
  generalize vm.step host = out at hmoves
  obtain ⟨r, vm'⟩ := out
  have hsame (vm' : Vm) (hquota : vm'.quota = vm.quota) : ∃ q', vm'.quota = some q' ∧ q.Pays 0 q' :=
    ⟨q, hquota.trans hq, .refl q⟩
  cases hmoves with
  | stuck h => exact hsame _ rfl
  | result hnext h => exact hsame _ fetched_quota
  | passes hnext => exact hsame _ fetched_quota
  | jumps hnext hop hframes => exact hsame _ (goto_quota _)
  | stores hnext reg v hvm h => exact pays_of_setReg hq (ready hvm).2 h
  | refuses hnext reg v hvm h => exact pays_of_setReg hq (ready hvm).2 h
  | calls hnext hop hdepth hargs h => exact hsame _ fetched_quota
  | completes hframes hv hdest => exact hsame _ rfl
  | returns hframes hv hdest h => exact pays_of_setReg hq (by rfl) h
  | loses hframes hv hdest h frameSize => exact pays_of_setReg hq (by rfl) h

theorem suffix_tail {frame : Frame} {below : List Frame} (hframes : vm.frames = frame :: below) :
    below.map (·.registers) <:+ vm.files := by
  rw [files, hframes]
  exact List.suffix_cons ..

/-- Wherever a store puts its buffer, the addresses follow each instruction. -/
theorem exists_follows (host : Host) (vm : Vm) (places : Places) :
    ∃ places', Follows host vm places (vm.step host).2 places' := by
  have hmoves := step_moves host vm
  generalize vm.step host = out at hmoves
  obtain ⟨r, vm'⟩ := out
  have hstays {vm' : Vm} (h : vm'.files = vm.files) :
      ∃ places', Follows host vm places vm' places' :=
    ⟨places, .stays (h ▸ List.suffix_refl _)⟩
  have hstores {vm₁ : Vm} {reg : UInt8} {v : Value} (hfiles : vm₁.files <:+ vm.files)
      (hquota : vm₁.quota = vm.quota) (h : vm₁.setReg host reg v = (.ok (), vm')) :
      ∃ places', Follows host vm places vm' places' :=
    ⟨_, .stores hfiles hquota h _ fun _ _ => rfl⟩
  have hrefuses {vm₁ : Vm} {reg : UInt8} {v : Value} {fault : Fault}
      (hfiles : vm₁.files <:+ vm.files) (h : vm₁.setReg host reg v = (.error fault, vm')) :
      ∃ places', Follows host vm places vm' places' := by
    obtain ⟨⟨quota, rfl⟩, -⟩ := setReg_error h
    exact ⟨places, .stays hfiles⟩
  cases hmoves with
  | stuck h => exact hstays rfl
  | result hnext h => exact hstays fetched_files
  | passes hnext => exact hstays fetched_files
  | jumps hnext hop hframes => exact hstays (goto_files _)
  | stores hnext reg v hvm h =>
    obtain ⟨hfiles, hquota⟩ := ready hvm
    exact hstores (hfiles ▸ List.suffix_refl _) hquota h
  | refuses hnext reg v hvm h =>
    obtain ⟨hfiles, -⟩ := ready hvm
    exact hrefuses (hfiles ▸ List.suffix_refl _) h
  | calls hnext hop hdepth hargs h =>
    exact ⟨_, .enters hargs h (congrArg (_ :: ·) fetched_files)⟩
  | completes hframes hv hdest => exact ⟨places, .stays (suffix_tail hframes)⟩
  | returns hframes hv hdest h => exact hstores (suffix_tail hframes) (by rfl) h
  | loses hframes hv hdest h frameSize => exact hrefuses (suffix_tail hframes) h

/-! ## What a callee gets -/

theorem regAt_toNat {base reg : UInt8} {offset : ℕ} (h : regAt base offset = .ok reg) :
    reg.toNat = base.toNat + offset := by
  unfold regAt at h
  split at h
  · rename_i hlt
    cases h
    exact UInt8.toNat_ofNat_of_lt' hlt
  · cases h

theorem peekReg_of_getReg {reg : UInt8} {v : Value} (h : vm.getReg reg = .ok v) :
    vm.peekReg reg = some v := by
  unfold getReg at h
  unfold peekReg
  cases hframes : vm.frames with
  | nil => simp [hframes] at h
  | cons frame rest =>
    simp only [hframes] at h
    split at h
    · cases h
      assumption
    · cases h

/-- The arguments are what the registers of the caller hold. -/
theorem gather_get {base : UInt8} {offset argc : ℕ} {args : List Value}
    (h : vm.gather base offset argc = .ok args) {i : ℕ} {v : Value} (hv : args[i]? = some v) :
    ∃ reg : UInt8, reg.toNat = base.toNat + (offset + i) ∧ vm.peekReg reg = some v := by
  induction argc generalizing offset args i with
  | zero =>
    cases h
    simp at hv
  | succ argc ih =>
    rw [gather] at h
    obtain ⟨reg, hreg, h⟩ := of_bind_ok h
    obtain ⟨w, hw, h⟩ := of_bind_ok h
    obtain ⟨ws, hws, h⟩ := of_bind_ok h
    cases h
    cases i with
    | zero =>
      obtain rfl : w = v := Option.some.inj hv
      exact ⟨reg, regAt_toNat hreg, peekReg_of_getReg hw⟩
    | succ i =>
      obtain ⟨reg, hreg, hpeek⟩ := ih hws (i := i) hv
      exact ⟨reg, by omega, hpeek⟩

theorem loadArgs_get {frameSize : UInt8} {k : ℕ} {args registers registers' : List Value}
    (h : loadArgs frameSize k args registers = .ok registers') {i : ℕ} {v : Value}
    (hv : registers'[i]? = some v) : args[i]? = some v ∨ registers[i]? = some v := by
  induction args generalizing k registers registers' i with
  | nil =>
    cases h
    exact .inr hv
  | cons a args ih =>
    cases registers with
    | nil => cases h
    | cons r registers =>
      obtain ⟨loaded, hloaded, h⟩ := of_bind_ok h
      cases h
      cases i with
      | zero => exact .inl hv
      | succ i => exact ih hloaded hv

theorem enter_get {chunk : Chunk} {function : UInt32} {args : List Value} {dest : Option UInt8}
    {frame : Frame} (h : enter chunk function args dest = .ok frame) {i : ℕ} {v : Value}
    (hv : frame.registers[i]? = some v) : args[i]? = some v ∨ v = .unit := by
  unfold enter at h
  cases hf : chunk.function function with
  | none => simp [hf] at h
  | some f =>
    simp only [hf] at h
    obtain ⟨registers, hloaded, h⟩ := of_bind_ok h
    cases h
    obtain hv | hv := loadArgs_get hloaded hv
    · left
      rw [List.getElem?_take] at hv
      split at hv
      · exact hv
      · cases hv
    · exact .inr (List.eq_of_mem_replicate (List.mem_of_getElem? hv))

/-! ## The bound -/

/-- The quota is within its limit, and covers the buffers and the hop. -/
def Covered (vm : Vm) (places : Places) (held : ℕ) : Prop :=
  ∃ quota, vm.quota = some quota ∧ quota.memUsed ≤ quota.memLimit ∧
    footprint places vm.files + held ≤ quota.memUsed

variable {held : ℕ}

theorem mem_slots_of_peekReg {reg : UInt8} {v : Value} (h : vm.peekReg reg = some v) :
    (places (vm.frames.length - 1) reg.toNat, v) ∈ slots places vm.files := by
  unfold peekReg at h
  cases hframes : vm.frames with
  | nil => simp [hframes] at h
  | cons frame rest =>
    rw [hframes] at h
    rw [files, hframes, List.map_cons, List.length_cons, Nat.add_sub_cancel]
    exact mem_slots_cons.mpr (.inl ⟨_, v, h, by rw [List.length_map]⟩)

/-- What a frame is entered with is in the registers of the caller. -/
theorem footprint_enters {function : UInt32} {argc : ℕ} {dst : UInt8} {args : List Value}
    {frame : Frame} (hargs : vm.gather dst 0 argc = .ok args)
    (h : enter vm.chunk function args (some dst) = .ok frame) :
    footprint (Function.update places vm.frames.length
      fun i => places (vm.frames.length - 1) (dst.toNat + i)) (frame.registers :: vm.files) ≤
      footprint places vm.files := by
  have hlen : vm.files.length = vm.frames.length := List.length_map ..
  refine footprint_le fun slot hslot hbuffer => ?_
  obtain ⟨i, v, hv, rfl⟩ | hslot := mem_slots_cons.mp hslot
  · obtain hv | rfl := enter_get h hv
    · rw [hlen, Function.update_self]
      obtain ⟨reg, hreg, hpeek⟩ := gather_get hargs hv
      rw [Nat.zero_add] at hreg
      rw [← hreg]
      exact mem_slots_of_peekReg hpeek
    · exact absurd rfl hbuffer
  · rwa [slots_congr fun depth hlt => Function.update_of_ne (by omega) ..] at hslot

/-- A store in the top frame adds the buffer that it stores. -/
theorem slots_setReg (places : Places) {reg : UInt8} {v : Value}
    (h : vm.setReg host reg v = (.ok (), vm'))
    (address : ℕ) :
    slots (places.put (vm.frames.length - 1) reg.toNat address) vm'.files ⊆
      (address, v) :: slots places vm.files := by
  obtain ⟨frame, rest, hframes, hreg, hvm'⟩ := setReg_ok h
  have hlen : vm.frames.length - 1 = (rest.map (·.registers)).length := by
    rw [hframes, List.length_cons, List.length_map, Nat.add_sub_cancel]
  have hfiles : vm'.files = frame.registers.set reg.toNat v :: rest.map (·.registers) := by
    rw [hvm']
    rfl
  rw [hfiles, hlen, files, hframes]
  exact slots_put

theorem Covered.follows (h : Covered vm places held)
    (hpays : ∀ quota, vm.quota = some quota →
      ∃ quota', vm'.quota = some quota' ∧ quota.Pays 0 quota')
    (hfollows : Follows host vm places vm' places')
    (hfits : footprint places' vm'.files + held ≤ usizeMax) : Covered vm' places' held := by
  obtain ⟨q, hq, hlimit, hcovers⟩ := h
  -- nothing new is in the registers
  have hless (hle : footprint places' vm'.files ≤ footprint places vm.files) :
      Covered vm' places' held := by
    obtain ⟨q', hq', hpays⟩ := hpays q hq
    have hcharged := hpays.charged
    exact ⟨q', hq', hpays.bounded hlimit, by omega⟩
  cases hfollows with
  | stays hfiles => exact hless (footprint_le fun _ hslot _ => slots_suffix hfiles hslot)
  | stores hfiles hquota hstore address hsame =>
    rename_i vm₁ reg v
    obtain ⟨q', hq', -, hpaid⟩ :=
      vm₁.pays_setReg host reg v (hquota.trans hq)
    rw [hstore] at hq' hpaid
    have hadds := slots_setReg places hstore address
    obtain ⟨haliased, hpeek⟩ | hpaid := hpaid rfl
    · -- the buffer is in the register already
      refine hless (footprint_le fun slot hslot _ => slots_suffix hfiles ?_)
      obtain rfl | hslot := List.mem_cons.mp (hadds hslot)
      · rw [hsame haliased hpeek]
        exact mem_slots_of_peekReg hpeek
      · exact hslot
    · have hless : footprint places vm₁.files ≤ footprint places vm.files :=
        footprint_le fun _ hslot _ => slots_suffix hfiles hslot
      have hmore := footprint_le_add hadds
      have hcharged := hpaid.charged
      exact ⟨q', hq', hpaid.bounded hlimit, by omega⟩
  | enters hargs henter hfiles =>
    rw [hfiles] at hless
    exact hless (footprint_enters hargs henter)

theorem Reaches.covered (h : Reaches vm places held) : Covered vm places held := by
  induction h with
  | attached hquota h places hfits =>
    rename_i vm vm' quota
    obtain ⟨q', hcharge, h⟩ := of_bind_ok h
    cases h
    have hpays := pays_chargeAll hcharge
    have hsum := footprint_le_sum places vm.files
    have hcharged := hpays.charged
    rw [files, ← List.flatMap_def] at hsum
    refine ⟨q', rfl, hpays.bounded hquota, ?_⟩
    have hfits : footprint places vm.files ≤ usizeMax := hfits
    show footprint places vm.files + 0 ≤ q'.memUsed
    rw [files] at hfits ⊢
    omega
  | step h host hfollows hfits ih => exact ih.follows (fun q hq => pays_step hq host) hfollows hfits
  | resumeWith h host reg v hfollows hfits ih =>
    exact ih.follows (fun q hq => pays_of_setReg hq rfl rfl) hfollows hfits
  | alloc h hquota halloc hfits ih =>
    rename_i vm places held q q' bytes
    obtain ⟨q₁, hq₁, hlimit, hcovers⟩ := ih
    obtain rfl : q₁ = q := Option.some.inj (hq₁.symm.trans hquota)
    have hpays := FlowQuota.pays_alloc halloc
    have hcharged := hpays.charged
    refine ⟨q', rfl, hpays.bounded hlimit, ?_⟩
    show footprint places vm.files + (held + bytes) ≤ q'.memUsed
    omega
  | free h hbytes ih =>
    rename_i vm places held bytes
    obtain ⟨q, hq, hlimit, hcovers⟩ := ih
    refine ⟨q.free bytes, congrArg (Option.map (FlowQuota.free · bytes)) hq,
      (Nat.sub_le ..).trans hlimit, ?_⟩
    show footprint places vm.files + (held - bytes) ≤ q.memUsed - bytes
    omega

/-- **The heap quota really bounds register memory.** -/
theorem heap_bounded (h : Reaches vm places held) :
    ∃ quota, vm.quota = some quota ∧ quota.memUsed ≤ quota.memLimit ∧
      footprint places vm.files ≤ quota.memUsed ∧
      ∀ host reg v fault vm', vm.setReg host reg v = (.error fault, vm') →
        vm'.frames = vm.frames := by
  obtain ⟨q, hq, hlimit, hcovers⟩ := h.covered
  refine ⟨q, hq, hlimit, by omega, ?_⟩
  intro host reg v fault vm' hrefused
  obtain ⟨⟨quota, rfl⟩, -⟩ := setReg_error hrefused
  rfl

/-- A flow with a constant in two registers. -/
def copies : Chunk where
  name := "copies"
  constants := [.str "shared"]
  code := [.aImm .loadConst 0 0, .abc .move 1 0 0, .nullary .halt]
  functions := [⟨"main", 0, 0, 2⟩]

/-- A flow at the start of it, which may hold 64 bytes. -/
def copiesVm : Vm :=
  ⟨copies, [], ⟨false, ⟨[]⟩, 0, 0, 0, 0⟩, [⟨0, 0, [.unit, .unit], none⟩], 0, 1, some ⟨1000, 64, 0⟩⟩

theorem heap_bounded_copies :
    let host : Host := ⟨0, false, fun _ => 0⟩
    let vm := ((copiesVm.step host).2.step host).2
    let places := (Places.put (fun _ _ => 0) 0 0 7).put 0 1 7
    vm.files = [[.str "shared", .str "shared"]] ∧ footprint places vm.files = 6 ∧
      ∃ quota, vm.quota = some quota ∧ quota.memUsed ≤ quota.memLimit ∧
        footprint places vm.files ≤ quota.memUsed := by
  intro host vm places
  have hattached : Reaches copiesVm (fun _ _ => 0) 0 :=
    .attached (by decide) (rfl : copiesVm.setQuota ⟨1000, 64, 0⟩ = .ok copiesVm) _
      (by decide)
  have hfiles : vm.files = [[.str "shared", .str "shared"]] := rfl
  have hloaded : copiesVm.fetched.setReg host 0 (.str "shared") =
      (.ok (), (copiesVm.step host).2) := rfl
  have hmoved : (copiesVm.step host).2.fetched.setReg host 1 (.str "shared") = (.ok (), vm) := rfl
  have hload : Follows host copiesVm (fun _ _ => 0) (copiesVm.step host).2
      (Places.put (fun _ _ => 0) 0 0 7) :=
    .stores (fetched_files ▸ List.suffix_refl _) fetched_quota hloaded 7 (by simp [host])
  have hmove : Follows host (copiesVm.step host).2 (Places.put (fun _ _ => 0) 0 0 7) vm places :=
    .stores (fetched_files ▸ List.suffix_refl _) fetched_quota hmoved 7 (by simp [host])
  have hfirst := hattached.step host hload (by decide +kernel)
  have hsecond := hfirst.step host hmove (by decide +kernel)
  obtain ⟨quota, hquota, hlimit, hcovers, -⟩ := heap_bounded hsecond
  exact ⟨hfiles, by decide +kernel, quota, hquota, hlimit, hcovers⟩

end Vm

end Byteflow
