import Byteflow.Bytecode.Layout

/-!
# Linked programs

The functions of a `Module` stand one after the other in its chunk (`Module.function`), each laid
out from its entry on. So the chunk passes the verifier: its jumps stay inside a function, its
constants are integers, and its calls name functions of the table.
-/

namespace Byteflow

namespace Source

open ChunkBuilder (Placed)

/-! ## One function -/

theorem Retouches.getElem?_of_ne {i j : ℕ} {fs fs' : List FunctionDef} (h : Retouches i fs fs')
    (hj : j ≠ i) : fs'[j]? = fs[j]? := by
  cases hd' : fs'[j]? with
  | some d' =>
    obtain ⟨d, hd, -, -, -, heq⟩ := h.2 j d' hd'
    rw [hd, heq hj]
  | none => rw [List.getElem?_eq_none (h.1 ▸ List.getElem?_eq_none_iff.mp hd')]

namespace Stmt

theorem one_le_size (s : Stmt) : 1 ≤ s.size := by
  cases s with
  | whileLt => exact Nat.le_add_left _ _
  | eqImm | addImm => exact Nat.le_succ 1
  | _ => exact le_rfl

end Stmt

theorem Def.one_le_size (d : Def) : 1 ≤ Stmt.sizeAll d.body := by
  have hends := d.ends
  cases hbody : d.body with
  | nil =>
    rw [hbody] at hends
    cases hends
  | cons s ss => exact s.one_le_size.trans (Nat.le_add_right _ _)

/-- The first registers are the parameters. -/
theorem params_lt {arity : UInt8} {r : Reg} (h : r ∈ params arity) :
    r.index.toNat < arity.toNat := by
  obtain ⟨i, hi, rfl⟩ := List.mem_map.mp h
  have hi : i < arity.toNat := List.mem_range.mp hi
  show (UInt8.ofNat i).toNat < _
  rwa [UInt8.toNat_ofNat_of_lt' (hi.trans arity.toNat_lt)]

theorem length_params (arity : UInt8) : (params arity).length = arity.toNat := by
  unfold params
  rw [List.length_map, List.length_range]

theorem nodup_params (arity : UInt8) : (params arity).Nodup := by
  refine List.pairwise_map.mpr (List.nodup_range.imp_of_mem fun hi hj hne heq => hne ?_)
  have htoNat := congrArg (fun r : Reg => r.index.toNat) heq
  rwa [UInt8.toNat_ofNat_of_lt' ((List.mem_range.mp hi).trans arity.toNat_lt),
    UInt8.toNat_ofNat_of_lt' ((List.mem_range.mp hj).trans arity.toNat_lt)] at htoNat

/-- What is asked for when a function is opened. -/
def Def.opened (d : Def) : Demand := ⟨(max d.arity 4).toNat, false⟩

theorem Def.arity_le (d : Def) : d.arity.toNat ≤ d.opened.width := by
  show d.arity.toNat ≤ (if d.arity ≤ 4 then 4 else d.arity).toNat
  split_ifs with h
  · exact UInt8.le_iff_toNat_le.mp h
  · exact le_rfl

/-- The frame of a function, from what its body asks for. -/
def Def.width (d : Def) : ℕ := (Stmt.demandAll d.body d.opened).width

theorem Def.arity_le_width (d : Def) : d.arity.toNat ≤ d.width :=
  d.arity_le.trans (Stmt.le_demandAll d.body _)

theorem ready_open {p : Program} (hplaced : Placed p.inner)
    (hlabel : p.inner.nextLabel.toNat ≤ p.inner.code.length)
    (hcount : p.inner.functions.length < 2 ^ 32) (d : Def) :
    Ready (Fn.open p.inner d.name d.arity) d.opened (params d.arity) where
  allocated := Fn.allocated_openWith _ _ _ _
  frame := by
    show ((p.inner.functions ++ [_])[(UInt32.ofNat p.inner.functions.length).toNat]?.map
      FunctionDef.numRegisters).getD 0 = max d.arity 4
    rw [UInt32.toNat_ofNat_of_lt' hcount, List.getElem?_concat_length]
    rfl
  nodup := nodup_params d.arity
  below _ hr := (params_lt hr).trans_le d.arity_le
  temp _ ht := by cases ht
  placed := hplaced.apply (.beginFunction d.name d.arity (max d.arity 4))
  label := hlabel

/-! ## All functions -/

/-- The entry of a function in the table, and its code from there on, however the chunk grows. -/
structure Def.Stands (d : Def) (b : ChunkBuilder) (f : FunctionDef) : Prop where
  name : f.name = d.name
  arity : f.arity = d.arity
  width : f.numRegisters.toNat = d.width
  inside : f.entry.toNat + Stmt.sizeAll d.body ≤ b.code.length
  laid : ∀ b', Placed b' → b'.code.length < 2 ^ 31 → Grows 0 b b' → ∃ regs,
    LaidAll b'.finish d.width (params d.arity) f.entry.toNat d.body regs
      (f.entry.toNat + Stmt.sizeAll d.body)

theorem Def.Stands.grow {d : Def} {b b' : ChunkBuilder} {f : FunctionDef} (h : d.Stands b f)
    (hgrows : Grows 0 b b') : d.Stands b' f :=
  ⟨h.name, h.arity, h.width, h.inside.trans hgrows.code.length_le,
    fun b'' hb hsize hgrows' => h.laid b'' hb hsize (hgrows.trans hgrows')⟩

/-- A program that consists of these functions. -/
structure Built (p : Program) (defs : List Def) : Prop where
  placed : Placed p.inner
  label : p.inner.nextLabel.toNat ≤ p.inner.code.length
  pooled : Pooled p.inner
  code : p.inner.code.length = (defs.map fun d => Stmt.sizeAll d.body).sum
  functions : p.inner.functions.length = defs.length
  count : defs.length ≤ p.inner.code.length
  stands : ∀ (j : ℕ) (d : Def), defs[j]? = some d →
    ∃ f, p.inner.functions[j]? = some f ∧ d.Stands p.inner f
  covered : ∀ pc < p.inner.code.length, ∃ (j : ℕ) (d : Def) (f : FunctionDef),
    defs[j]? = some d ∧ p.inner.functions[j]? = some f ∧ f.entry.toNat ≤ pc ∧
      pc < f.entry.toNat + Stmt.sizeAll d.body

theorem built_new (name : String) : Built (.new name) [] where
  placed := ChunkBuilder.placed_new name
  label := le_rfl
  pooled := ⟨le_rfl, fun _ hv => absurd hv List.not_mem_nil⟩
  code := rfl
  functions := rfl
  count := le_rfl
  stands _ _ h := by cases h
  covered _ h := absurd h (Nat.not_lt_zero _)

/-- What assembling a function comes to. -/
theorem Built.assembles {p : Program} {defs : List Def} (h : Built p defs) (d : Def)
    (hsize : p.inner.code.length + Stmt.sizeAll d.body < 2 ^ 31) :
    Grows 0 p.inner (d.assemble p).inner ∧ Placed (d.assemble p).inner ∧
      (d.assemble p).inner.nextLabel.toNat ≤ (d.assemble p).inner.code.length ∧
      Pooled (d.assemble p).inner ∧
      (d.assemble p).inner.code.length = p.inner.code.length + Stmt.sizeAll d.body ∧
      ∃ f, (d.assemble p).inner.functions = p.inner.functions ++ [f] ∧
        f.entry.toNat = p.inner.code.length ∧ d.Stands (d.assemble p).inner f := by
  have hcount : p.inner.functions.length < 2 ^ 32 := by
    have := h.count
    have := h.functions
    omega
  have hready := ready_open h.placed h.label hcount d
  have hA := assemblesAll d.body hready (h.pooled.keep rfl le_rfl)
    ((length_params d.arity).symm ▸ d.inScope) d.fits hsize
  have hindex : (Fn.open p.inner d.name d.arity).function.toNat = p.inner.functions.length :=
    UInt32.toNat_ofNat_of_lt' hcount
  have htable : (Fn.open p.inner d.name d.arity).b.functions = p.inner.functions ++
    [⟨d.name, UInt32.ofNat p.inner.code.length, d.arity, max d.arity 4⟩] := rfl
  have hcode : (Fn.open p.inner d.name d.arity).b.code = p.inner.code := rfl
  have hgrows : Grows 0 p.inner (Fn.open p.inner d.name d.arity).b :=
    ⟨List.prefix_rfl, ⟨[], (List.append_nil _).symm, fun _ hj => absurd hj List.not_mem_nil⟩,
      le_rfl, fun _ _ _ => rfl, List.prefix_rfl⟩
  have hinner : (d.assemble p).inner = ((Stmt.assembleAll (params d.arity) d.body).run
    (Fn.open p.inner d.name d.arity)).2.b := rfl
  rw [hinner]
  generalize Fn.open p.inner d.name d.arity = f at *
  obtain ⟨hready', -, hlen, hpooled, hgrows', hfunction, hfunctions, hlaid⟩ := hA
  generalize (Stmt.assembleAll (params d.arity) d.body).run f = out at *
  rw [hcode] at hlen
  refine ⟨hgrows.trans hgrows', hready'.placed, hready'.label, hpooled, hlen, ?_⟩
  have hlength : out.2.b.functions.length = p.inner.functions.length + 1 := by
    rw [hfunctions.1, htable, List.length_append]
    rfl
  obtain ⟨f', hf'⟩ : ∃ f', out.2.b.functions[p.inner.functions.length]? = some f' :=
    ⟨_, List.getElem?_eq_getElem (hlength ▸ Nat.lt_succ_self _)⟩
  obtain ⟨f₀, hf₀, hname, hentry, harity, -⟩ := hfunctions.2 _ _ hf'
  rw [htable, List.getElem?_concat_length] at hf₀
  cases hf₀
  have hstart : f'.entry.toNat = p.inner.code.length := by
    rw [hentry]
    exact UInt32.toNat_ofNat_of_lt' (by show p.inner.code.length < 2 ^ 32; omega)
  refine ⟨f', List.ext_getElem? fun j => ?_, hstart, ⟨hname, harity, ?_, by omega, ?_⟩⟩
  · rcases lt_trichotomy j p.inner.functions.length with hj | rfl | hj
    · rw [hfunctions.getElem?_of_ne (hindex ▸ hj.ne), htable, List.getElem?_append_left hj,
        List.getElem?_append_left hj]
    · rw [hf', List.getElem?_concat_length]
    · rw [List.getElem?_eq_none (hlength ▸ hj), List.getElem?_eq_none]
      rw [List.length_append]
      exact hj
  · have hframe := hready'.frame
    have hnext := hready'.allocated.next
    unfold Fn.numRegisters at hframe
    rw [hfunction, hindex, hf'] at hframe
    have hreg : f'.numRegisters = out.2.nextReg := hframe
    rw [hreg, hnext]
    exact Nat.min_eq_left d.fits
  · intro b' hb' hsize' hgrows''
    rw [hstart, ← hcode]
    exact ⟨out.1, hlaid b' hb' hsize' (hgrows''.mono (Nat.zero_le _)) d.width le_rfl⟩

/-- One more function. -/
theorem Built.function {p : Program} {defs : List Def} (h : Built p defs) (d : Def)
    (hsize : p.inner.code.length + Stmt.sizeAll d.body < 2 ^ 31) :
    Built (d.assemble p) (defs ++ [d]) := by
  obtain ⟨hgrows, hplaced, hlabel, hpooled, hlen, f, htable, hentry, hstands⟩ := h.assembles d hsize
  have hone := d.one_le_size
  have hcount := h.count
  refine ⟨hplaced, hlabel, hpooled, ?_, ?_, ?_, fun j d' hd' => ?_, fun pc hpc => ?_⟩
  · rw [hlen, h.code, List.map_append, List.sum_append]
    rfl
  · rw [htable, List.length_append, List.length_append, h.functions]
    rfl
  · rw [List.length_append, List.length_singleton]
    omega
  · rw [htable]
    rcases lt_trichotomy j defs.length with hj | rfl | hj
    · rw [List.getElem?_append_left hj] at hd'
      obtain ⟨f', hf', hstands'⟩ := h.stands j d' hd'
      exact ⟨f', List.getElem?_append_left (h.functions ▸ hj) ▸ hf', hstands'.grow hgrows⟩
    · rw [List.getElem?_concat_length] at hd'
      cases hd'
      exact ⟨f, h.functions ▸ List.getElem?_concat_length, hstands⟩
    · rw [List.getElem?_eq_none (by rw [List.length_append]; exact hj)] at hd'
      cases hd'
  · rw [htable]
    rcases lt_or_ge pc p.inner.code.length with hpc' | hpc'
    · obtain ⟨j, d', f', hd', hf', hrange⟩ := h.covered pc hpc'
      have hj := (List.getElem?_eq_some_iff.mp hd').1
      exact ⟨j, d', f', List.getElem?_append_left hj ▸ hd',
        List.getElem?_append_left (h.functions ▸ hj) ▸ hf', hrange⟩
    · exact ⟨defs.length, d, f, List.getElem?_concat_length,
        h.functions ▸ List.getElem?_concat_length, hentry ▸ hpc', by omega⟩

theorem Built.foldl {p : Program} {defs : List Def} (h : Built p defs) (rest : List Def)
    (hsize : p.inner.code.length + (rest.map fun d => Stmt.sizeAll d.body).sum < 2 ^ 31) :
    Built (rest.foldl Def.assemble p) (defs ++ rest) := by
  induction rest generalizing p defs with
  | nil => rwa [List.append_nil]
  | cons d rest ih =>
    rw [List.map_cons, List.sum_cons, ← Nat.add_assoc] at hsize
    have hd := h.function d ((Nat.le_add_right _ _).trans_lt hsize)
    have hlen : (d.assemble p).inner.code.length =
        p.inner.code.length + Stmt.sizeAll d.body := (h.assembles d
      ((Nat.le_add_right _ _).trans_lt hsize)).2.2.2.2.1
    have hrest := ih hd (hlen ▸ hsize)
    rwa [List.append_assoc] at hrest

theorem Module.built (m : Module) : Built m.program m.defs :=
  (built_new m.name).foldl m.defs (by
    rw [show (Program.new m.name).inner.code.length = 0 from rfl, Nat.zero_add]
    exact m.small)

theorem Module.length_code_lt (m : Module) : m.chunk.code.length < 2 ^ 31 := by
  rw [show m.chunk.code.length = m.program.inner.code.length from
    ChunkBuilder.length_finish _, m.built.code]
  exact m.small

/-- **Functions.** Every function stands in the table under its index, with its code. -/
theorem Module.function (m : Module) {j : ℕ} {d : Def} (hd : m.defs[j]? = some d) :
    ∃ f regs, m.chunk.functions[j]? = some f ∧ f.name = d.name ∧ f.arity = d.arity ∧
      f.numRegisters.toNat = d.width ∧
      f.entry.toNat + Stmt.sizeAll d.body ≤ m.chunk.code.length ∧
      LaidAll m.chunk d.width (params d.arity) f.entry.toNat d.body regs
        (f.entry.toNat + Stmt.sizeAll d.body) := by
  obtain ⟨f, hf, hstands⟩ := m.built.stands j d hd
  have hlen : m.chunk.code.length = m.program.inner.code.length := ChunkBuilder.length_finish _
  have hsmall := m.length_code_lt
  obtain ⟨regs, hlaid⟩ := hstands.laid m.program.inner m.built.placed (hlen ▸ hsmall) (.refl _ _)
  exact ⟨f, regs, hf, hstands.name, hstands.arity, hstands.width, hlen ▸ hstands.inside, hlaid⟩

/-! ## Verification -/

theorem checkEach_ok {α ε : Type} {check : ℕ → α → Except ε Unit} {as : List α}
    (h : ∀ i a, as[i]? = some a → check i a = .ok ()) : checkEach check 0 as = .ok () := by
  cases hcheck : checkEach check 0 as with
  | ok => rfl
  | error e =>
    obtain ⟨i, a, ha, herror⟩ := error_of_checkEach hcheck
    rw [Nat.zero_add, h i a ha] at herror
    cases herror

/-- Instructions that the verifier accepts, on every address from one to another. -/
def Accepted (chunk : Chunk) (pc pc' : ℕ) : Prop :=
  ∀ i, pc ≤ i → i < pc' → ∃ instr, chunk.code[i]? = some instr ∧
    chunk.verifyInstruction i instr = .ok ()

theorem verify_jump {chunk : Chunk} {pc target : ℕ} {instr : Instruction}
    (hop : instr.op = .jump ∨ instr.op = .branch) (hleads : Leads pc instr.imm target)
    (hpc : pc < 2 ^ 31) (htarget : target ≤ chunk.code.length)
    (hsize : chunk.code.length < 2 ^ 31) :
    chunk.verifyInstruction pc instr = .ok () := by
  have hle := instr.imm.le_toInt
  have hlt := instr.imm.toInt_lt
  have hin : ¬((pc : ℤ) + 1 + instr.imm.toInt < 0 ∨
      (chunk.code.length : ℤ) < pc + 1 + instr.imm.toInt) := by
    unfold Leads at hleads
    omega
  unfold Chunk.verifyInstruction
  rcases hop with hop | hop <;> rw [hop] <;> exact if_neg hin

theorem verify_code {chunk : Chunk} {s : Stmt}
    (htargets : ∀ function ∈ s.targets, function.toNat < chunk.functions.length)
    {konst : UInt32} (hkonst : ∀ n, s = .loadInt n → konst.toNat < chunk.constants.length)
    {reg : ℕ → Reg} {dst temp : Reg} {instr : Instruction}
    (hi : instr ∈ s.code reg dst temp konst) (i : ℕ) :
    chunk.verifyInstruction i instr = .ok () := by
  cases s with
  | loadInt n =>
    obtain rfl := List.mem_singleton.mp hi
    exact if_neg (Nat.not_le.mpr (hkonst n rfl))
  | call function =>
    obtain rfl := List.mem_singleton.mp hi
    exact if_neg (Nat.not_le.mpr (htargets function (List.mem_singleton_self _)))
  | effect e =>
    obtain rfl := List.mem_singleton.mp hi
    cases e with
    | spawnWithRights function rights =>
      exact if_neg (Nat.not_le.mpr (htargets function (List.mem_singleton_self _)))
    | _ => rfl
  | eqImm | addImm =>
    rcases List.mem_cons.mp hi with rfl | hi
    · rfl
    · obtain rfl := List.mem_singleton.mp hi
      rfl
  | whileLt => cases hi
  | binop op =>
    obtain rfl := List.mem_singleton.mp hi
    cases op <;> rfl
  | _ =>
    obtain rfl := List.mem_singleton.mp hi
    rfl

mutual

theorem Laid.le {chunk : Chunk} {width pc pc' : ℕ} {regs regs' : List Reg} {s : Stmt}
    (h : Laid chunk width regs pc s regs' pc') : pc ≤ pc' := by
  cases h with
  | plain => exact Nat.le_add_right _ _
  | whileLt _ _ _ _ _ hbody =>
    have := hbody.le
    omega

theorem LaidAll.le {chunk : Chunk} {width pc pc' : ℕ} {regs regs' : List Reg} {ss : List Stmt}
    (h : LaidAll chunk width regs pc ss regs' pc') : pc ≤ pc' := by
  cases h with
  | nil => exact le_rfl
  | cons hs hrest => exact hs.le.trans hrest.le

end

theorem Accepted.trans {chunk : Chunk} {pc pc₁ pc' : ℕ} (h : Accepted chunk pc pc₁)
    (h' : Accepted chunk pc₁ pc') : Accepted chunk pc pc' := fun i hge hlt =>
  (lt_or_ge i pc₁).elim (h i hge) fun hge' => h' i hge' hlt

mutual

theorem Laid.accepted {chunk : Chunk} (hsize : chunk.code.length < 2 ^ 31) {width pc pc' : ℕ}
    {regs regs' : List Reg} {s : Stmt} (h : Laid chunk width regs pc s regs' pc')
    (hend : pc' ≤ chunk.code.length)
    (htargets : ∀ function ∈ s.targets, function.toNat < chunk.functions.length) :
    Accepted chunk pc pc' := by
  cases h with
  | @plain _ _ _ hs _ dst temp konst _ _ hkonst hcode =>
    intro i hge hlt
    have hin : i - pc < (s.code (Stmt.reg regs) dst temp konst).length := by
      rw [Stmt.length_code hs]
      omega
    have hinstr := hcode (i - pc) _ (List.getElem?_eq_getElem hin)
    rw [Nat.add_sub_cancel' hge] at hinstr
    exact ⟨_, hinstr, verify_code htargets
      (fun n hn => (List.getElem?_eq_some_iff.mp (hkonst n hn)).1) (List.getElem_mem hin) i⟩
  | whileLt _ _ _ hcode hout hbody hjump hback =>
    have hle := hbody.le
    have hinner := hbody.accepted hsize (by omega) htargets
    intro i hge hlt
    rcases lt_trichotomy i (pc + 1) with hi | rfl | hi
    · obtain rfl : i = pc := by omega
      exact ⟨_, hcode 0 _ rfl, rfl⟩
    · exact ⟨_, hcode 1 _ rfl, verify_jump (.inr rfl) hout (by omega) hend hsize⟩
    · rcases Nat.lt_or_eq_of_le (Nat.le_of_lt_succ hlt) with hi' | rfl
      · exact hinner i hi hi'
      · exact ⟨_, hjump, verify_jump (.inl rfl) hback (by omega) (by omega) hsize⟩

theorem LaidAll.accepted {chunk : Chunk} (hsize : chunk.code.length < 2 ^ 31) {width pc pc' : ℕ}
    {regs regs' : List Reg} {ss : List Stmt} (h : LaidAll chunk width regs pc ss regs' pc')
    (hend : pc' ≤ chunk.code.length)
    (htargets : ∀ function ∈ Stmt.targetsAll ss, function.toNat < chunk.functions.length) :
    Accepted chunk pc pc' := by
  cases h with
  | nil => exact fun i hge hlt => absurd hge (Nat.not_le.mpr hlt)
  | cons hs hrest =>
    have hfirst := hs.accepted hsize (hrest.le.trans hend) fun t ht =>
      htargets t (List.mem_append_left _ ht)
    exact hfirst.trans (hrest.accepted hsize hend fun t ht =>
      htargets t (List.mem_append_right _ ht))

end

/-- **Verification.** The chunk of a program is accepted, also from a source that is not
trusted. -/
theorem Module.verified (m : Module) (trust : TrustLevel) : m.chunk.verifyWith trust = .ok () := by
  have hsize := m.length_code_lt
  have hlen : m.chunk.code.length = m.program.inner.code.length := ChunkBuilder.length_finish _
  have hcount : m.chunk.functions.length = m.defs.length := m.built.functions
  have hne : m.chunk.functions ≠ [] := fun hnil => m.main (List.length_eq_zero_iff.mp (by
    rw [← hcount, hnil]
    rfl))
  have hconstants : checkEach (validateConstant trust) 0 m.chunk.constants = .ok () := by
    refine checkEach_ok fun i v hv => ?_
    obtain ⟨n, rfl⟩ := m.built.pooled.ints v (List.mem_of_getElem? hv)
    cases trust <;> rfl
  have hfunctions : checkEach m.chunk.verifyFunction 0 m.chunk.functions = .ok () := by
    refine checkEach_ok fun i f hf => ?_
    have hi : i < m.defs.length := hcount ▸ (List.getElem?_eq_some_iff.mp hf).1
    obtain ⟨f', regs, hf', -, harity, hwidth, hend, -⟩ :=
      m.function (List.getElem?_eq_getElem hi)
    rw [hf] at hf'
    cases hf'
    have hone := m.defs[i].one_le_size
    have hle := m.defs[i].arity_le_width
    unfold Chunk.verifyFunction
    rw [if_neg (by omega), if_neg]
    rw [UInt8.lt_iff_toNat_lt, hwidth, harity]
    omega
  have hcode : checkEach m.chunk.verifyInstruction 0 m.chunk.code = .ok () := by
    refine checkEach_ok fun i instr hi => ?_
    obtain ⟨j, d, f, hd, hf, hge, hlt⟩ :=
      m.built.covered i (hlen ▸ (List.getElem?_eq_some_iff.mp hi).1)
    obtain ⟨f', regs, hf', -, -, -, hend, hlaid⟩ := m.function hd
    rw [show m.chunk.functions[j]? = some f from hf] at hf'
    cases hf'
    obtain ⟨instr', hi', hok⟩ := hlaid.accepted hsize hend (fun t ht => hcount ▸
      m.calls d (List.mem_of_getElem? hd) t ht) i hge hlt
    rw [hi] at hi'
    cases hi'
    exact hok
  unfold Chunk.verifyWith
  rw [if_neg hne, hconstants, hfunctions, hcode]
  rfl

end Source

end Byteflow
