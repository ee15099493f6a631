import Byteflow.Vm.Run

/-!
# Calls and returns

Between a call and its return nothing below the callee changes, whatever happens in between: nested
calls, effects that are answered, preemption (`call_discipline`). The return changes one register of
the caller, or none if the caller cannot take the value; the flow has failed then.
-/

namespace Byteflow

namespace Vm

variable {vm : Vm} {host : Host} {dst : UInt8} {base : List Frame}

/-- The frames of the caller and below it are the base, with the callee on top. -/
def Inside (dst : UInt8) (base : List Frame) (vm : Vm) : Prop :=
  ∃ inner callee, vm.frames = inner ++ callee :: base ∧ callee.destReg = some dst

theorem Inside.length (h : Inside dst base vm) : base.length < vm.frames.length := by
  obtain ⟨inner, callee, hframes, -⟩ := h
  rw [hframes, List.length_append, List.length_cons]
  omega

/-- The matching return of a call, in a state of the callee. -/
inductive Returns (dst : UInt8) (caller : Frame) (below : List Frame) (vm : Vm) : Event → Prop
  | goesOn {host : Host} {v : Value} (hv : vm.returned = some v)
      (hresult : (vm.step host).1 = none) (hdst : dst.toNat < caller.registers.length)
      (hframes : (vm.step host).2.frames =
        { caller with registers := caller.registers.set dst.toNat v } :: below) :
      Returns dst caller below vm (.step host)
  /-- The caller has no such register, or its quota does not pay for the value. -/
  | fails {host : Host} {v : Value} (hv : vm.returned = some v) {size : UInt8}
      (hresult : (vm.step host).1 = some (.trap (.registerOutOfRange dst size)))
      (hrefused : ∃ fault, (({ vm.counted with frames := caller :: below } : Vm).setReg host dst
        v).1 = .error fault)
      (hframes : (vm.step host).2.frames = caller :: below) :
      Returns dst caller below vm (.step host)

/-- The top frame of a nonempty stack is replaced. -/
theorem Inside.top (h : Inside dst base vm) {frame frame' : Frame} {rest : List Frame}
    (hframes : vm.frames = frame :: rest) {vm' : Vm} (hf : vm'.frames = frame' :: rest)
    (hdest : frame'.destReg = frame.destReg) : Inside dst base vm' := by
  obtain ⟨inner, callee, hinner, hcallee⟩ := h
  rw [hframes] at hinner
  cases inner with
  | nil =>
    obtain ⟨rfl, rfl⟩ := List.cons.inj hinner
    exact ⟨[], frame', hf, hdest.trans hcallee⟩
  | cons g inner =>
    obtain ⟨rfl, rfl⟩ := List.cons.inj hinner
    exact ⟨frame' :: inner, callee, hf, hcallee⟩

theorem Inside.congr (h : Inside dst base vm) {vm' : Vm} (hf : vm'.frames = vm.frames) :
    Inside dst base vm' := by
  obtain ⟨inner, callee, hinner, hcallee⟩ := h
  exact ⟨inner, callee, hf.trans hinner, hcallee⟩

theorem Inside.setReg (h : Inside dst base vm) {reg : UInt8} {v : Value} {r : Except Fault Unit}
    {vm' : Vm} (hset : vm.setReg host reg v = (r, vm')) : Inside dst base vm' := by
  cases r with
  | error fault =>
    obtain ⟨⟨quota, rfl⟩, -⟩ := setReg_error hset
    exact h.congr rfl
  | ok _ =>
    obtain ⟨frame, rest, hframes, -, heq⟩ := setReg_ok hset
    exact h.top hframes (congrArg Vm.frames heq) rfl

theorem Inside.fetched (h : Inside dst base vm) {instr : Instruction}
    (hnext : vm.next = some instr) : Inside dst base vm.fetched := by
  obtain ⟨frame, rest, hframes⟩ := frames_of_next hnext
  exact h.top hframes (congrArg Vm.frames (fetched_of_frames hframes)) rfl

/-- A frame on top of the callee is popped, or the callee itself. -/
theorem Inside.pop (h : Inside dst base vm) {finished : Frame} {rest : List Frame}
    (hframes : vm.frames = finished :: rest) :
    Inside dst base { vm.counted with frames := rest } ∨
      finished.destReg = some dst ∧ rest = base := by
  obtain ⟨inner, callee, hinner, hcallee⟩ := h
  rw [hframes] at hinner
  cases inner with
  | nil =>
    obtain ⟨rfl, rfl⟩ := List.cons.inj hinner
    exact .inr ⟨hcallee, rfl⟩
  | cons g inner =>
    obtain ⟨-, rfl⟩ := List.cons.inj hinner
    exact .inl ⟨inner, callee, rfl, hcallee⟩

/-- **One instruction** of the callee, or of what it called: the base stays, or the callee
returns. -/
theorem Inside.step {caller : Frame} {below : List Frame} (h : Inside dst (caller :: below) vm)
    (host : Host) :
    Inside dst (caller :: below) (vm.step host).2 ∨ Returns dst caller below vm (.step host) := by
  have hmoves := step_moves host vm
  generalize hr : (vm.step host).1 = r, hvm : (vm.step host).2 = vm' at hmoves
  have hfresh {instr : Instruction} (hnext : vm.next = some instr) {vm₁ : Vm}
      (hvm : vm₁ = vm.fetched ∨ vm₁ = vm.fetched.freshRequestId.2) :
      Inside dst (caller :: below) vm₁ := by
    have hfetched := h.fetched hnext
    rcases hvm with rfl | rfl
    · exact hfetched
    · unfold freshRequestId
      split <;> exact hfetched.congr rfl
  cases hmoves with
  | stuck => exact .inl (h.congr rfl)
  | result hnext => exact .inl (h.fetched hnext)
  | passes hnext => exact .inl (h.fetched hnext)
  | jumps hnext hop hframes =>
    exact .inl (h.top hframes (congrArg Vm.frames (@goto_of_frames vm.counted _ _ hframes _)) rfl)
  | stores hnext reg v hvm hset => exact .inl ((hfresh hnext hvm).setReg hset)
  | refuses hnext reg v hvm hset => exact .inl ((hfresh hnext hvm).setReg hset)
  | @calls instr hnext hop hdepth args frame hargs henter =>
    obtain ⟨inner, callee, hinner, hcallee⟩ := h.fetched hnext
    exact .inl ⟨frame :: inner, callee, congrArg (frame :: ·) hinner, hcallee⟩
  | completes hframes hv hdest =>
    refine (h.pop hframes).imp_right fun ⟨hd, _⟩ => ?_
    rw [hdest] at hd
    cases hd
  | returns hframes hv hdest hset =>
    obtain hin | ⟨hd, rfl⟩ := h.pop hframes
    · exact .inl (hin.setReg hset)
    · rw [hdest] at hd
      cases hd
      obtain ⟨frame, rest, hbase, hreg, heq⟩ := setReg_ok hset
      obtain ⟨rfl, rfl⟩ := List.cons.inj hbase
      refine .inr (.goesOn hv hr hreg ?_)
      rw [hvm, heq]
  | loses hframes hv hdest hset size =>
    obtain hin | ⟨hd, rfl⟩ := h.pop hframes
    · exact .inl (hin.setReg hset)
    · rw [hdest] at hd
      cases hd
      refine .inr (.fails hv hr ⟨_, congrArg Prod.fst hset⟩ ?_)
      obtain ⟨⟨quota, heq⟩, -⟩ := setReg_error hset
      rw [hvm, heq]

theorem Inside.event {caller : Frame} {below : List Frame} (h : Inside dst (caller :: below) vm)
    (e : Event) :
    Inside dst (caller :: below) (vm.event e) ∨ Returns dst caller below vm e := by
  cases e with
  | step host => exact h.step host
  | resumeWith host reg v => exact .inl (h.setReg rfl)
  | quota quota => exact .inl (h.congr rfl)

/-- The base of the callee, up to its return. -/
theorem Inside.events {caller : Frame} {below : List Frame} (h : Inside dst (caller :: below) vm)
    {es : List Event} (hes : Schedule.Guarded Vm.event
      (fun s e => below.length + 1 < (s.event e).frames.length) vm es) :
    Inside dst (caller :: below) (vm.events es) := by
  refine hes.invariant (I := Inside dst (caller :: below)) (fun s e hdeep hs => ?_) h
  refine (hs.event e).resolve_right fun hret => ?_
  cases hret with
  | goesOn hv hr hdst hframes =>
    have hdeep : _ < (s.step _).2.frames.length := hdeep
    rw [hframes, List.length_cons] at hdeep
    omega
  | fails hv hr hrefused hframes =>
    have hdeep : _ < (s.step _).2.frames.length := hdeep
    rw [hframes, List.length_cons] at hdeep
    omega

theorem destReg_of_enter {chunk : Chunk} {function : UInt32} {args : List Value}
    {destReg : Option UInt8} {frame : Frame} (h : enter chunk function args destReg = .ok frame) :
    frame.destReg = destReg := by
  unfold enter at h
  split at h
  · cases h
  · obtain ⟨registers, _, h⟩ := of_bind_ok h
    cases h
    rfl

/-- A call that is executed pushes the callee. -/
theorem callee_of_call {function : UInt32} {argc dst : UInt8} {vm' : Vm}
    (h : (call function argc dst).runFrom vm = (.ok (), vm')) :
    ∃ callee, callee.destReg = some dst ∧ vm'.frames = callee :: vm.frames := by
  unfold call at h
  rw [Exec.runFrom_bind, Exec.runFrom_get] at h
  simp only at h
  split_ifs at h
  · cases h
  split at h
  · cases h
  · rw [Exec.runFrom_bind] at h
    cases hargs : vm.gather dst 0 argc.toNat with
    | error fault =>
      rw [hargs] at h
      cases h
    | ok args =>
      rw [hargs] at h
      simp only [trap, Exec.runFrom_pure] at h
      rw [Exec.runFrom_bind] at h
      cases hframe : enter vm.chunk function args (some dst) with
      | error fault =>
        rw [hframe] at h
        cases h
      | ok callee =>
        rw [hframe] at h
        cases h
        exact ⟨callee, destReg_of_enter hframe, rfl⟩

/-- What an executed call leads to: the callee on top of the caller, which goes on after it. -/
theorem inside_of_call {instr : Instruction} (hnext : vm.next = some instr) (hop : instr.op = .call)
    {caller : Frame} {below : List Frame} (hframes : vm.frames = caller :: below)
    (hcall : (vm.step host).1 = none) :
    Inside instr.a ({ caller with pc := caller.pc + 1 } :: below) (vm.step host).2 := by
  rw [step_of_next host hnext] at hcall ⊢
  have hexec : exec host instr = call instr.imm.toUInt32 instr.b instr.a := by
    unfold exec
    rw [hop]
  rw [hexec] at hcall ⊢
  rcases hrun : (call instr.imm.toUInt32 instr.b instr.a).runFrom vm.fetched with ⟨_ | _, vm'⟩
  · rw [hrun] at hcall
    cases hcall
  · obtain ⟨callee, hdest, hcallee⟩ := callee_of_call hrun
    rw [fetched_of_frames hframes] at hcallee
    exact ⟨[], callee, hcallee, hdest⟩

/-- Inside a call, and at its return. -/
structure Disciplined (dst : UInt8) (caller : Frame) (below : List Frame) (vm : Vm) : Prop where
  base : ∃ inner, vm.frames = inner ++ caller :: below
  returns : ∀ e, (vm.event e).frames.length ≤ below.length + 1 → Returns dst caller below vm e

/-- **Call discipline.** After a call, up to the matching return, the caller and all below it stay
as they are; the return gives the caller the value, or fails. -/
theorem call_discipline {instr : Instruction} (hnext : vm.next = some instr)
    (hop : instr.op = .call)
    {caller : Frame} {below : List Frame} (hframes : vm.frames = caller :: below)
    (hcall : (vm.step host).1 = none) {es : List Event}
    (hes : Schedule.Guarded event (fun s e => below.length + 1 < (s.event e).frames.length)
      (vm.step host).2 es) :
    Disciplined instr.a { caller with pc := caller.pc + 1 } below ((vm.step host).2.events es) := by
  have h := (inside_of_call hnext hop hframes hcall).events hes
  refine ⟨?_, fun e hdepth => (h.event e).resolve_left fun hin => ?_⟩
  · obtain ⟨inner, callee, hinner, -⟩ := h
    exact ⟨inner ++ [callee], by rw [hinner, List.append_assoc]; rfl⟩
  · have := hin.length
    rw [List.length_cons] at this
    omega

/-- A host that no native reads. -/
def stillHost : Host := ⟨0, false, fun _ => 0⟩

/-- Two functions, the second of which returns `7` to a register that the first one may lack. -/
def seven (dst : UInt8) : Chunk where
  name := "seven"
  constants := []
  code := [⟨.call, dst, 0, 0, 1⟩, .aImm .return 0 0, .aImm .loadImm 0 7, .aImm .return 0 0]
  functions := [⟨"main", 0, 0, 1⟩, ⟨"seven", 2, 0, 1⟩]

/-- A flow at the start of it. -/
def sevenVm (dst : UInt8) : Vm :=
  ⟨seven dst, [], ⟨false, ⟨[]⟩, 0, 0, 0, 0⟩, [⟨0, 0, [.unit], none⟩], 0, 1, none⟩

theorem call_discipline_seven :
    Disciplined 0 ⟨0, 1, [.unit], none⟩ []
      (((sevenVm 0).step stillHost).2.events [.step stillHost]) := by
  have hnext : (sevenVm 0).next = some ⟨.call, 0, 0, 0, 1⟩ := rfl
  have hes : Schedule.Guarded event
      (fun s e => ([] : List Frame).length + 1 < (s.event e).frames.length)
      ((sevenVm 0).step stillHost).2 [.step stillHost] := ⟨by decide, trivial⟩
  exact call_discipline hnext rfl rfl rfl hes

/-- The caller does not get the value, and the flow fails. -/
theorem return_lost :
    (seven 5).verifyWith .untrusted = .ok () ∧
      withNativeGate (seven 5) [] ⟨false, ⟨[]⟩, 0, 0, 0, 0⟩ 0 [] = .ok (sevenVm 5) ∧
      ((sevenVm 5).events [.step stillHost, .step stillHost]).returned = some (.int 7) ∧
      ((sevenVm 5).events [.step stillHost, .step stillHost, .step stillHost]).frames =
        [⟨0, 1, [.unit], none⟩] ∧
      (((sevenVm 5).events [.step stillHost, .step stillHost]).step stillHost).1 =
        some (.trap (.registerOutOfRange 5 1)) :=
  ⟨by decide, rfl, rfl, rfl, rfl⟩

end Vm

end Byteflow
