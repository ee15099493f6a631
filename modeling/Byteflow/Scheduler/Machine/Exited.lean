import Byteflow.Scheduler.Machine.Carried
import Byteflow.Scheduler.Machine.Exit

/-!
# Who has exited

A flow counts as exited from the moment its finalization begins (`exits`). The scheduler builds a
`DOWN`, or the notice that the target of an `Ask` is gone, only for flows that have exited: it does
so in their finalization, or after it found a flow unregistered that once was live (`Honest`).
-/

namespace Byteflow

/-- The flow that an `Ask` waits for, after its hop was refused at first. -/
def PendingSend.Awaits (W : FlowId → Prop) : PendingSend → Prop
  | .fireAndForget => True
  | .ask _ _ target _ => W target

theorem PendingSend.Awaits.mono {W W' : FlowId → Prop} {pending : PendingSend}
    (h : pending.Awaits W) (hW : ∀ id, W id → W' id) : pending.Awaits W' := by
  cases pending with
  | fireAndForget => trivial
  | ask destReg requestId target timeout => exact hW _ h

namespace Machine

variable {s : State} {W X W' X' : FlowId → Prop}

/-- The flow whose finalization begins in a step. -/
def exits (s : State) (ti : ℕ × Input) : List FlowId :=
  match s.threads ti.1 with
  | .fin .killTake cur _ :: _ => if cur.id = FlowId.host then [] else [cur.id]
  | _ => []

/-- The target of an `Ask` that the VM makes. -/
def VmResult.Awaits (W : FlowId → Prop) : VmResult → Prop
  | .ask _ target _ _ _ => W target
  | _ => True

/-- A refused sender awaits one of `W`. -/
def AwaitsIfRefused (W : FlowId → Prop) (flow : Flow Hop) : Prop :=
  ∀ pending, flow.pendingSend = some pending → pending.Awaits W

def FinStage.events : FinStage → List DownEvent
  | .downs events => events
  | _ => []

/-- Whom the frame takes for one that was live is in `W`, and whom it takes for one that has exited
is in `X`. -/
def Frame.Honest (W X : FlowId → Prop) : Frame → Prop
  | .send stage flow out =>
    out.pending.Awaits W ∧ (stage = .lookup ∨ stage = .push ∨ AwaitsIfRefused W flow)
  | .admitted sender => AwaitsIfRefused W sender
  | .ask _ _ wait => W wait.target
  | .askRecheck _ wait _ => W wait.target
  | .askTake _ wait => X wait.target
  | .fin stage cur _ => (stage = .killTake ∨ X cur.id) ∧ ∀ event ∈ stage.events, X event.target
  | .kill _ _ _ next => ∀ cur, next.exiting = some cur → X cur.id
  | .down event => X event.target
  | .relateMake (.monitor _ target) => W target
  | .monitorRecheck _ _ target => W target
  | .monitorDrop _ _ target => X target
  | _ => True

/-- What the threads and the waiting senders take for granted holds. -/
structure Honest (W X : FlowId → Prop) (s : State) : Prop where
  frames : ∀ f ∈ s.frames, f.Honest W X
  waiting : ∀ id, ∀ w ∈ (s.shared.mailboxes id).waitingSenders, AwaitsIfRefused W w.flow

theorem honest_init (W X : FlowId → Prop) (config : MailboxConfig) :
    Honest W X (State.init config) where
  frames := fun _ hf => by obtain ⟨t, hf⟩ := hf; cases hf
  waiting := fun _ _ hw => by cases hw

theorem AwaitsIfRefused.mono {flow : Flow Hop} (h : AwaitsIfRefused W flow)
    (hW : ∀ id, W id → W' id) : AwaitsIfRefused W' flow :=
  fun pending hp => (h pending hp).mono hW

theorem Frame.Honest.mono {f : Frame} (h : f.Honest W X) (hW : ∀ id, W id → W' id)
    (hX : ∀ id, X id → X' id) : f.Honest W' X' := by
  cases f with
  | send stage flow out =>
    exact ⟨h.1.mono hW, h.2.imp_right fun h => h.imp_right fun h => h.mono hW⟩
  | admitted sender => exact AwaitsIfRefused.mono h hW
  | ask stage flow wait => exact hW _ h
  | askRecheck asker wait epoch => exact hW _ h
  | askTake asker wait => exact hX _ h
  | fin stage cur work => exact ⟨h.1.imp_right (hX _), fun event he => hX _ (h.2 event he)⟩
  | kill stage id reason next => exact fun cur hcur => hX _ (h cur hcur)
  | down event => exact hX _ h
  | relateMake relation =>
    cases relation with
    | monitor owner target => exact hW _ h
    | _ => trivial
  | monitorRecheck monitor owner target => exact hW _ h
  | monitorDrop monitor owner target => exact hX _ h
  | _ => trivial

theorem Frame.Plain.honest {g : Frame} (h : g.Plain) : g.Honest W X := by
  cases g <;> first | exact h.elim | trivial

/-- A new `send` frame awaits what the VM asks. -/
theorem awaits_of_effect {σ : Shared} {flow flow' : Flow Hop} {result : VmResult}
    {stage : SendStage} {out : Outgoing} (hresult : result.Awaits W)
    (hg : .send stage flow' out ∈ (σ.exec (effect flow result)).2) : out.pending.Awaits W := by
  cases effects hg with
  | send target message replyCap => trivial
  | ask destReg target request replyCap timeout => exact hresult

/-- The events of an exit are about the flow that exits. -/
theorem target_of_notify {m : MonitorTable} {target : FlowId} {reason : FlowExitReason}
    {event : DownEvent} (h : event ∈ (m.notifyTargetExit target reason).2) :
    event.target = target := by
  obtain ⟨e, -, rfl⟩ := List.mem_map.mp h
  rfl

theorem honest_fin {stage : FinStage} {cur : PendingExit} {work : List PendingExit}
    (h : X cur.id) (hevents : stage.events = []) : (Frame.fin stage cur work).Honest W X := by
  refine ⟨.inr h, fun event he => ?_⟩
  rw [hevents] at he
  cases he

theorem honest_finStart (cur : PendingExit) (work : List PendingExit) :
    (Frame.fin .killTake cur work).Honest W X :=
  ⟨.inl rfl, fun _ he => (List.not_mem_nil he).elim⟩

/-- What the frame on top leads to is honest. -/
theorem honest_next {σ : Shared} {i : Input} {f g : Frame} (hf : f.Honest W X)
    (hlive : ∀ id, σ.directory id = true → W id)
    (hgone : ∀ id, W id → σ.directory id = false → X id)
    (hadmitted : ∀ id sender, (σ.mailboxes id).admitWaitingSender.2 = some sender →
      AwaitsIfRefused W sender)
    (hexits : ∀ cur work, f = .fin .killTake cur work → cur.id ≠ FlowId.host → X cur.id)
    (hvm : ∀ flow result, f = .run flow → i = .vm result → result.Awaits W)
    (hg : g ∈ (σ.exec (f.next i)).2) : g.Honest W X := by
  cases leads hg with
  | plain hplain => exact hplain.honest
  | @runSend flow flow' out hid hname =>
    cases i with
    | vm result => exact ⟨awaits_of_effect (hvm flow result rfl rfl) hg, .inl rfl⟩
    | _ => cases List.mem_singleton.mp hg
  | sendPush hlive => exact ⟨hf.1, .inr (.inl rfl)⟩
  | @sendReply flow out stage wait hstage hout =>
    have := hf.1
    rw [hout] at this
    exact this
  | pushRefused h =>
    refine ⟨hf.1, .inr (.inr fun pending hp => ?_)⟩
    cases hp
    exact hf.1
  | sendIndex => exact ⟨hf.1, .inr (.inr (hf.2.resolve_left (by simp) |>.resolve_left (by simp)))⟩
  | sendTarget h =>
    exact ⟨hf.1, .inr (.inr (hf.2.resolve_left (by simp) |>.resolve_left (by simp)))⟩
  | sendGone h => exact ⟨hf.1, .inr (.inr (hf.2.resolve_left (by simp) |>.resolve_left (by simp)))⟩
  | parkClosed h =>
    exact ⟨hf.1, .inr (.inr (hf.2.resolve_left (by simp) |>.resolve_left (by simp)))⟩
  | admitAdmitted h => exact hadmitted _ _ h
  | admittedAsk h => exact hf _ h
  | replyInsert h => exact hf
  | insertPark h => exact hf
  | askRecheck h => exact hf
  | recheckTake h => exact hgone _ hf h
  | @relateMake relation h =>
    cases relation with
    | monitor owner target =>
      -- the target is looked up first
      simp only [Frame.next, Shared.exec, h, if_true, Relation.second, Option.isSome_some] at hg
      cases List.mem_singleton.mp hg
    | _ => trivial
  | @relateBoth relation h =>
    cases relation with
    | monitor owner target => exact hlive _ h
    | _ => trivial
  | monitorRecheck => exact hf
  | monitorDrop h => exact hgone _ hf h
  | dropDown => exact hf
  | finNext hstage h => exact honest_finStart _ _
  | @finSendAt cur work =>
    refine honest_fin (hexits cur work rfl fun hhost => ?_) rfl
    simp only [Frame.next, FinStage.next, hhost, if_true, finNext] at hg
    split at hg
    · cases List.mem_singleton.mp hg
    · cases hg
  | finTookWake h => trivial
  | finDowns =>
    have hcur := hf.1.resolve_left (by simp)
    exact ⟨.inr hcur, fun event he => target_of_notify he ▸ hcur⟩
  | finDownEvent => exact hf.2 _ List.mem_cons_self
  | finDown =>
    exact ⟨.inr (hf.1.resolve_left (by simp)),
      fun event he => hf.2 event (List.mem_cons_of_mem _ he)⟩
  | finKill h =>
    rintro cur ⟨⟩
    exact hf.1.resolve_left (by simp)
  | finAsk | finLookup | finSenders | finWake | finRevoke | finUnregister | finOwned | finNames
  | finNotify | finLinks | finWaiters | finTook | finSender _ | finWakeStay | finPeersStay
  | finClose _ | finUnlisted _ | finWakeTake _ _ | finWakeSkip _ _ | finPeers _ =>
    exact honest_fin (hf.1.resolve_left (by simp)) rfl
  | killBack _ | killLink _ _ | killSentLink _ => exact honest_fin (hf _ rfl) rfl
  | driveFin _ _ | runFin _ _ | goneFin _ _ | insertFin _ _ _ | killFin _ _ | killSentFin _ =>
    exact honest_finStart _ _
  | killSet _ | killParked | killGet _ | killTarget _ | killSender _ | killRemove _ => exact hf
  | nameKill => rintro _ ⟨⟩
  | _ => trivial

/-- **Truth.** What the scheduler takes for granted stays true, as long as the VM asks only flows
that were live. -/
theorem Honest.step (h : Honest W X s) (ti : ℕ × Input)
    (hW : ∀ id, W id → W' id) (hX : ∀ id, X id → X' id)
    (hlive : ∀ id, s.shared.directory id = true → W id)
    (hgone : ∀ id, W id → s.shared.directory id = false → X id)
    (hexits : ∀ id ∈ exits s ti, X' id)
    (hvm : ∀ flow rest result, s.threads ti.1 = .run flow :: rest → ti.2 = .vm result →
      result.Awaits W) :
    Honest W' X' (Machine.step s ti) := by
  obtain ⟨t, i⟩ := ti
  constructor
  · intro g hg
    rcases frames_of_step hg with hg | hg
    · exact (h.frames g (mem_frames_of_others hg)).mono hW hX
    rcases next_cases s t i with ⟨f, rest, hs, hn⟩ | ⟨hs, ⟨op, -, hn⟩ | hn⟩
    · rw [hn] at hg
      have hf := h.frames f (mem_frames_of_cons hs)
      have hX'' : ∀ id, X id → X id ∨ id ∈ exits s (t, i) := fun _ => .inl
      have hnext := honest_next (hf.mono (fun _ h => h) hX'') hlive
        (fun id hw hd => .inl (hgone id hw hd)) (fun id sender ha => ?_)
        (fun cur work hfin hne => ?_)
        (fun flow result hrun hi => hvm flow rest result (hrun ▸ hs) hi) hg
      · exact hnext.mono hW fun id hid => hid.elim (hX id) (hexits id)
      · rcases (s.shared.mailboxes id).admitWaitingSender_cases with ⟨-, he⟩ |
          ⟨_, _, _, -, -, -, he⟩ | ⟨waiter, rest, capacity, -, hwait, -, he⟩ <;> rw [he] at ha <;>
          cases ha
        exact h.waiting id waiter (hwait ▸ List.mem_cons_self)
      · refine .inr ?_
        unfold exits
        rw [hs, hfin]
        simp only [hne, if_false, List.mem_singleton]
    · rw [hn] at hg
      cases starts hg with
      | plain hplain => exact hplain.honest
      | kill id reason => exact nofun
      | _ => trivial
    · rw [hn] at hg
      cases hg
  · intro id w hw
    rcases step_mailbox s t i id with he | ⟨f, rest, op, hs, hwrites, he⟩
    · exact (h.waiting id w (he ▸ hw)).mono hW
    · rcases Mailbox.mem_waitingSenders_after (he ▸ hw) with hw | ⟨rfl, -⟩
      · exact (h.waiting id w hw).mono hW
      · obtain ⟨out, rfl, -, -⟩ := hwrites.of_parkSender
        have hf := (h.frames _ (mem_frames_of_cons hs)).2
        exact (hf.resolve_left nofun |>.resolve_left nofun).mono hW

end Machine

end Byteflow
