import Byteflow.Foundations.Ownership
import Byteflow.Scheduler.Machine.Step
import Mathlib.Algebra.BigOperators.Group.List.Basic
import Mathlib.Data.Multiset.OrderedMonoid
import Mathlib.Tactic.Abel

/-!
# Who holds a flow

A flow is a box that is moved: it lies in a queue, in a deadline, parked in a mailbox, in a list
of waiting senders, or in the hands of a thread. No critical section copies a box, and a spawn
makes a fresh one, so a flow is held exactly once (`run_owned`).
-/

namespace Byteflow

open Ownership

/-! ## Boxes in a mailbox -/

/-- The box of a flow. -/
def Flow.box (flow : Flow Hop) : Multiset FlowId := {flow.id}

/-- The boxes of a list. -/
def boxesOf {α : Type} (box : α → Multiset FlowId) (l : List α) : Multiset FlowId :=
  (l.map box).sum

section

variable {α : Type} {box : α → Multiset FlowId}

@[simp] theorem boxesOf_nil : boxesOf box [] = 0 := rfl

@[simp] theorem boxesOf_cons (a : α) (l : List α) :
    boxesOf box (a :: l) = box a + boxesOf box l := by simp [boxesOf]

@[simp] theorem boxesOf_append (l l' : List α) :
    boxesOf box (l ++ l') = boxesOf box l + boxesOf box l' := by simp [boxesOf]

theorem boxesOf_perm {l l' : List α} (h : l.Perm l') : boxesOf box l = boxesOf box l' :=
  (h.map box).sum_eq

theorem mem_boxesOf {l : List α} {a : FlowId} : a ∈ boxesOf box l ↔ ∃ b ∈ l, a ∈ box b := by
  induction l with
  | nil => simp
  | cons b l ih => simp [ih]

end

/-- The box of a flow that may not be there. -/
def optBox (flow : Option (Flow Hop)) : Multiset FlowId := boxesOf Flow.box flow.toList

@[simp] theorem optBox_some (flow : Flow Hop) : optBox (some flow) = flow.box := by simp [optBox]

@[simp] theorem optBox_none : optBox none = 0 := rfl

namespace Mailbox

/-- The flows that lie in a mailbox. -/
def boxes (m : Mailbox Hop) : Multiset FlowId :=
  optBox m.parked + boxesOf (·.flow.box) m.waitingSenders

/-- The flow that an operation puts in. -/
@[simp] def Op.gives : Op Hop → Multiset FlowId
  | .parkFilter flow _ => flow.box
  | .parkSender flow _ => flow.box
  | _ => 0

/-- The flows that an operation gives back. -/
def Op.yields : (op : Op Hop) → op.Result → Multiset FlowId
  | .push _, .ok (.handoff flow) => flow.box
  | .pushSystem _, .handoff flow => flow.box
  | .parkFilter _ _, .error flow => flow.box
  | .takeParkedAt _, flow => optBox flow
  | .takeParked, flow => optBox flow
  | .parkSender _ _, .closed flow => flow.box
  | .admitWaitingSender, flow => optBox flow
  | .takeWaitingSender _, flow => optBox flow
  | .close, flows => boxesOf Flow.box flows
  | _, _ => 0

/-- **A mailbox copies no flow.** -/
theorem after_boxes (m : Mailbox Hop) (op : Op Hop) :
    (m.after op).boxes + op.yields (m.result op) ≤ m.boxes + op.gives := by
  cases op with
  | push value =>
    simp only [after, result, Op.gives]
    rcases m.push_cases value with ⟨flow, hp, -, he⟩ | ⟨-, he⟩
    · simp [he, Op.yields, boxes, handOff, hp, add_comm]
    · have hne := m.enqueueLocked_ne_handoff value m.config.overflow
      have hy : (Op.push value).yields (m.enqueueLocked value m.config.overflow).2 = 0 := by
        unfold Op.yields
        split <;> simp_all
      rw [he, hy]
      simp [boxes]
  | pushSystem value =>
    simp only [after, result, Op.gives]
    rcases m.pushSystem_cases value with ⟨flow, hp, -, he⟩ | ⟨-, he⟩
    · simp [he, Op.yields, boxes, handOff, hp, add_comm]
    · simp [he, Op.yields, boxes]
  | tryPopFilter filter =>
    simp only [after, result, Op.gives]
    rcases m.tryPopFilter_cases filter with ⟨h, -, he⟩ | ⟨-, he⟩ <;> simp [he, Op.yields, boxes]
  | parkFilter flow filter =>
    simp only [after, result, Op.gives]
    rcases m.parkFilter_cases flow filter with ⟨h, -, he⟩ | ⟨-, he⟩
    · simp [he, Op.yields, boxes, Flow.box]
    · -- a flow that was parked before is dropped
      simp only [he, Op.yields, boxes, optBox_some, add_zero]
      rw [add_comm, add_assoc]
      exact le_add_self
  | takeParkedAt epoch =>
    simp only [after, result, Op.gives, Op.yields]
    rcases m.takeParkedAt_cases epoch with ⟨flow, -, hp, he⟩ | ⟨-, he⟩
    · simp [he, boxes, hp, add_comm]
    · simp [he, boxes]
  | takeParked => simp [after, result, takeParked, Op.yields, boxes, add_comm]
  | parkSender flow message =>
    simp only [after, result, Op.gives, parkSender]
    split_ifs <;> simp [Op.yields, boxes, add_assoc]
  | admitWaitingSender =>
    simp only [after, result, Op.gives, Op.yields]
    rcases m.admitWaitingSender_cases with ⟨-, he⟩ | ⟨_, _, _, -, -, -, he⟩ |
      ⟨waiter, rest, _, -, hw, -, he⟩
    · simp [he, boxes]
    · simp [he, boxes]
    · simp [he, boxes, hw, add_comm, add_left_comm]
  | takeWaitingSender sender =>
    simp only [after, result, Op.gives, Op.yields, takeWaitingSender, FirstMatch.extract_eq]
    cases hw : m.waitingSenders.find? (fun w => w.flow.id == sender) with
    | none => simp [boxes]
    | some w =>
      have hperm := @boxesOf_perm _ (·.flow.box) _ _ (FirstMatch.perm_cons_eraseP hw)
      simp only [boxes, hperm, boxesOf_cons, optBox_some, add_zero]
      rw [add_assoc, add_comm (boxesOf _ _)]
  | close =>
    simp [after, result, close, Op.yields, boxes, boxesOf, Function.comp_def]

end Mailbox

/-- The flow that lies in a deadline. -/
def TimerPayload.boxes : TimerPayload → Multiset FlowId
  | .wakeSleeper flow => flow.box
  | .wakeReceiver _ _ => 0

namespace Machine

/-! ## Boxes in the hands of a thread -/

def PendingExit.box (p : PendingExit) : Multiset FlowId := p.flow.box

@[simp] def FinStage.boxes : FinStage → Multiset FlowId
  | .senders flows => boxesOf Flow.box flows
  | _ => 0

@[simp] def KillStage.boxes : KillStage → Multiset FlowId
  | .sendAtRemove sender => sender.box
  | _ => 0

@[simp] def KillAfter.boxes : KillAfter → Multiset FlowId
  | .request => 0
  | .link cur _ work => cur.box + boxesOf PendingExit.box work

/-- The flows that a frame holds. -/
@[simp] def Frame.boxes : Frame → Multiset FlowId
  | .drive flow => flow.box
  | .run flow => flow.box
  | .send _ flow _ => flow.box
  | .receive flow _ _ => flow.box
  | .admitWaitingOn flow => flow.box
  | .admitted sender => sender.box
  | .park flow _ _ => flow.box
  | .ask _ flow _ => flow.box
  | .forget flow => flow.box
  | .wake flow => flow.box
  | .fin stage cur work => stage.boxes + (cur.box + boxesOf PendingExit.box work)
  | .kill stage _ _ next => stage.boxes + next.boxes
  | _ => 0

/-- The flows that a stack of frames holds. -/
abbrev stackBoxes (frames : List Frame) : Multiset FlowId := boxesOf Frame.boxes frames

/-! ## Actions copy no box -/

/-- With the boxes `held`, an action gives away and hands on no box twice. -/
@[simp] def Action.Conserves (held : Multiset FlowId) : Action → Prop
  | .nop k => stackBoxes k ≤ held
  | .issue _ k => ∀ hop, stackBoxes (k hop) ≤ held
  | .register k => ∀ child, stackBoxes (k child) ≤ child.box + held
  | .unregister _ k => stackBoxes k ≤ held
  | .lookup _ k => ∀ live, stackBoxes (k live) ≤ held
  | .mail _ op k => ∀ r, stackBoxes (k r) + op.gives ≤ op.yields r + held
  | .killSet _ _ k => stackBoxes k ≤ held
  | .killTake _ k => ∀ r, stackBoxes (k r) ≤ held
  | .sendAtInsert _ _ k => stackBoxes k ≤ held
  | .sendAtRemove _ k => stackBoxes k ≤ held
  | .sendAtGet _ k => ∀ r, stackBoxes (k r) ≤ held
  | .askInsert _ _ _ k => ∀ r, stackBoxes (k r) ≤ held
  | .askRemove _ k => stackBoxes k ≤ held
  | .askTake _ k => ∀ r, stackBoxes (k r) ≤ held
  | .monitorCreate _ _ k => ∀ r, stackBoxes (k r) ≤ held
  | .monitorRemove _ _ k => ∀ r, stackBoxes (k r) ≤ held
  | .monitorRemoveOwned _ k => stackBoxes k ≤ held
  | .monitorNotify _ _ k => ∀ r, stackBoxes (k r) ≤ held
  | .linkCreate _ _ k => ∀ r, stackBoxes (k r) ≤ held
  | .linkRemove _ _ k => ∀ r, stackBoxes (k r) ≤ held
  | .linkRemoveAll _ k => ∀ r, stackBoxes (k r) ≤ held
  | .nameRegister _ _ _ k => ∀ r, stackBoxes (k r) ≤ held
  | .nameUnregister _ k => stackBoxes k ≤ held
  | .nameSweep _ k => stackBoxes k ≤ held
  | .schedule entry k => stackBoxes k + entry.boxes ≤ held
  | .expire _ k => ∀ entry, stackBoxes (k entry) ≤ entry.boxes + held
  | .queue flow k => stackBoxes k + flow.box ≤ held
  | .steal _ k => ∀ flow, stackBoxes (k flow) ≤ flow.box + held

@[simp] theorem boxes_delivered (flow : Flow Hop) (out : Outgoing) :
    stackBoxes (delivered flow out) = flow.box := by
  unfold delivered
  split <;> simp

@[simp] theorem boxes_finalize (flow : Flow Hop) (outcome : FlowOutcome)
    (reason : FlowExitReason) : stackBoxes (finalize flow outcome reason) = flow.box := by
  simp [finalize, PendingExit.box]

@[simp] theorem boxes_finishFailed (flow : Flow Hop) (message : String) :
    stackBoxes (finishFailed flow message) = flow.box := boxes_finalize _ _ _

theorem boxes_finNext (work : List PendingExit) :
    stackBoxes (finNext work) = boxesOf PendingExit.box work := by
  unfold finNext
  cases h : work.getLast? with
  | none =>
    rw [List.getLast?_eq_none_iff.mp h]
    rfl
  | some cur =>
    have hsplit := List.dropLast_append_getLast? cur h
    conv_rhs => rw [← hsplit]
    simp [add_comm]

theorem boxes_resume (next : KillAfter) (reason : FlowExitReason) (found : Option (Flow Hop)) :
    stackBoxes (next.resume reason found) = optBox found + next.boxes := by
  cases next <;> cases found <;>
    simp [KillAfter.resume, PendingExit.box, add_comm, add_left_comm, add_assoc]

theorem effect_conserves (flow : Flow Hop) (r : VmResult) :
    (effect flow r).Conserves flow.box := by
  cases r with
  | monitor target =>
    simp only [effect]
    split_ifs <;> simp
  | demonitor ref =>
    intro r
    cases r <;> simp
  | link target =>
    simp only [effect]
    split_ifs
    · simp
    · intro r
      cases r <;> simp
  | unlink ref =>
    intro r
    cases r <;> simp
  | registerName name cap =>
    simp only [effect]
    split_ifs
    · simp
    · intro r
      cases r <;> simp
  | _ => simp [effect, TimerPayload.boxes, Flow.box]

theorem SendStage.next_conserves (flow : Flow Hop) (out : Outgoing) (stage : SendStage) :
    (stage.next flow out).Conserves flow.box := by
  cases stage with
  | lookup =>
    intro live
    cases live <;> simp
  | push =>
    rintro (reason | _ | _ | _ | receiver) <;>
      simp [Mailbox.Op.yields, Flow.box]
  | park =>
    rintro (_ | flow') <;> simp [Mailbox.Op.yields]
  | _ => simp [SendStage.next]

theorem AskStage.next_conserves (flow : Flow Hop) (wait : AskWait) (stage : AskStage) :
    (stage.next flow wait).Conserves flow.box := by
  cases stage with
  | reply => rintro (_ | h) <;> simp [Mailbox.Op.yields]
  | insert => intro inserted; cases inserted <;> simp
  | park =>
    rintro (flow' | epoch) <;>
      simp [Mailbox.Op.yields, Flow.box]

theorem FinStage.next_conserves (i : Input) (cur : PendingExit) (work : List PendingExit)
    (stage : FinStage) :
    (stage.next i cur work).Conserves (stage.boxes + (cur.box + boxesOf PendingExit.box work)) := by
  cases stage with
  | killTake =>
    simp only [FinStage.next]
    split_ifs <;> simp [boxes_finNext]
  | lookup =>
    intro live
    cases live <;> simp
  | close =>
    intro senders
    simp [Mailbox.Op.yields]
  | senders flows =>
    cases flows with
    | nil => simp [FinStage.next]
    | cons sender rest =>
      refine le_of_eq ?_
      simp only [boxesOf_cons, boxesOf_nil, boxesOf_append, Frame.boxes, FinStage.boxes,
        PendingExit.box]
      abel
  | wake askers =>
    cases askers with
    | nil => simp [FinStage.next]
    | cons asker askers =>
      simp only [FinStage.next]
      split
      · split
        · intro live
          cases live <;> simp
        · simp
      · simp
  | wakeTake asker askers =>
    rintro (_ | flow) <;>
      simp [Mailbox.Op.yields]
  | downs events =>
    cases events <;> simp [FinStage.next]
  | links =>
    intro peers
    dsimp only
    split_ifs <;> simp [boxes_finNext]
  | peers peers =>
    cases peers with
    | nil => simp [FinStage.next, boxes_finNext]
    | cons peer rest =>
      simp only [FinStage.next]
      split
      · split <;> simp
      · simp
  | _ => simp [FinStage.next]

theorem KillStage.next_conserves (id : FlowId) (reason : FlowExitReason) (next : KillAfter)
    (stage : KillStage) :
    (stage.next id reason next).Conserves (stage.boxes + next.boxes) := by
  cases stage with
  | lookup =>
    intro live
    cases live <;> simp [boxes_resume]
  | takeParked =>
    rintro (_ | flow) <;>
      simp [boxes_resume, Mailbox.Op.yields]
  | sendAtGet =>
    rintro (_ | target) <;> simp [boxes_resume]
  | targetLookup target =>
    intro live
    cases live <;> simp [boxes_resume]
  | takeSender target =>
    rintro (_ | sender) <;>
      simp [boxes_resume, Mailbox.Op.yields]
  | _ => simp [KillStage.next, boxes_resume]

/-- **A frame hands on the boxes it holds, once.** -/
theorem Frame.next_conserves (i : Input) (f : Frame) : (f.next i).Conserves f.boxes := by
  cases f with
  | drive flow => rintro (_ | reason) <;> simp [Flow.box]
  | run flow =>
    simp only [Frame.next]
    split
    · exact effect_conserves flow _
    · simp
  | send stage flow out => exact stage.next_conserves flow out
  | receive flow filter timeout =>
    rintro (_ | h) <;> simp [Mailbox.Op.yields]
  | admitWaitingOn flow =>
    rintro (_ | sender) <;> simp [Mailbox.Op.yields]
  | admitted sender =>
    simp only [Frame.next]
    split <;> simp [Flow.box]
  | park flow filter timeout =>
    rintro (flow' | epoch)
    · simp [Mailbox.Op.yields, Flow.box, add_comm]
    · dsimp only
      split_ifs <;> simp [Mailbox.Op.yields]
  | ask stage flow wait => exact stage.next_conserves flow wait
  | askRecheck asker wait epoch =>
    intro live
    dsimp only
    split_ifs <;> simp
  | askTake asker wait =>
    rintro (_ | flow) <;> simp [Mailbox.Op.yields]
  | fire pid epoch =>
    rintro (_ | flow) <;> simp [Mailbox.Op.yields]
  | fin stage cur work => exact stage.next_conserves i cur work
  | kill stage id reason next => exact stage.next_conserves id reason next
  | downLookup owner hop => intro live; cases live <;> simp
  | downPush owner hop =>
    rintro (_ | _ | _ | receiver) <;> simp [Mailbox.Op.yields]
  | hostLookup target message => intro live; cases live <;> simp
  | hostPush target hop =>
    rintro (reason | _ | _ | _ | receiver) <;>
      simp [Mailbox.Op.yields]
  | relate relation =>
    intro live
    dsimp only
    split_ifs <;> simp
  | relateTarget relation => intro live; cases live <;> simp
  | relateMake relation =>
    cases relation <;> simp [Frame.next, Relation.make]
  | nameChild child name cap =>
    rintro (e | _) <;> simp
  | monitorRecheck monitor owner target => intro live; cases live <;> simp
  | _ => simp [Frame.next, TimerPayload.boxes]

theorem Operation.start_conserves (op : Operation) : op.start.Conserves 0 := by
  cases op with
  | work n => intro flow; simp
  | fire n => rintro (flow | _) <;> simp [TimerPayload.boxes]
  | monitor owner target =>
    simp only [Operation.start]
    split_ifs <;> simp
  | link a b =>
    simp only [Operation.start]
    split_ifs <;> simp
  | spawnChild name cap =>
    intro child
    dsimp only
    split_ifs <;> simp
  | _ => simp [Operation.start]

/-- The stack of the thread that runs: the boxes of its top frame, and those below. -/
theorem State.next_conserves (s : State) (t : ℕ) (i : Input) :
    ∃ held, (s.next t i).1.Conserves held ∧
      held + stackBoxes (s.next t i).2 = stackBoxes (s.threads t) := by
  unfold State.next
  cases s.threads t with
  | nil =>
    cases i with
    | start op => exact ⟨0, op.start_conserves, by simp⟩
    | _ => exact ⟨0, by simp, by simp⟩
  | cons f rest => exact ⟨f.boxes, f.next_conserves i, by simp⟩

/-! ## Every flow is held once -/

/-- Where a flow can lie. -/
inductive Place
  | queues
  | timers
  | mailbox (id : FlowId)
  | thread (t : ℕ)

/-- The flows that lie in a place. -/
def State.held (s : State) : Place → Multiset FlowId
  | .queues => boxesOf Flow.box s.shared.queues
  | .timers => boxesOf TimerPayload.boxes s.shared.timers
  | .mailbox id => (s.shared.mailboxes id).boxes
  | .thread t => stackBoxes (s.threads t)

/-- The flows that lie in a shared place. -/
def Shared.held (σ : Shared) : Place → Multiset FlowId := State.held ⟨σ, fun _ => []⟩

/-- What an action does to the boxes: it moves some between the thread, which has `held`, and one
shared place, or it makes a fresh one. -/
inductive Shared.Moves (σ : Shared) (held : Multiset FlowId) : Shared × List Frame → Prop
  | move (p : Place) (σ' : Shared) (k : List Frame) (hp : ∀ t, p ≠ .thread t)
      (hle : σ'.held p + stackBoxes k ≤ σ.held p + held)
      (hrest : ∀ q, q ≠ p → σ'.held q = σ.held q) (hnext : σ'.nextFlowId = σ.nextFlowId) :
      Moves σ held (σ', k)
  | fresh (σ' : Shared) (k : List Frame) (hle : stackBoxes k ≤ σ.nextFlowId ::ₘ held)
      (hrest : ∀ q, σ'.held q = σ.held q) (hnext : σ'.nextFlowId = σ.nextFlowId + 1) :
      Moves σ held (σ', k)

/-- An action that touches no place. -/
theorem Shared.Moves.stay {σ σ' : Shared} {held : Multiset FlowId} {k : List Frame}
    (hle : stackBoxes k ≤ held) (hmail : σ'.mailboxes = σ.mailboxes)
    (htimers : σ'.timers = σ.timers) (hqueues : σ'.queues = σ.queues)
    (hnext : σ'.nextFlowId = σ.nextFlowId) : σ.Moves held (σ', k) := by
  have hsame : ∀ q, σ'.held q = σ.held q := by
    intro q
    cases q <;> simp only [Shared.held, State.held, hmail, htimers, hqueues]
  refine .move .queues σ' k (fun t h => by cases h) ?_ (fun q _ => hsame q) hnext
  rw [hsame]
  exact add_le_add_right hle _

theorem boxesOf_eraseIdx {α : Type} {box : α → Multiset FlowId} {l : List α} {n : ℕ} {a : α}
    (h : l[n]? = some a) : boxesOf box (l.eraseIdx n) + box a = boxesOf box l := by
  induction l generalizing n with
  | nil => cases h
  | cons b l ih =>
    cases n with
    | zero =>
      cases h
      simp [add_comm]
    | succ n =>
      rw [List.eraseIdx_cons_succ, boxesOf_cons, boxesOf_cons, add_assoc, ih h]

/-- **No action copies a box.** -/
theorem exec_moves (σ : Shared) {held : Multiset FlowId} {a : Action} (ha : a.Conserves held) :
    σ.Moves held (σ.exec a) := by
  cases a with
  | nop k => exact .stay ha rfl rfl rfl rfl
  | issue value k => exact .stay (ha _) rfl rfl rfl rfl
  | register k =>
    refine .fresh _ _ ?_ (fun q => ?_) rfl
    · simpa [Flow.box, Flow.new] using ha (.new σ.nextFlowId)
    · cases q <;> rfl
  | unregister id k => exact .stay ha rfl rfl rfl rfl
  | lookup id k => exact .stay (ha _) rfl rfl rfl rfl
  | mail id op k =>
    refine .move (.mailbox id) _ _ (fun t h => by cases h) ?_ (fun q hq => ?_) rfl
    · have hk := ha ((σ.mailboxes id).result op)
      have hm := (σ.mailboxes id).after_boxes op
      simp only [Shared.held, State.held, Function.update_self]
      refine le_of_add_le_add_right (a := op.gives + op.yields ((σ.mailboxes id).result op)) ?_
      calc _ = (((σ.mailboxes id).after op).boxes + op.yields ((σ.mailboxes id).result op)) +
            (stackBoxes (k ((σ.mailboxes id).result op)) + op.gives) := by abel
        _ ≤ ((σ.mailboxes id).boxes + op.gives) +
            (op.yields ((σ.mailboxes id).result op) + held) := add_le_add hm hk
        _ = _ := by abel
    · cases q with
      | mailbox j =>
        have hne : j ≠ id := fun h => hq (h ▸ rfl)
        simp only [Shared.held, State.held, Function.update_of_ne hne]
      | _ => rfl
  | killSet id reason k => exact .stay ha rfl rfl rfl rfl
  | killTake id k => exact .stay (ha _) rfl rfl rfl rfl
  | sendAtInsert sender target k => exact .stay ha rfl rfl rfl rfl
  | sendAtRemove sender k => exact .stay ha rfl rfl rfl rfl
  | sendAtGet sender k => exact .stay (ha _) rfl rfl rfl rfl
  | askInsert asker target requestId k => exact .stay (ha _) rfl rfl rfl rfl
  | askRemove asker k => exact .stay ha rfl rfl rfl rfl
  | askTake target k => exact .stay (ha _) rfl rfl rfl rfl
  | monitorCreate owner target k => exact .stay (ha _) rfl rfl rfl rfl
  | monitorRemove owner monitor k => exact .stay (ha _) rfl rfl rfl rfl
  | monitorRemoveOwned owner k => exact .stay ha rfl rfl rfl rfl
  | monitorNotify target reason k => exact .stay (ha _) rfl rfl rfl rfl
  | linkCreate a b k => exact .stay (ha _) rfl rfl rfl rfl
  | linkRemove owner link k => exact .stay (ha _) rfl rfl rfl rfl
  | linkRemoveAll target k => exact .stay (ha _) rfl rfl rfl rfl
  | nameRegister name cap flow k => exact .stay (ha _) rfl rfl rfl rfl
  | nameUnregister name k => exact .stay ha rfl rfl rfl rfl
  | nameSweep flow k => exact .stay ha rfl rfl rfl rfl
  | schedule entry k =>
    refine .move .timers _ _ (fun t h => by cases h) ?_ (fun q hq => ?_) rfl
    · simp only [Shared.held, State.held, boxesOf_cons]
      calc _ = boxesOf TimerPayload.boxes σ.timers + (stackBoxes k + entry.boxes) := by abel
        _ ≤ _ := add_le_add_right ha _
    · cases q with
      | timers => exact absurd rfl hq
      | _ => rfl
  | expire n k =>
    simp only [Shared.exec]
    cases hn : σ.timers[n]? with
    | none => exact .stay (by simp) rfl rfl rfl rfl
    | some entry =>
      refine .move .timers _ _ (fun t h => by cases h) ?_ (fun q hq => ?_) rfl
      · simp only [Shared.held, State.held, ← boxesOf_eraseIdx hn, add_assoc]
        exact add_le_add_right (ha entry) _
      · cases q with
        | timers => exact absurd rfl hq
        | _ => rfl
  | queue flow k =>
    refine .move .queues _ _ (fun t h => by cases h) ?_ (fun q hq => ?_) rfl
    · simp only [Shared.held, State.held, boxesOf_cons]
      calc _ = boxesOf Flow.box σ.queues + (stackBoxes k + flow.box) := by abel
        _ ≤ _ := add_le_add_right ha _
    · cases q with
      | queues => exact absurd rfl hq
      | _ => rfl
  | steal n k =>
    simp only [Shared.exec]
    cases hn : σ.queues[n]? with
    | none => exact .stay (by simp) rfl rfl rfl rfl
    | some flow =>
      refine .move .queues _ _ (fun t h => by cases h) ?_ (fun q hq => ?_) rfl
      · simp only [Shared.held, State.held, ← boxesOf_eraseIdx hn, add_assoc]
        exact add_le_add_right (ha flow) _
      · cases q with
        | queues => exact absurd rfl hq
        | _ => rfl

/-- The id was given to a flow. -/
def Shared.Spawned (σ : Shared) (a : FlowId) : Prop := FlowId.host < a ∧ a < σ.nextFlowId

/-- Every flow is held once, and only flows that were spawned are held. -/
structure Owned (s : State) : Prop where
  exclusive : Exclusive s.held
  spawned : ∀ p, ∀ a ∈ s.held p, s.shared.Spawned a
  next : FlowId.host < s.shared.nextFlowId

theorem owned_init (config : MailboxConfig) : Owned (State.init config) := by
  have hempty : ∀ p, (State.init config).held p = 0 := by
    intro p
    cases p <;> rfl
  exact ⟨⟨fun p => by simp [hempty], fun p q _ a ha => by simp [hempty] at ha⟩,
    fun p a ha => by simp [hempty] at ha, Nat.zero_lt_one⟩

theorem State.held_of_shared {σ : Shared} {threads : ℕ → List Frame} {p : Place}
    (hp : ∀ t, p ≠ .thread t) : State.held ⟨σ, threads⟩ p = σ.held p := by
  cases p with
  | thread t => exact absurd rfl (hp t)
  | _ => rfl

/-- A step moves boxes between a place and the thread that makes it, or a new box gets there. -/
theorem held_step (s : State) (t : ℕ) (i : Input) :
    (∃ p, p ≠ .thread t ∧ (step s (t, i)).held p + (step s (t, i)).held (.thread t) ≤
        s.held p + s.held (.thread t) ∧
      (∀ r, r ≠ p → r ≠ .thread t → (step s (t, i)).held r = s.held r) ∧
      (step s (t, i)).shared.nextFlowId = s.shared.nextFlowId) ∨
    ((step s (t, i)).held (.thread t) ≤ s.shared.nextFlowId ::ₘ s.held (.thread t) ∧
      (∀ r, r ≠ .thread t → (step s (t, i)).held r = s.held r) ∧
      (step s (t, i)).shared.nextFlowId = s.shared.nextFlowId + 1) := by
  obtain ⟨held, hcons, hstack⟩ := s.next_conserves t i
  have hmoves := exec_moves s.shared hcons
  have hstep : Machine.step s (t, i) = ⟨(s.shared.exec (s.next t i).1).1,
      Function.update s.threads t ((s.shared.exec (s.next t i).1).2 ++ (s.next t i).2)⟩ := rfl
  rw [hstep]
  generalize (s.next t i).2 = rest at hstack
  generalize s.shared.exec (s.next t i).1 = after at hmoves
  have hthread : ∀ σ' k, State.held ⟨σ', Function.update s.threads t (k ++ rest)⟩ (.thread t) =
      stackBoxes k + stackBoxes rest := by
    intro σ' k
    simp [State.held]
  have hother : ∀ σ' k r, r ≠ t → State.held
      ⟨σ', Function.update s.threads t (k ++ rest)⟩ (.thread r) = s.held (.thread r) := by
    intro σ' k r hr
    simp only [State.held, Function.update_of_ne hr]
  have hheld : s.held (.thread t) = held + stackBoxes rest := hstack.symm
  cases hmoves with
  | move p σ' k hp hle hrest hnext =>
    refine .inl ⟨p, hp t, ?_, ?_, hnext⟩
    · rw [hthread, State.held_of_shared hp, ← add_assoc, hheld, ← add_assoc]
      refine add_le_add_left ?_ _
      have hs : s.held p = s.shared.held p := State.held_of_shared hp
      rw [hs]
      exact hle
    · intro r hrp hrt
      cases r with
      | thread r => exact hother σ' k r fun h => hrt (h ▸ rfl)
      | queues => exact hrest .queues hrp
      | timers => exact hrest .timers hrp
      | mailbox id => exact hrest (.mailbox id) hrp
  | fresh σ' k hle hrest hnext =>
    refine .inr ⟨?_, ?_, hnext⟩
    · rw [hthread, hheld, ← Multiset.cons_add]
      exact add_le_add_left hle _
    · intro r hrt
      cases r with
      | thread r => exact hother σ' k r fun h => hrt (h ▸ rfl)
      | queues => exact hrest .queues
      | timers => exact hrest .timers
      | mailbox id => exact hrest (.mailbox id)

/-- Who is held after a step was held before it, or is new. -/
theorem mem_held_step {s : State} {t : ℕ} {i : Input} {p : Place} {a : FlowId}
    (ha : a ∈ (step s (t, i)).held p) : (∃ q, a ∈ s.held q) ∨
      a = s.shared.nextFlowId ∧ (step s (t, i)).shared.nextFlowId = s.shared.nextFlowId + 1 := by
  rcases held_step s t i with ⟨q, hq, hsum, hsame, -⟩ | ⟨hle, hsame, hnext⟩
  · have hfrom : a ∈ s.held q + s.held (.thread t) → ∃ q, a ∈ s.held q := fun ha =>
      (Multiset.mem_add.mp ha).elim (fun ha => ⟨_, ha⟩) fun ha => ⟨_, ha⟩
    left
    by_cases hpq : p = q
    · subst hpq
      exact hfrom (Multiset.mem_of_le hsum (Multiset.mem_add.mpr (.inl ha)))
    by_cases hpt : p = .thread t
    · subst hpt
      exact hfrom (Multiset.mem_of_le hsum (Multiset.mem_add.mpr (.inr ha)))
    exact ⟨p, hsame p hpq hpt ▸ ha⟩
  · by_cases hpt : p = .thread t
    · subst hpt
      rcases Multiset.mem_cons.mp (Multiset.mem_of_le hle ha) with rfl | ha
      · exact .inr ⟨rfl, hnext⟩
      · exact .inl ⟨_, ha⟩
    · exact .inl ⟨p, hsame p hpt ▸ ha⟩

/-- **A step keeps every flow in one place.** -/
theorem Owned.step {s : State} (h : Owned s) (ti : ℕ × Input) : Owned (step s ti) := by
  obtain ⟨t, i⟩ := ti
  have hspawned {p : Place} {a : FlowId} (ha : a ∈ (Machine.step s (t, i)).held p)
      (hnext : s.shared.nextFlowId ≤ (Machine.step s (t, i)).shared.nextFlowId) :
      (Machine.step s (t, i)).shared.Spawned a := by
    rcases mem_held_step ha with ⟨q, ha⟩ | ⟨rfl, hfresh⟩
    · exact ⟨(h.spawned q a ha).1, (h.spawned q a ha).2.trans_le hnext⟩
    · exact ⟨h.next, hfresh ▸ Nat.lt_succ_self _⟩
  rcases held_step s t i with ⟨p, hp, hsum, hsame, hnext⟩ | ⟨hle, hsame, hnext⟩
  · exact ⟨h.exclusive.transfer hp hsum fun r hrp hrt => (hsame r hrp hrt).le,
      fun r a ha => hspawned ha hnext.ge, hnext ▸ h.next⟩
  · exact ⟨h.exclusive.insert (fun q hq => (h.spawned q _ hq).2.false) hle
      fun r hr => (hsame r hr).le, fun r a ha => hspawned ha (hnext ▸ Nat.le_succ _),
      hnext ▸ Nat.lt_succ_of_lt h.next⟩

/-- **Every flow is held once**, in every state that a schedule leads to. -/
theorem run_owned (config : MailboxConfig) (sched : List (ℕ × Input)) :
    Owned (run config sched) :=
  Schedule.invariant (I := Owned) (fun _ ti h => Owned.step h ti) (owned_init config) sched

end Machine

end Byteflow
