import Byteflow.Foundations.Schedule
import Byteflow.Scheduler.Mailbox.Basic

/-!
# Histories of one mailbox

The operations on a mailbox as data, so that a sequence of critical sections is a list: `after`
runs one, `run` a list of them. A history is `Legal` when `admit_waiting_sender` is called only
while no receiver is parked, which is how the worker calls it: the owner of the mailbox has just
popped a hop and is running.
-/

namespace Byteflow

namespace Mailbox

/-- The critical sections of a mailbox. -/
inductive Op (H : Type)
  | push (value : H)
  | pushSystem (value : H)
  | tryPopFilter (filter : WaitFilter)
  | parkFilter (flow : Flow H) (filter : WaitFilter)
  | takeParkedAt (epoch : WaitEpoch)
  | takeParked
  | parkSender (flow : Flow H) (message : H)
  | admitWaitingSender
  | takeWaitingSender (sender : FlowId)
  | close
  deriving DecidableEq

variable {H : Type} [HopView H]

/-- The mailbox after one critical section. -/
def after (m : Mailbox H) : Op H → Mailbox H
  | .push value => (m.push value).1
  | .pushSystem value => (m.pushSystem value).1
  | .tryPopFilter filter => (m.tryPopFilter filter).1
  | .parkFilter flow filter => (m.parkFilter flow filter).1
  | .takeParkedAt epoch => (m.takeParkedAt epoch).1
  | .takeParked => m.takeParked.1
  | .parkSender flow message => (m.parkSender flow message).1
  | .admitWaitingSender => m.admitWaitingSender.1
  | .takeWaitingSender sender => (m.takeWaitingSender sender).1
  | .close => m.close.1

/-- What a critical section returns. -/
@[reducible] def Op.Result : Op H → Type
  | .push _ => Except MailboxFullReason (Delivery H)
  | .pushSystem _ => Delivery H
  | .tryPopFilter _ => Option H
  | .parkFilter _ _ => Except (Flow H) WaitEpoch
  | .takeParkedAt _ => Option (Flow H)
  | .takeParked => Option (Flow H)
  | .parkSender _ _ => ParkSender H
  | .admitWaitingSender => Option (Flow H)
  | .takeWaitingSender _ => Option (Flow H)
  | .close => List (Flow H)

/-- The result of one critical section. -/
def result (m : Mailbox H) : (op : Op H) → op.Result
  | .push value => (m.push value).2
  | .pushSystem value => (m.pushSystem value).2
  | .tryPopFilter filter => (m.tryPopFilter filter).2
  | .parkFilter flow filter => (m.parkFilter flow filter).2
  | .takeParkedAt epoch => (m.takeParkedAt epoch).2
  | .takeParked => m.takeParked.2
  | .parkSender flow message => (m.parkSender flow message).2
  | .admitWaitingSender => m.admitWaitingSender.2
  | .takeWaitingSender sender => (m.takeWaitingSender sender).2
  | .close => m.close.2

/-- The mailbox after a list of critical sections. -/
def run (m : Mailbox H) (ops : List (Op H)) : Mailbox H := Schedule.run after m ops

@[simp] theorem run_nil (m : Mailbox H) : m.run [] = m := rfl

@[simp] theorem run_cons (m : Mailbox H) (op : Op H) (ops : List (Op H)) :
    m.run (op :: ops) = (m.after op).run ops := rfl

theorem run_append (m : Mailbox H) (ops ops' : List (Op H)) :
    m.run (ops ++ ops') = (m.run ops).run ops' := Schedule.run_append m ops ops'

@[simp] theorem after_config (m : Mailbox H) (op : Op H) : (m.after op).config = m.config := by
  cases op with
  | push value =>
    rcases m.push_cases value with ⟨_, -, -, he⟩ | ⟨-, he⟩ <;> simp [after, he, handOff]
  | pushSystem value =>
    rcases m.pushSystem_cases value with ⟨_, -, -, he⟩ | ⟨-, he⟩ <;> simp [after, he, handOff]
  | tryPopFilter filter =>
    rcases m.tryPopFilter_cases filter with ⟨_, -, he⟩ | ⟨-, he⟩ <;> simp [after, he]
  | parkFilter flow filter =>
    rcases m.parkFilter_cases flow filter with ⟨_, -, he⟩ | ⟨-, he⟩ <;> simp [after, he]
  | takeParkedAt epoch =>
    rcases m.takeParkedAt_cases epoch with ⟨_, -, -, he⟩ | ⟨-, he⟩ <;> simp [after, he]
  | takeParked => rfl
  | parkSender flow message =>
    simp only [after, parkSender]
    split_ifs <;> rfl
  | admitWaitingSender =>
    rcases m.admitWaitingSender_cases with ⟨-, he⟩ | ⟨_, _, _, -, -, -, he⟩ |
      ⟨_, _, _, -, -, -, he⟩ <;> simp [after, he]
  | takeWaitingSender sender =>
    simp only [after, takeWaitingSender]
    split <;> rfl
  | close => rfl

@[simp] theorem run_config (m : Mailbox H) (ops : List (Op H)) :
    (m.run ops).config = m.config := by
  induction ops generalizing m with
  | nil => rfl
  | cons op ops ih => rw [run_cons, ih, after_config]

/-- The worker admits a waiting sender only while no receiver is parked. -/
def Op.Allowed (m : Mailbox H) : Op H → Prop
  | .admitWaitingSender => m.parked = none
  | _ => True

instance (m : Mailbox H) (op : Op H) : Decidable (op.Allowed m) := by
  cases op <;> unfold Op.Allowed <;> infer_instance

/-- Every admission of the history happens while no receiver is parked. -/
def Legal (m : Mailbox H) (ops : List (Op H)) : Prop :=
  Schedule.Guarded after (fun m op => op.Allowed m) m ops

instance (m : Mailbox H) (ops : List (Op H)) : Decidable (m.Legal ops) :=
  inferInstanceAs (Decidable (Schedule.Guarded after (fun m op => op.Allowed m) m ops))

/-- What every allowed operation preserves holds after every legal history. -/
theorem Legal.invariant {I : Mailbox H → Prop}
    (step : ∀ (m : Mailbox H) (op : Op H), op.Allowed m → I m → I (m.after op))
    {m : Mailbox H} {ops : List (Op H)} (hops : m.Legal ops) (h : I m) : I (m.run ops) :=
  Schedule.Guarded.invariant step hops h

end Mailbox

end Byteflow
