import Byteflow.Scheduler.Mailbox.Run

/-!
# Naming the hops of a history

Two hops may carry equal values, so a value does not say which hop it is. `named` gives the hop of
each operation of a history its position as a name. Names are inert: no operation looks at them,
so forgetting them commutes with every operation (`after_map`) and the named history is the
history of the code (`run_named`).
-/

namespace Byteflow

variable {H H' : Type}

/-! ## Maps of hops -/

def Flow.map (f : H → H') (flow : Flow H) : Flow H' where
  id := flow.id
  pendingMessage := flow.pendingMessage.map f
  lastReceiveDest := flow.lastReceiveDest
  pendingSend := flow.pendingSend

def WaitingSender.map (f : H → H') (w : WaitingSender H) : WaitingSender H' :=
  ⟨w.flow.map f, f w.message⟩

def MailboxQueue.map (f : H → H') (q : MailboxQueue H) : MailboxQueue H' where
  inner := q.inner.map f
  capacity := q.capacity
  limit := q.limit
  bytes := q.bytes
  byteLimit := q.byteLimit

def Mailbox.map (f : H → H') (m : Mailbox H) : Mailbox H' where
  config := m.config
  queue := m.queue.map f
  parked := m.parked.map (Flow.map f)
  parkedFilter := m.parkedFilter
  waitEpoch := m.waitEpoch
  stats := m.stats
  waitingSenders := m.waitingSenders.map (WaitingSender.map f)
  closed := m.closed

def Mailbox.Op.map (f : H → H') : Op H → Op H'
  | .push value => .push (f value)
  | .pushSystem value => .pushSystem (f value)
  | .tryPopFilter filter => .tryPopFilter filter
  | .parkFilter flow filter => .parkFilter (flow.map f) filter
  | .takeParkedAt epoch => .takeParkedAt epoch
  | .takeParked => .takeParked
  | .parkSender flow message => .parkSender (flow.map f) (f message)
  | .admitWaitingSender => .admitWaitingSender
  | .takeWaitingSender sender => .takeWaitingSender sender
  | .close => .close

@[simp] theorem Flow.map_map {H'' : Type} (g : H' → H'') (f : H → H') (flow : Flow H) :
    (flow.map f).map g = flow.map (g ∘ f) := by
  simp [Flow.map]

@[simp] theorem Flow.map_id (flow : Flow H) : flow.map (fun h => h) = flow := by
  simp [Flow.map]

namespace Mailbox

@[simp] theorem Op.map_map {H'' : Type} (g : H' → H'') (f : H → H') (op : Op H) :
    (op.map f).map g = op.map (g ∘ f) := by
  cases op <;> simp [Op.map]

@[simp] theorem Op.map_id (op : Op H) : op.map (fun h => h) = op := by
  cases op <;> simp [Op.map]

@[simp] theorem new_map (f : H → H') (config : MailboxConfig) :
    (new config : Mailbox H).map f = new config := rfl

end Mailbox

/-! ## The operations commute with forgetting -/

section Naturality

variable [HopView H] [HopView H'] {f : H → H'}
  (hf : ∀ h, HopView.value (f h) = HopView.value h)

include hf

theorem WaitFilter.accepts_map (filter : WaitFilter) (h : H) :
    filter.accepts (f h) = filter.accepts h := by
  simp only [accepts, hf]

namespace MailboxQueue

theorem cost_map (h : H) : cost (f h) = cost h := by
  simp only [cost, hf]

theorem find?_map (filter : WaitFilter) (l : List H) :
    (l.map f).find? filter.accepts = (l.find? filter.accepts).map f := by
  have hcomp : filter.accepts ∘ f = filter.accepts :=
    funext fun h => WaitFilter.accepts_map hf filter h
  rw [List.find?_map, hcomp]

theorem eraseP_map (filter : WaitFilter) (l : List H) :
    (l.map f).eraseP filter.accepts = (l.eraseP filter.accepts).map f := by
  have hcomp : filter.accepts ∘ f = filter.accepts :=
    funext fun h => WaitFilter.accepts_map hf filter h
  rw [List.eraseP_map, hcomp]

theorem take_map (q : MailboxQueue H) (filter : WaitFilter) :
    (q.map f).take filter = ((q.take filter).1.map f, (q.take filter).2.map f) := by
  have hpick : pick filter (q.map f).inner =
      ((q.inner.find? filter.accepts).map f, (q.inner.eraseP filter.accepts).map f) := by
    rw [pick_eq]
    exact Prod.ext (find?_map hf filter q.inner) (eraseP_map hf filter q.inner)
  rw [take, take, hpick, pick_eq]
  cases q.inner.find? filter.accepts with
  | none => rfl
  | some h => simp [MailboxQueue.map, cost_map hf]

theorem evict_map (limit byteLimit cost₀ : ℕ) (l : List H) (bytes : ℕ) (dropped : Bool) :
    evict limit byteLimit cost₀ (l.map f) bytes dropped =
      ((evict limit byteLimit cost₀ l bytes dropped).1.map f,
        (evict limit byteLimit cost₀ l bytes dropped).2) := by
  induction l generalizing bytes dropped with
  | nil => rfl
  | cons old rest ih =>
    simp only [List.map_cons, evict, List.length_cons, List.length_map, cost_map hf, ih]
    split_ifs <;> rfl

theorem pushBack_map (q : MailboxQueue H) (value : H) :
    (q.map f).pushBack (f value) = (q.pushBack value).map f := by
  simp [MailboxQueue.map, pushBack, cost_map hf]

theorem slide_map (q : MailboxQueue H) (value : H) :
    (q.map f).slide (f value) = ((q.slide value).1.map f, (q.slide value).2) := by
  have hslid : (q.map f).slid (f value) = (q.slid value).map f := by
    simp [slid, MailboxQueue.map, cost_map hf, evict_map hf]
  have hexceeds : ((q.slid value).map f).wouldExceedBytes (cost (f value)) =
      (q.slid value).wouldExceedBytes (cost value) := by
    simp [wouldExceedBytes, MailboxQueue.map, cost_map hf]
  have hdropped : (evict (q.map f).limit (q.map f).byteLimit (cost (f value)) (q.map f).inner
      (q.map f).bytes false).2.2 =
      (evict q.limit q.byteLimit (cost value) q.inner q.bytes false).2.2 := by
    simp [MailboxQueue.map, cost_map hf, evict_map hf]
  rw [slide_eq, slide_eq, hslid, hexceeds, hdropped, pushBack_map hf]
  split_ifs <;> rfl

theorem enqueue_map (q : MailboxQueue H) (value : H) (policy : OverflowPolicy) :
    (q.map f).enqueue (f value) policy =
      ((q.enqueue value policy).1.map f, (q.enqueue value policy).2) := by
  have hres : (q.map f).reserveForPush (q.map f).limit = q.reserveForPush q.limit := by
    simp [reserveForPush, MailboxQueue.map]
  have hfull : (q.map f).isFull = q.isFull := by simp [isFull, MailboxQueue.map]
  have hbytes : (q.map f).wouldExceedBytes (cost (f value)) = q.wouldExceedBytes (cost value) := by
    simp [wouldExceedBytes, MailboxQueue.map, cost_map hf]
  unfold enqueue
  rw [hres, hfull, hbytes]
  split_ifs
  · rcases q.reserveForPush q.limit with ⟨_ | _, capacity⟩
    · rfl
    · exact Prod.ext (pushBack_map hf { q with capacity := capacity } value) rfl
  · cases policy with
    | reject => exact Prod.ext rfl (by simp only [fullReason, hfull])
    | dropNewest => rfl
    | dropOldest => exact slide_map hf q value

theorem forcePush_map (q : MailboxQueue H) (value : H) :
    (q.map f).forcePush (f value) = (q.forcePush value).map f := by
  simp [forcePush, reserveForPush, pushBack, MailboxQueue.map, cost_map hf]

end MailboxQueue

namespace Mailbox

theorem enqueueLocked_map (m : Mailbox H) (value : H) (policy : OverflowPolicy) :
    ((m.map f).enqueueLocked (f value) policy).1 = (m.enqueueLocked value policy).1.map f := by
  have hq := MailboxQueue.enqueue_map hf m.queue value policy
  have hm : (m.map f).queue = m.queue.map f := rfl
  unfold enqueueLocked
  rw [hm, hq]
  dsimp only
  cases (m.queue.enqueue value policy).2 with
  | ok effect => cases effect <;> rfl
  | error reason => rfl

/-- **Forgetting commutes with every operation.** -/
theorem after_map (m : Mailbox H) (op : Op H) :
    (m.map f).after (op.map f) = (m.after op).map f := by
  have hacc := WaitFilter.accepts_map (f := f) hf
  cases op with
  | push value =>
    have henq := enqueueLocked_map hf m value m.config.overflow
    simp only [after, Op.map, push]
    cases hp : m.parked with
    | none => simpa [Mailbox.map, hp] using henq
    | some flow =>
      cases ha : m.parkedFilter.accepts value with
      | true => simp [Mailbox.map, hp, hacc, ha, handOff]
      | false => simpa [Mailbox.map, hp, hacc, ha] using henq
  | pushSystem value =>
    have hforce := MailboxQueue.forcePush_map hf m.queue value
    simp only [after, Op.map, pushSystem]
    cases hp : m.parked with
    | none => simp [Mailbox.map, hp, hforce]
    | some flow =>
      cases ha : m.parkedFilter.accepts value <;>
        simp [Mailbox.map, hp, hacc, ha, handOff, hforce]
  | tryPopFilter filter =>
    have htake := MailboxQueue.take_map hf m.queue filter
    simp only [after, Op.map, tryPopFilter, Mailbox.map, htake]
    cases (m.queue.take filter).2 <;> rfl
  | parkFilter flow filter =>
    have htake := MailboxQueue.take_map hf m.queue filter
    simp only [after, Op.map, parkFilter, Mailbox.map, htake]
    cases (m.queue.take filter).2 <;> rfl
  | takeParkedAt epoch =>
    simp only [after, Op.map, takeParkedAt]
    cases hp : m.parked <;> by_cases he : m.waitEpoch ≠ epoch.get <;>
      simp [Mailbox.map, hp, he]
  | takeParked => simp [after, Op.map, takeParked, Mailbox.map]
  | parkSender flow message =>
    simp only [after, Op.map, parkSender]
    cases hc : m.closed <;> simp [Mailbox.map, hc, WaitingSender.map]
  | admitWaitingSender =>
    simp only [after, Op.map, admitWaitingSender]
    cases hc : m.closed with
    | true => simp [Mailbox.map, hc]
    | false =>
      cases hw : m.waitingSenders with
      | nil => simp [Mailbox.map, hc, hw]
      | cons waiter rest =>
        have henq := MailboxQueue.enqueue_map hf m.queue waiter.message .reject
        simp only [Mailbox.map, hc, hw, enqueueLocked, WaitingSender.map, List.map_cons, henq]
        cases (m.queue.enqueue waiter.message .reject).2 with
        | ok effect => cases effect <;> simp
        | error reason => simp [WaitingSender.map]
  | takeWaitingSender sender =>
    have hfind : (m.waitingSenders.map (WaitingSender.map f)).find? (·.flow.id == sender) =
        (m.waitingSenders.find? (·.flow.id == sender)).map (WaitingSender.map f) :=
      List.find?_map
    have herase : (m.waitingSenders.map (WaitingSender.map f)).eraseP (·.flow.id == sender) =
        (m.waitingSenders.eraseP (·.flow.id == sender)).map (WaitingSender.map f) :=
      List.eraseP_map
    simp only [after, Op.map, takeWaitingSender, FirstMatch.extract_eq, Mailbox.map, hfind, herase]
    cases m.waitingSenders.find? (·.flow.id == sender) <;> rfl
  | close => simp [after, Op.map, close, Mailbox.map]

theorem run_map (m : Mailbox H) (ops : List (Op H)) :
    (m.map f).run (ops.map (Op.map f)) = (m.run ops).map f := by
  induction ops generalizing m with
  | nil => rfl
  | cons op ops ih => rw [List.map_cons, run_cons, run_cons, after_map hf, ih]

end Mailbox

end Naturality

/-! ## Named histories -/

namespace Mailbox

/-- The hop of each operation named by its position, counted from `i`. -/
def namedFrom (i : ℕ) : List (Op Value) → List (Op Hop)
  | [] => []
  | op :: ops => op.map (Hop.mk i) :: namedFrom (i + 1) ops

/-- The history with the hop of each operation named by its position. -/
def named (ops : List (Op Value)) : List (Op Hop) := namedFrom 0 ops

theorem namedFrom_map_value (i : ℕ) (ops : List (Op Value)) :
    (namedFrom i ops).map (Op.map Hop.value) = ops := by
  induction ops generalizing i with
  | nil => rfl
  | cons op ops ih => simp [namedFrom, ih, Function.comp_def]

/-- Names are inert: forgetting them gives the history of the code. -/
theorem run_named (config : MailboxConfig) (ops : List (Op Value)) :
    ((new config).run (named ops)).map Hop.value = (new config).run ops := by
  rw [← run_map (f := Hop.value) fun _ => rfl, new_map, named, namedFrom_map_value]

/-- The hop an operation brings to the mailbox. -/
def Op.hop? : Op H → Option H
  | .push value => some value
  | .pushSystem value => some value
  | .parkSender _ message => some message
  | _ => none

theorem name_of_hop? {i : ℕ} {op : Op Value} {h : Hop} (hh : (op.map (Hop.mk i)).hop? = some h) :
    h.name = i := by
  cases op <;> simp only [Op.map, Op.hop?, Option.some.injEq, reduceCtorEq] at hh <;>
    exact hh ▸ rfl

theorem le_name_of_mem_namedFrom {i : ℕ} {ops : List (Op Value)} {h : Hop}
    (hh : h ∈ (namedFrom i ops).filterMap Op.hop?) : i ≤ h.name := by
  induction ops generalizing i with
  | nil => cases hh
  | cons op ops ih =>
    rw [namedFrom, List.filterMap_cons] at hh
    cases hop : (op.map (Hop.mk i)).hop? with
    | none =>
      rw [hop] at hh
      exact (Nat.le_succ i).trans (ih hh)
    | some h' =>
      rw [hop, List.mem_cons] at hh
      rcases hh with rfl | hh
      · exact (name_of_hop? hop).ge
      · exact (Nat.le_succ i).trans (ih hh)

/-- No two operations of a named history bring the same hop. -/
theorem named_nodup (i : ℕ) (ops : List (Op Value)) :
    ((namedFrom i ops).filterMap Op.hop?).Nodup := by
  induction ops generalizing i with
  | nil => exact List.nodup_nil
  | cons op ops ih =>
    rw [namedFrom, List.filterMap_cons]
    cases hop : (op.map (Hop.mk i)).hop? with
    | none => exact ih (i + 1)
    | some h =>
      refine List.nodup_cons.mpr ⟨fun hmem => ?_, ih (i + 1)⟩
      have hname := name_of_hop? hop
      have hle := le_name_of_mem_namedFrom hmem
      omega

end Mailbox

end Byteflow
