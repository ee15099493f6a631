import Byteflow.Scheduler.Machine.Exit
import Mathlib.Data.Prod.Lex
import Mathlib.Data.Set.Card

/-!
# A finalization by itself

What one thread does between a call of `finalize_flow` and its return. `Advances` has every step:
what it does to the shared state, and the frames that replace the top one. The tables shrink in
each of them (`Advances.shrinks`), kill signals apart. Every exit takes a flow out of the directory,
so a finalization ends (`finalize_ends`), whatever entries it takes from the hash tables
(`Picks`).
-/

namespace Byteflow

namespace Machine

open Function (update)

/-! ## Steps -/

/-- A mailbox operation. -/
def Shared.mail (σ : Shared) (id : FlowId) (op : Mailbox.Op Hop) : Shared :=
  { σ with mailboxes := update σ.mailboxes id ((σ.mailboxes id).after op) }

/-- A frame of `finalize_one`. -/
def Frame.Body : Frame → Prop
  | .fin _ _ _ => True
  | .kill _ _ reason (.link _ _ _) => reason = .link
  | _ => False

/-- A frame of `deliver_down` or of a wake, which a finalization puts on top. -/
def Frame.Aside : Frame → Prop
  | .down _ => True
  | .downLookup _ _ => True
  | .downPush _ _ => True
  | .forget _ => True
  | .wake _ => True
  | _ => False

/-- The step takes an entry that the hash table holds. -/
def Frame.Picks (i : Input) : Frame → Prop
  | .fin (.wake (_ :: askers)) _ _ => ∃ n ≤ askers.length, i = .pick n
  | .fin (.peers (_ :: peers)) _ _ => ∃ n ≤ peers.length, i = .pick n
  | _ => True

/-- The steps of a finalization. -/
inductive Advances (σ : Shared) : Frame → Shared → List Frame → Prop
  | killTake {cur work} : Advances σ (.fin .killTake cur work)
      { σ with killSignals := update σ.killSignals cur.id none } [.fin .sendAtRemove cur work]
  | sendAtRemove {cur work} : Advances σ (.fin .sendAtRemove cur work)
      { σ with waitingSendAt := update σ.waitingSendAt cur.id none } [.fin .askRemove cur work]
  | askRemove {cur work} : Advances σ (.fin .askRemove cur work)
      { σ with askWaits := σ.askWaits.removeAsker cur.id } [.fin .lookup cur work]
  | lookup {cur work} (h : σ.directory cur.id = true) :
    Advances σ (.fin .lookup cur work) σ [.fin .close cur work]
  | lookupGone {cur work} (h : σ.directory cur.id = false) :
    Advances σ (.fin .lookup cur work) σ [.fin .waiters cur work]
  | close {cur work} : Advances σ (.fin .close cur work) (σ.mail cur.id .close)
      [.fin (.senders ((σ.mailboxes cur.id).waitingSenders.map (·.flow))) cur work]
  | sendersNil {cur work} : Advances σ (.fin (.senders []) cur work) σ [.fin .waiters cur work]
  | senders {sender rest cur work} : Advances σ (.fin (.senders (sender :: rest)) cur work)
      { σ with waitingSendAt := update σ.waitingSendAt sender.id none }
      [.fin (.senders rest) cur (work ++
        [⟨sender, .failed ("send target flow#" ++ toString cur.id ++ " exited"), .fault⟩])]
  | waiters {cur work} : Advances σ (.fin .waiters cur work)
      { σ with askWaits := (σ.askWaits.takeWaitersOf cur.id).1 }
      [.fin (.wake (σ.askWaits.askersOf cur.id)) cur work]
  | wakeNil {cur work} : Advances σ (.fin (.wake []) cur work) σ [.fin .revoke cur work]
  | wake {askers asker n cur work} (h : askers[n]? = some asker)
    (hlive : σ.directory asker = true) : Advances σ (.fin (.wake askers) cur work) σ
      [.fin (.wakeTake asker (askers.eraseIdx n)) cur work]
  | wakeGone {askers asker n cur work} (h : askers[n]? = some asker)
    (hgone : σ.directory asker = false) : Advances σ (.fin (.wake askers) cur work) σ
      [.fin (.wake (askers.eraseIdx n)) cur work]
  | wakeTake {asker flow askers cur work} (h : (σ.mailboxes asker).parked = some flow) :
    Advances σ (.fin (.wakeTake asker askers) cur work) (σ.mail asker .takeParked)
      [.wake flow, .fin (.wake askers) cur work]
  | wakeTakeNone {asker askers cur work} (h : (σ.mailboxes asker).parked = none) :
    Advances σ (.fin (.wakeTake asker askers) cur work) (σ.mail asker .takeParked)
      [.fin (.wake askers) cur work]
  | revoke {cur work} : Advances σ (.fin .revoke cur work) σ [.fin .unregister cur work]
  | unregister {cur work} : Advances σ (.fin .unregister cur work)
      { σ with directory := update σ.directory cur.id false } [.fin .owned cur work]
  | owned {cur work} : Advances σ (.fin .owned cur work)
      { σ with monitors := σ.monitors.removeOwnedBy cur.id } [.fin .names cur work]
  | names {cur work} : Advances σ (.fin .names cur work)
      { σ with registry := σ.registry.unregisterFlow cur.id } [.fin .notify cur work]
  | notify {cur work} : Advances σ (.fin .notify cur work)
      { σ with monitors := (σ.monitors.notifyTargetExit cur.id cur.reason).1 }
      [.fin (.downs (σ.monitors.notifyTargetExit cur.id cur.reason).2) cur work]
  | downsNil {cur work} : Advances σ (.fin (.downs []) cur work) σ [.fin .links cur work]
  | downs {event events cur work} : Advances σ (.fin (.downs (event :: events)) cur work) σ
      [.down event, .fin (.downs events) cur work]
  | links {cur work} (h : cur.reason.isAbnormal = true) : Advances σ (.fin .links cur work)
      { σ with links := (σ.links.removeLinksOf cur.id).1 }
      [.fin (.peers (σ.links.removeLinksOf cur.id).2) cur work]
  | linksNormal {cur work} (h : cur.reason.isAbnormal = false) : Advances σ (.fin .links cur work)
      { σ with links := (σ.links.removeLinksOf cur.id).1 } (finNext work)
  | peersNil {cur work} : Advances σ (.fin (.peers []) cur work) σ (finNext work)
  | peers {peers peer n cur work} (h : peers[n]? = some peer) :
    Advances σ (.fin (.peers peers) cur work) σ
      [.kill .lookup peer .link (.link cur (peers.eraseIdx n) work)]
  | killLookup {peer cur peers work} (h : σ.directory peer = true) :
    Advances σ (.kill .lookup peer .link (.link cur peers work)) σ
      [.kill .set peer .link (.link cur peers work)]
  | killLookupGone {peer cur peers work} (h : σ.directory peer = false) :
    Advances σ (.kill .lookup peer .link (.link cur peers work)) σ [.fin (.peers peers) cur work]
  | killSet {peer cur peers work} : Advances σ (.kill .set peer .link (.link cur peers work))
      { σ with killSignals := update σ.killSignals peer (some .link) }
      [.kill .takeParked peer .link (.link cur peers work)]
  | killTakeParked {peer flow cur peers work} (h : (σ.mailboxes peer).parked = some flow) :
    Advances σ (.kill .takeParked peer .link (.link cur peers work)) (σ.mail peer .takeParked)
      [.fin (.peers peers) cur (work ++ [⟨flow, .failed "linked exit (link)", .link⟩])]
  | killNotParked {peer cur peers work} (h : (σ.mailboxes peer).parked = none) :
    Advances σ (.kill .takeParked peer .link (.link cur peers work)) (σ.mail peer .takeParked)
      [.kill .sendAtGet peer .link (.link cur peers work)]
  | killSendAt {peer target cur peers work} (h : σ.waitingSendAt peer = some target) :
    Advances σ (.kill .sendAtGet peer .link (.link cur peers work)) σ
      [.kill (.targetLookup target) peer .link (.link cur peers work)]
  | killNoSendAt {peer cur peers work} (h : σ.waitingSendAt peer = none) :
    Advances σ (.kill .sendAtGet peer .link (.link cur peers work)) σ
      [.fin (.peers peers) cur work]
  | killTarget {target peer cur peers work} (h : σ.directory target = true) :
    Advances σ (.kill (.targetLookup target) peer .link (.link cur peers work)) σ
      [.kill (.takeSender target) peer .link (.link cur peers work)]
  | killTargetGone {target peer cur peers work} (h : σ.directory target = false) :
    Advances σ (.kill (.targetLookup target) peer .link (.link cur peers work)) σ
      [.fin (.peers peers) cur work]
  | killTakeSender {target sender peer cur peers work}
    (h : ((σ.mailboxes target).takeWaitingSender peer).2 = some sender) :
    Advances σ (.kill (.takeSender target) peer .link (.link cur peers work))
      (σ.mail target (.takeWaitingSender peer))
      [.kill (.sendAtRemove sender) peer .link (.link cur peers work)]
  | killNoSender {target peer cur peers work}
    (h : ((σ.mailboxes target).takeWaitingSender peer).2 = none) :
    Advances σ (.kill (.takeSender target) peer .link (.link cur peers work))
      (σ.mail target (.takeWaitingSender peer)) [.fin (.peers peers) cur work]
  | killSendAtRemove {sender peer cur peers work} :
    Advances σ (.kill (.sendAtRemove sender) peer .link (.link cur peers work))
      { σ with waitingSendAt := update σ.waitingSendAt peer none }
      [.fin (.peers peers) cur (work ++ [⟨sender, .failed "linked exit (link)", .link⟩])]
  | down {event hop} : Advances σ (.down event) { σ with nextHop := σ.nextHop + 1 }
      [.downLookup event.owner hop]
  | downLookup {owner hop} : Advances σ (.downLookup owner hop) σ [.downPush owner hop]
  | downGone {owner hop} : Advances σ (.downLookup owner hop) σ []
  | downHandoff {owner hop receiver} (h : (σ.mailboxes owner).parked = some receiver) :
    Advances σ (.downPush owner hop) (σ.mail owner (.pushSystem hop)) [.forget receiver]
  | downPush {owner hop} : Advances σ (.downPush owner hop) (σ.mail owner (.pushSystem hop)) []
  | forget {flow} : Advances σ (.forget flow)
      { σ with askWaits := σ.askWaits.removeAsker flow.id } [.wake flow]
  | wakeQueue {flow} : Advances σ (.wake flow) { σ with queues := flow :: σ.queues } []

/-- What a step of `finalize_one` does. -/
theorem advances_fin (σ : Shared) {i : Input} {stage : FinStage} {cur : PendingExit}
    {work : List PendingExit} (hhost : cur.id ≠ FlowId.host)
    (hpick : (Frame.fin stage cur work).Picks i) :
    Advances σ (.fin stage cur work) (σ.exec (stage.next i cur work)).1
      (σ.exec (stage.next i cur work)).2 := by
  cases stage with
  | killTake =>
    simp only [FinStage.next, hhost, if_false]
    exact .killTake
  | sendAtRemove => exact .sendAtRemove
  | askRemove => exact .askRemove
  | lookup =>
    simp only [FinStage.next, Shared.exec]
    cases h : σ.directory cur.id
    · exact .lookupGone h
    · exact .lookup h
  | close => exact .close
  | senders senders =>
    cases senders with
    | nil => exact .sendersNil
    | cons sender rest => exact .senders
  | waiters =>
    have hwaiters := @Advances.waiters σ cur work
    rwa [← AskWaitIndex.takeWaitersOf_snd] at hwaiters
  | wake askers =>
    cases askers with
    | nil => exact .wakeNil
    | cons asker askers =>
      obtain ⟨n, hn, rfl⟩ := hpick
      obtain ⟨asker', hget⟩ : ∃ asker', (asker :: askers)[n]? = some asker' :=
        ⟨_, List.getElem?_eq_getElem (Nat.lt_succ_of_le hn)⟩
      simp only [FinStage.next, hget, Shared.exec]
      cases h : σ.directory asker'
      · exact .wakeGone hget h
      · exact .wake hget h
  | wakeTake asker askers =>
    simp only [FinStage.next, Shared.exec, Mailbox.result, Mailbox.takeParked]
    cases h : (σ.mailboxes asker).parked with
    | none => exact .wakeTakeNone h
    | some flow => exact .wakeTake h
  | revoke => exact .revoke
  | unregister => exact .unregister
  | owned => exact .owned
  | names => exact .names
  | notify => exact .notify
  | downs events =>
    cases events with
    | nil => exact .downsNil
    | cons event events => exact .downs
  | links =>
    simp only [FinStage.next, Shared.exec]
    cases h : cur.reason.isAbnormal
    · exact .linksNormal h
    · exact .links h
  | peers peers =>
    cases peers with
    | nil => exact .peersNil
    | cons peer peers =>
      obtain ⟨n, hn, rfl⟩ := hpick
      obtain ⟨peer', hget⟩ : ∃ peer', (peer :: peers)[n]? = some peer' :=
        ⟨_, List.getElem?_eq_getElem (Nat.lt_succ_of_le hn)⟩
      simp only [FinStage.next, hget, Shared.exec]
      exact .peers hget

/-- What a step of `extract_for_kill` for `collect_link_exit` does. -/
theorem advances_kill (σ : Shared) (stage : KillStage) (peer : FlowId) (cur : PendingExit)
    (peers : List FlowId) (work : List PendingExit) :
    Advances σ (.kill stage peer .link (.link cur peers work))
      (σ.exec (stage.next peer .link (.link cur peers work))).1
      (σ.exec (stage.next peer .link (.link cur peers work))).2 := by
  cases stage with
  | lookup =>
    simp only [KillStage.next, Shared.exec]
    cases h : σ.directory peer
    · exact .killLookupGone h
    · exact .killLookup h
  | set => exact .killSet
  | takeParked =>
    simp only [KillStage.next, Shared.exec, Mailbox.result, Mailbox.takeParked]
    cases h : (σ.mailboxes peer).parked with
    | none => exact .killNotParked h
    | some flow => exact .killTakeParked h
  | sendAtGet =>
    simp only [KillStage.next, Shared.exec]
    cases h : σ.waitingSendAt peer with
    | none => exact .killNoSendAt h
    | some target => exact .killSendAt h
  | targetLookup target =>
    simp only [KillStage.next, Shared.exec]
    cases h : σ.directory target
    · exact .killTargetGone h
    · exact .killTarget h
  | takeSender target =>
    simp only [KillStage.next, Shared.exec, Mailbox.result]
    cases h : ((σ.mailboxes target).takeWaitingSender peer).2 with
    | none => exact .killNoSender h
    | some sender => exact .killTakeSender h
  | sendAtRemove sender => exact .killSendAtRemove

/-- What a step of a frame on top does. -/
theorem advances_aside (σ : Shared) {i : Input} {f : Frame} (hf : f.Aside) :
    Advances σ f (σ.exec (f.next i)).1 (σ.exec (f.next i)).2 := by
  cases f <;> try exact hf.elim
  case down event => exact .down
  case downLookup owner hop =>
    simp only [Frame.next, Shared.exec]
    split_ifs
    · exact .downLookup
    · exact .downGone
  case downPush owner hop =>
    simp only [Frame.next, Shared.exec, Mailbox.result]
    rcases (σ.mailboxes owner).pushSystem_cases hop with ⟨flow, hp, -, he⟩ | ⟨-, he⟩
    · rw [he]
      exact .downHandoff hp
    · rw [he]
      exact .downPush
  case forget flow => exact .forget
  case wake flow => exact .wakeQueue

/-! ## The frames of a finalization -/

/-- A frame of `finalize_one`, and perhaps one on top. -/
inductive Stack : List Frame → Prop
  | nil : Stack []
  | body {b} (hb : b.Body) : Stack [b]
  | aside {f stage cur work} (hf : f.Aside) : Stack [f, .fin stage cur work]

theorem stack_finNext (work : List PendingExit) : Stack (finNext work) := by
  unfold finNext
  split
  · exact .body trivial
  · exact .nil

theorem Advances.stack {σ σ' : Shared} {f : Frame} {k : List Frame} (h : Advances σ f σ' k)
    (hf : f.Body) : Stack k := by
  cases h with
  | linksNormal h => exact stack_finNext _
  | peersNil => exact stack_finNext _
  | wakeTake h => exact .aside trivial
  | downs => exact .aside trivial
  | peers h => exact .body rfl
  | killLookup h => exact .body rfl
  | killSet => exact .body rfl
  | killNotParked h => exact .body rfl
  | killSendAt h => exact .body rfl
  | killTarget h => exact .body rfl
  | killTakeSender h => exact .body rfl
  | down => exact hf.elim
  | downLookup => exact hf.elim
  | downGone => exact hf.elim
  | downHandoff h => exact hf.elim
  | downPush => exact hf.elim
  | forget => exact hf.elim
  | wakeQueue => exact hf.elim
  | _ => exact .body trivial

/-- A frame on top is followed by another one, or goes. -/
theorem Advances.aside {σ σ' : Shared} {f : Frame} {k : List Frame} (h : Advances σ f σ' k)
    (hf : f.Aside) (stage : FinStage) (cur : PendingExit) (work : List PendingExit) :
    Stack (k ++ [.fin stage cur work]) := by
  cases h with
  | down => exact .aside trivial
  | downLookup => exact .aside trivial
  | downGone => exact .body trivial
  | downHandoff h => exact .aside trivial
  | downPush => exact .body trivial
  | forget => exact .aside trivial
  | wakeQueue => exact .body trivial
  | _ => exact hf.elim

theorem Advances.stack_append {σ σ' : Shared} {f : Frame} {k below : List Frame}
    (h : Advances σ f σ' k) (hstack : Stack (f :: below)) : Stack (k ++ below) := by
  cases hstack with
  | body hb =>
    rw [List.append_nil]
    exact h.stack hb
  | aside hf => exact h.aside hf ..

/-! ## The end -/

/-- How far it is to the next `unregister`. -/
def Frame.rank : Frame → ℕ
  | .fin stage _ _ => (25 - stage.order) % 16
  | .kill _ _ _ (.link _ _ _) => 10
  | _ => 0

def KillStage.left : KillStage → ℕ
  | .lookup => 7
  | .set => 6
  | .takeParked => 5
  | .sendAtGet => 4
  | .targetLookup _ => 3
  | .takeSender _ => 2
  | .sendAtRemove _ => 1

/-- The steps that a stage may take. -/
def Frame.left : Frame → ℕ
  | .fin (.senders senders) _ _ => senders.length
  | .fin (.wake askers) _ _ => 3 * askers.length
  | .fin (.wakeTake _ askers) _ _ => 3 * askers.length + 2
  | .fin (.downs events) _ _ => 6 * events.length
  | .fin (.peers peers) _ _ => 8 * peers.length
  | .kill stage _ _ (.link _ peers _) => 8 * peers.length + stage.left
  | .down _ => 5
  | .downLookup _ _ => 4
  | .downPush _ _ => 3
  | .forget _ => 2
  | .wake _ => 1
  | _ => 0

theorem rank_finNext (work : List PendingExit) : ((finNext work).map Frame.rank).sum ≤ 9 := by
  unfold finNext
  split <;> simp [Frame.rank, FinStage.order]

/-- A step takes the flow out of the directory, or comes closer to the `unregister` that does. -/
theorem Advances.closer {σ σ' : Shared} {f : Frame} {k : List Frame} (h : Advances σ f σ' k) :
    (∃ cur work, f = .fin .unregister cur work ∧
        σ'.directory = update σ.directory cur.id false) ∨
      (σ'.directory = σ.directory ∧ ((k.map Frame.rank).sum < f.rank ∨
        ((k.map Frame.rank).sum = f.rank ∧ (k.map Frame.left).sum < f.left))) := by
  have herase : ∀ {l : List FlowId} {n : ℕ} {a : FlowId}, l[n]? = some a →
      (l.eraseIdx n).length + 1 = l.length := by
    intro l n a h
    obtain ⟨hn, -⟩ := List.getElem?_eq_some_iff.mp h
    rw [List.length_eraseIdx_of_lt hn]
    omega
  cases h with
  | unregister => exact .inl ⟨_, _, rfl, rfl⟩
  | linksNormal h =>
    refine .inr ⟨rfl, .inl (Nat.lt_of_le_of_lt (rank_finNext _) ?_)⟩
    show 9 < 11
    omega
  | peersNil =>
    refine .inr ⟨rfl, .inl (Nat.lt_of_le_of_lt (rank_finNext _) ?_)⟩
    show 9 < 10
    omega
  | wake h hlive =>
    have := herase h
    exact .inr ⟨rfl, .inr ⟨rfl, by simp [Frame.left]; omega⟩⟩
  | wakeGone h hgone =>
    have := herase h
    exact .inr ⟨rfl, .inr ⟨rfl, by simp [Frame.left]; omega⟩⟩
  | peers h =>
    have := herase h
    exact .inr ⟨rfl, .inr ⟨rfl, by simp [Frame.left, KillStage.left]; omega⟩⟩
  | _ =>
    refine .inr ⟨rfl, ?_⟩
    simp [Frame.rank, Frame.left, KillStage.left, FinStage.order] <;> omega

/-- The registered flows. -/
def Shared.live (σ : Shared) : Finset FlowId :=
  (Finset.range σ.nextFlowId).filter fun id => σ.directory id = true

/-- How much thread `t` has to do at most: flows to finalize first, then steps to the next one. -/
def workLeft (t : ℕ) (s : State) : ℕ ×ₗ ℕ ×ₗ ℕ :=
  toLex (s.shared.live.card,
    toLex (((s.threads t).map Frame.rank).sum, ((s.threads t).map Frame.left).sum))

theorem Advances.nextFlowId {σ σ' : Shared} {f : Frame} {k : List Frame} (h : Advances σ f σ' k) :
    σ'.nextFlowId = σ.nextFlowId := by
  cases h <;> rfl

/-- A step of a finalization, with the frames below. -/
theorem step_advances {s : State} (ho : Owned s) {t : ℕ} {i : Input} {f : Frame}
    {below : List Frame} (hs : s.threads t = f :: below) (hf : f.Body ∨ f.Aside)
    (hpick : f.Picks i) :
    ∃ k, Advances s.shared f (step s (t, i)).shared k ∧
      (step s (t, i)).threads t = k ++ below := by
  have hadv : Advances s.shared f (s.shared.exec (f.next i)).1 (s.shared.exec (f.next i)).2 := by
    rcases hf with hf | hf
    · cases f <;> try exact hf.elim
      case fin stage cur work =>
        have hcur := ho.spawned_of_frame (mem_frames_of_cons hs) (cur_mem_boxes stage cur work)
        exact advances_fin s.shared hcur.1.ne' hpick
      case kill stage peer reason next =>
        cases next with
        | request => exact hf.elim
        | link cur peers work =>
          cases hf
          exact advances_kill s.shared stage peer cur peers work
    · exact advances_aside s.shared hf
  refine ⟨(s.shared.exec (f.next i)).2, ?_, ?_⟩
  · rw [step_shared, next_of_cons i hs]
    exact hadv
  · rw [step_threads_self, next_of_cons i hs]

/-- **A step of a finalization leaves less to do.** -/
theorem workLeft_step {s : State} (hs : Sound s) {t : ℕ} {i : Input} {f : Frame}
    {below k : List Frame} (hthread : s.threads t = f :: below)
    (hadv : Advances s.shared f (step s (t, i)).shared k)
    (hthread' : (step s (t, i)).threads t = k ++ below) :
    workLeft t (step s (t, i)) < workLeft t s := by
  have hmem := mem_frames_of_cons hthread
  rcases hadv.closer with ⟨cur, work, rfl, hdir⟩ | ⟨hdir, hless⟩
  · -- the flow was registered, and is no longer
    have hcur : s.shared.directory cur.id = true :=
      hs.registered.frames _ hmem cur.id (cur_mem_boxes .unregister cur work)
    have hlt := (hs.closed.known cur.id hcur).2
    have hsub : (step s (t, i)).shared.live ⊂ s.shared.live := by
      unfold Shared.live
      rw [hdir, hadv.nextFlowId]
      refine Finset.ssubset_iff_subset_ne.mpr ⟨fun id hid => ?_, fun heq => ?_⟩
      · simp only [Finset.mem_filter] at hid ⊢
        refine ⟨hid.1, ?_⟩
        by_cases hcid : id = cur.id
        · exact hcid ▸ hcur
        · simpa [hcid] using hid.2
      · have hin : cur.id ∈ (Finset.range s.shared.nextFlowId).filter
            fun id => s.shared.directory id = true :=
          Finset.mem_filter.mpr ⟨Finset.mem_range.mpr hlt, hcur⟩
        rw [← heq] at hin
        simp at hin
    exact Prod.Lex.toLex_lt_toLex.mpr (.inl (Finset.card_lt_card hsub))
  · have hlive : (step s (t, i)).shared.live = s.shared.live := by
      unfold Shared.live
      rw [hdir, hadv.nextFlowId]
    unfold workLeft
    rw [hlive, hthread, hthread']
    refine Prod.Lex.toLex_lt_toLex.mpr (.inr ⟨rfl, Prod.Lex.toLex_lt_toLex.mpr ?_⟩)
    simp only [List.map_append, List.sum_append, List.map_cons, List.sum_cons]
    omega

/-! ## The tables shrink -/

/-- A finalization only takes out of a mailbox what waits there. -/
structure MailboxShrinks (m m' : Mailbox Hop) : Prop where
  waiting : m'.waitingSenders ⊆ m.waitingSenders
  parked : m'.parked = none ∨ (m'.parked = m.parked ∧ m'.parkedFilter = m.parkedFilter)

/-- Kill signals, hops and runnable flows apart, nothing is added. -/
structure Shrinks (σ σ' : Shared) : Prop where
  mailboxes : ∀ id, MailboxShrinks (σ.mailboxes id) (σ'.mailboxes id)
  directory : ∀ id, σ'.directory id = true → σ.directory id = true
  waitingSendAt : ∀ a target, σ'.waitingSendAt a = some target → σ.waitingSendAt a = some target
  byAsker : ∀ a target, σ'.askWaits.byAsker a = some target → σ.askWaits.byAsker a = some target
  byTarget : ∀ target, σ'.askWaits.askersOf target ⊆ σ.askWaits.askersOf target
  requestIds : ∀ a, (σ'.askWaits.requestIds a).isSome → (σ.askWaits.requestIds a).isSome
  monitors : σ'.monitors.monitors ⊆ σ.monitors.monitors
  links : σ'.links.links ⊆ σ.links.links
  names : ∀ name id, σ'.registry.target name = some id → σ.registry.target name = some id

namespace Shrinks

variable {σ σ' σ'' : Shared}

theorem refl (σ : Shared) : Shrinks σ σ where
  mailboxes := fun _ => ⟨fun _ h => h, .inr ⟨rfl, rfl⟩⟩
  directory := fun _ h => h
  waitingSendAt := fun _ _ h => h
  byAsker := fun _ _ h => h
  byTarget := fun _ _ h => h
  requestIds := fun _ h => h
  monitors := fun _ h => h
  links := fun _ h => h
  names := fun _ _ h => h

theorem trans (h : Shrinks σ σ') (h' : Shrinks σ' σ'') : Shrinks σ σ'' where
  mailboxes := fun id => by
    refine ⟨fun w hw => (h.mailboxes id).waiting ((h'.mailboxes id).waiting hw), ?_⟩
    rcases (h'.mailboxes id).parked with hnone | ⟨hp, hf⟩
    · exact .inl hnone
    · rw [hp, hf]
      exact (h.mailboxes id).parked
  directory := fun id hid => h.directory id (h'.directory id hid)
  waitingSendAt := fun a target ha => h.waitingSendAt a target (h'.waitingSendAt a target ha)
  byAsker := fun a target ha => h.byAsker a target (h'.byAsker a target ha)
  byTarget := fun target _ ha => h.byTarget target (h'.byTarget target ha)
  requestIds := fun a ha => h.requestIds a (h'.requestIds a ha)
  monitors := fun _ he => h.monitors (h'.monitors he)
  links := fun _ hk => h.links (h'.links hk)
  names := fun name id hid => h.names name id (h'.names name id hid)

/-- A mailbox operation that shrinks the mailbox. -/
theorem mail {id : FlowId} {op : Mailbox.Op Hop}
    (h : MailboxShrinks (σ.mailboxes id) ((σ.mailboxes id).after op)) :
    Shrinks σ (σ.mail id op) where
  __ := refl σ
  mailboxes := fun id' => by
    by_cases hid : id' = id
    · subst hid
      simpa [Shared.mail] using h
    · simpa [Shared.mail, hid] using (refl σ).mailboxes id'

theorem removeAsker (asker : FlowId) :
    Shrinks σ { σ with askWaits := σ.askWaits.removeAsker asker } where
  __ := refl σ
  byAsker := fun a target ha => by
    show σ.askWaits.byAsker a = some target
    unfold AskWaitIndex.removeAsker at ha
    cases hasker : σ.askWaits.byAsker asker with
    | none => simpa [hasker] using ha
    | some t =>
      by_cases heq : a = asker <;> simp_all
  byTarget := fun target a ha => AskWaitIndex.mem_of_mem_removeAsker ha
  requestIds := fun a ha => by
    show (σ.askWaits.requestIds a).isSome
    unfold AskWaitIndex.removeAsker at ha
    by_cases heq : a = asker
    · cases hasker : σ.askWaits.byAsker asker <;> simp [hasker, heq] at ha
    · cases hasker : σ.askWaits.byAsker asker <;> simpa [hasker, heq] using ha

theorem takeWaitersOf (target : FlowId) :
    Shrinks σ { σ with askWaits := (σ.askWaits.takeWaitersOf target).1 } where
  __ := refl σ
  byAsker := fun a t ha => by
    rw [AskWaitIndex.takeWaitersOf_byAsker] at ha
    split_ifs at ha
    exact ha
  byTarget := fun t a ha => (AskWaitIndex.mem_takeWaitersOf.mp ha).2
  requestIds := fun a ha => by
    rw [AskWaitIndex.takeWaitersOf_requestIds] at ha
    split_ifs at ha
    · cases ha
    · exact ha

theorem removeSendAt (sender : FlowId) :
    Shrinks σ { σ with waitingSendAt := update σ.waitingSendAt sender none } where
  __ := refl σ
  waitingSendAt := fun a target ha => by
    show σ.waitingSendAt a = some target
    by_cases heq : a = sender <;> simp_all

end Shrinks

theorem takeParked_shrinks (m : Mailbox Hop) : MailboxShrinks m (m.after .takeParked) :=
  ⟨fun _ h => h, .inl rfl⟩

theorem close_shrinks (m : Mailbox Hop) : MailboxShrinks m (m.after .close) :=
  ⟨fun _ h => absurd h List.not_mem_nil, .inr ⟨rfl, rfl⟩⟩

theorem takeWaitingSender_shrinks (m : Mailbox Hop) (sender : FlowId) :
    MailboxShrinks m (m.after (.takeWaitingSender sender)) := by
  simp only [Mailbox.after, Mailbox.takeWaitingSender, FirstMatch.extract_eq]
  cases m.waitingSenders.find? (fun w => w.flow.id == sender) with
  | none => exact ⟨fun _ h => h, .inr ⟨rfl, rfl⟩⟩
  | some w => exact ⟨fun _ h => List.mem_of_mem_eraseP h, .inr ⟨rfl, rfl⟩⟩

theorem pushSystem_waitingSenders (m : Mailbox Hop) (hop : Hop) :
    (m.after (.pushSystem hop)).waitingSenders = m.waitingSenders := by
  simp only [Mailbox.after]
  rcases m.pushSystem_cases hop with ⟨flow, -, -, he⟩ | ⟨-, he⟩
  · rw [he]
    rfl
  · rw [he]

theorem pushSystem_shrinks (m : Mailbox Hop) (hop : Hop) :
    MailboxShrinks m (m.after (.pushSystem hop)) := by
  refine ⟨by rw [pushSystem_waitingSenders]; exact fun _ h => h, ?_⟩
  simp only [Mailbox.after]
  rcases m.pushSystem_cases hop with ⟨flow, -, -, he⟩ | ⟨-, he⟩
  · rw [he]
    exact .inl rfl
  · rw [he]
    exact .inr ⟨rfl, rfl⟩

theorem Advances.shrinks {σ σ' : Shared} {f : Frame} {k : List Frame} (h : Advances σ f σ' k) :
    Shrinks σ σ' := by
  cases h with
  | killTake => exact { Shrinks.refl σ with }
  | sendAtRemove => exact .removeSendAt _
  | askRemove => exact .removeAsker _
  | close => exact .mail (close_shrinks _)
  | senders => exact .removeSendAt _
  | waiters => exact .takeWaitersOf _
  | wakeTake h => exact .mail (takeParked_shrinks _)
  | wakeTakeNone h => exact .mail (takeParked_shrinks _)
  | @unregister cur work =>
    refine { Shrinks.refl σ with directory := fun id hid => ?_ }
    show σ.directory id = true
    by_cases heq : id = cur.id <;> simp_all
  | owned => exact { Shrinks.refl σ with monitors := List.filter_subset_self _ }
  | names =>
    exact { Shrinks.refl σ with names := fun name id hid => Registry.target_of_unregisterFlow hid }
  | notify => exact { Shrinks.refl σ with monitors := List.filter_subset_self _ }
  | links h => exact { Shrinks.refl σ with links := List.filter_subset_self _ }
  | linksNormal h => exact { Shrinks.refl σ with links := List.filter_subset_self _ }
  | killSet => exact { Shrinks.refl σ with }
  | killTakeParked h => exact .mail (takeParked_shrinks _)
  | killNotParked h => exact .mail (takeParked_shrinks _)
  | killTakeSender h => exact .mail (takeWaitingSender_shrinks ..)
  | killNoSender h => exact .mail (takeWaitingSender_shrinks ..)
  | killSendAtRemove => exact .removeSendAt _
  | down => exact { Shrinks.refl σ with }
  | downHandoff h => exact .mail (pushSystem_shrinks ..)
  | downPush => exact .mail (pushSystem_shrinks ..)
  | forget => exact .removeAsker _
  | wakeQueue => exact { Shrinks.refl σ with }
  | _ => exact .refl σ

end Machine

end Byteflow
