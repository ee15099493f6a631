import Byteflow.Scheduler.Capability.Table

/-!
# Tokens in transit

A token is only good for its holder, so what one flow hands to another is walked and its tokens are
made anew for the recipient: `reissueCapsInValue` and `reissueCapsFromHost` do it for the payload
of a hop, `grantCapsInArgs` for the arguments of a spawn. The last one looks at no value inside a
message, and does not pass on the token that is none; otherwise the two agree
(`grantCapsInArgs_agrees_iff`).
-/

namespace Byteflow

namespace CapTable

/-- Every token in the value, at any depth, is delegated to the recipient. -/
def reissueCapsInValue (sender recipient : FlowId) : Value → Code Value
  | .cap id => if id = CapId.none then pure (.cap id)
    else return .cap (← delegate id sender recipient)
  | .message s c r t payload =>
    return .message s c r t (← reissueCapsInValue sender recipient payload)
  | v => pure v

/-- The host may give away any token. -/
def reissueCapsFromHost (recipient : FlowId) : Value → Code Value
  | .cap id => if id = CapId.none then pure (.cap id)
    else return .cap (← reissueFor id recipient)
  | .message s c r t payload => return .message s c r t (← reissueCapsFromHost recipient payload)
  | v => pure v

/-- Only a top-level token is reissued. -/
def grantCapsInArgs (parent : Option FlowId) (child : FlowId) : List Value → Code (List Value)
  | [] => pure []
  | .cap id :: args => do
    let granted ← match parent with
      | none => reissueFor id child
      | some p => delegate id p child
    return .cap granted :: (← grantCapsInArgs parent child args)
  | arg :: args => return arg :: (← grantCapsInArgs parent child args)

end CapTable

namespace Value

/-- The token at the bottom of a value. The payload of a message is one value, so there is at most
one. -/
def bottom : Value → Option CapId
  | cap id => some id
  | message _ _ _ _ payload => payload.bottom
  | _ => none

/-- The value with another token at its bottom. -/
def withBottom (id : CapId) : Value → Value
  | cap _ => cap id
  | message s c r t payload => message s c r t (payload.withBottom id)
  | v => v

end Value

namespace CapTable

/-- `w` is `v` for the recipient: in place of every token it has a new one, of the recipient, for
the same record. -/
def Reissued (t t' : CapTable) (recipient : FlowId) : Value → Value → Prop
  | .cap id, w => if id = CapId.none then w = .cap id
    else ∃ id' entry, t.entries id = some entry ∧ t.entries id' = none ∧ w = .cap id' ∧
      t'.entries id' = some ⟨recipient, entry.cap⟩
  | .message s c r tag payload, w =>
    ∃ payload', w = .message s c r tag payload' ∧ Reissued t t' recipient payload payload'
  | v, w => w = v

/-- A spawn argument fares as the payload of a hop would. -/
def Agree (s : Session) (parent child : FlowId) (v : Value) : Prop :=
  ((∃ args, (tryAtOnce (grantCapsInArgs (some parent) child [v]) s).2 = .ok args) ↔
    ∃ w, (tryAtOnce (reissueCapsInValue parent child v) s).2 = .ok w) ∧
  (∀ args, (tryAtOnce (grantCapsInArgs (some parent) child [v]) s).2 = .ok args →
    ∃ w, args = [w] ∧ Reissued s.1 (tryAtOnce (grantCapsInArgs (some parent) child [v]) s).1.1
      child v w) ∧
  ∀ w, (tryAtOnce (reissueCapsInValue parent child v) s).2 = .ok w →
    Reissued s.1 (tryAtOnce (reissueCapsInValue parent child v) s).1.1 child v w

/-- Where the two walks differ. -/
def Drifts (v : Value) : Prop :=
  v = .cap CapId.none ∨
    ∃ m, v.asMessage = some m ∧ ∃ id, m.payload.bottom = some id ∧ id ≠ CapId.none

/-! ## The walk of a payload -/

/-- Without a token there is nothing to do. -/
theorem reissue_of_bottom_none {v : Value} (h : ∀ id, v.bottom = some id → id = CapId.none)
    (sender recipient : FlowId) (s : Session) :
    tryAtOnce (reissueCapsInValue sender recipient v) s = (s, .ok v) := by
  induction v with
  | cap id =>
    obtain rfl := h id rfl
    rfl
  | message _ _ _ _ payload ih => simp [reissueCapsInValue, ih h]
  | _ => rfl

/-- The one token of a value is delegated. -/
theorem reissue_of_bottom {v : Value} {id : CapId} (h : v.bottom = some id)
    (hid : id ≠ CapId.none) (sender recipient : FlowId) (s : Session) :
    tryAtOnce (reissueCapsInValue sender recipient v) s =
      match tryAtOnce (delegate id sender recipient) s with
      | (s', .ok id') => (s', .ok (v.withBottom id'))
      | (s', .error e) => (s', .error e) := by
  induction v with
  | cap id' =>
    cases h
    simp only [reissueCapsInValue, hid, if_false, tryAtOnce_bind]
    rcases tryAtOnce (delegate id sender recipient) s with ⟨s', r⟩
    cases r <;> rfl
  | message _ _ _ _ payload ih =>
    simp only [reissueCapsInValue, tryAtOnce_bind, ih h]
    rcases tryAtOnce (delegate id sender recipient) s with ⟨s', r⟩
    cases r <;> rfl
  | _ => cases h

theorem reissued_of_bottom_none {v : Value} (h : ∀ id, v.bottom = some id → id = CapId.none)
    (t t' : CapTable) (recipient : FlowId) : Reissued t t' recipient v v := by
  induction v with
  | cap id =>
    obtain rfl := h id rfl
    unfold Reissued
    rw [if_pos rfl]
  | message _ _ _ _ payload ih => exact ⟨payload, rfl, ih h⟩
  | _ => rfl

theorem reissued_withBottom {v : Value} {id id' : CapId} (h : v.bottom = some id)
    (hid : id ≠ CapId.none) {t t' : CapTable} {recipient : FlowId} {entry : Capability}
    (he : t.entries id = some entry) (hfree : t.entries id' = none)
    (he' : t'.entries id' = some ⟨recipient, entry.cap⟩) :
    Reissued t t' recipient v (v.withBottom id') := by
  induction v with
  | cap id' =>
    cases h
    unfold Reissued
    rw [if_neg hid]
    exact ⟨id', entry, he, hfree, rfl, he'⟩
  | message _ _ _ _ payload ih => exact ⟨_, rfl, ih h⟩
  | _ => cases h

/-- A value whose token stays is not reissued. -/
theorem not_reissued_self {v : Value} {id : CapId} (h : v.bottom = some id)
    (hid : id ≠ CapId.none) (t t' : CapTable) (recipient : FlowId) :
    ¬Reissued t t' recipient v v := by
  induction v with
  | cap id' =>
    cases h
    unfold Reissued
    rw [if_neg hid]
    rintro ⟨id'', entry, he, hfree, heq, _⟩
    cases heq
    cases he.symm.trans hfree
  | message _ _ _ _ payload ih =>
    rintro ⟨payload', heq, hpayload⟩
    cases heq
    exact ih h hpayload
  | _ => cases h

/-- What `delegate` makes is a token of the recipient for the same record. -/
theorem delegate_spec {id id' : CapId} {fromHolder toHolder : FlowId} {s s' : Session}
    (h : tryAtOnce (delegate id fromHolder toHolder) s = (s', .ok id')) :
    ∃ entry, s.1.entries id = some entry ∧ s.1.entries id' = none ∧
      s'.1.entries id' = some ⟨toHolder, entry.cap⟩ := by
  rcases delegate_cases id fromHolder toHolder s with
    ⟨src, _, hres, _, id'', _, _, hfree, h'⟩ | ⟨draws, e, h'⟩
  · cases h.symm.trans h'
    rw [Cap.attenuate_self]
    exact ⟨src, (resolve_ok hres).2.1, hfree, Function.update_self ..⟩
  · cases h.symm.trans h'

theorem reissue_reissued {v w : Value} {sender recipient : FlowId} {s : Session}
    (h : (tryAtOnce (reissueCapsInValue sender recipient v) s).2 = .ok w) :
    Reissued s.1 (tryAtOnce (reissueCapsInValue sender recipient v) s).1.1 recipient v w := by
  by_cases hb : ∀ id, v.bottom = some id → id = CapId.none
  · rw [reissue_of_bottom_none hb] at h ⊢
    cases h
    exact reissued_of_bottom_none hb ..
  · push Not at hb
    obtain ⟨id, hid, hne⟩ := hb
    rw [reissue_of_bottom hid hne] at h ⊢
    rcases hd : tryAtOnce (delegate id sender recipient) s with ⟨s', r⟩
    rw [hd] at h
    cases r with
    | error e => cases h
    | ok id' =>
      cases h
      obtain ⟨entry, he, hfree, he'⟩ := delegate_spec hd
      exact reissued_withBottom hid hne he hfree he'

/-! ## The walk of an argument -/

theorem grant_cap (parent child : FlowId) (id : CapId) (s : Session) :
    tryAtOnce (grantCapsInArgs (some parent) child [.cap id]) s =
      match tryAtOnce (delegate id parent child) s with
      | (s', .ok id') => (s', .ok [.cap id'])
      | (s', .error e) => (s', .error e) := by
  simp only [grantCapsInArgs, tryAtOnce_bind]
  rcases tryAtOnce (delegate id parent child) s with ⟨s', r⟩
  cases r <;> simp

/-- Any other value is passed on as it is. -/
theorem grant_of_not_cap {v : Value} (h : v.asCap = none) (parent child : FlowId) (s : Session) :
    tryAtOnce (grantCapsInArgs (some parent) child [v]) s = (s, .ok [v]) := by
  cases v with
  | cap id => cases h
  | _ => rfl

/-- A spawn argument fares as a payload exactly if it is not the token that is none, and no message
with a token in it. -/
theorem grantCapsInArgs_agrees_iff (s : Session) (parent child : FlowId) (v : Value) :
    Agree s parent child v ↔ ¬Drifts v := by
  by_cases hcap : v.asCap = none
  · unfold Agree
    rw [grant_of_not_cap hcap]
    by_cases hb : ∀ id, v.bottom = some id → id = CapId.none
    · -- neither walk finds a token
      have hok : ¬Drifts v := by
        rintro (rfl | ⟨m, hm, id, hid, hne⟩)
        · cases hcap
        · cases v <;> cases hm
          exact hne (hb id hid)
      refine iff_of_true ⟨?_, fun args h => ?_, fun w h => reissue_reissued h⟩ hok
      · rw [reissue_of_bottom_none hb]
        exact ⟨fun _ => ⟨v, rfl⟩, fun _ => ⟨[v], rfl⟩⟩
      · cases h
        exact ⟨v, rfl, reissued_of_bottom_none hb ..⟩
    · -- the token inside of the message stays
      push Not at hb
      obtain ⟨id, hid, hne⟩ := hb
      refine iff_of_false (fun h => ?_) (not_not.mpr (.inr ?_))
      · obtain ⟨w, hw, hre⟩ := h.2.1 [v] rfl
        cases hw
        exact not_reissued_self hid hne _ _ _ hre
      · cases v with
        | message s c r t payload => exact ⟨_, rfl, id, hid, hne⟩
        | cap id => cases hcap
        | _ => cases hid
  · obtain ⟨id, rfl⟩ : ∃ id, v = .cap id := by
      cases v <;> first | exact ⟨_, rfl⟩ | exact absurd rfl hcap
    by_cases hid : id = CapId.none
    · subst hid
      refine iff_of_false (fun h => ?_) (not_not.mpr (.inl rfl))
      obtain ⟨args, hargs⟩ := h.1.mpr ⟨_, rfl⟩
      rw [grant_cap] at hargs
      cases hargs
    · have hok : ¬Drifts (.cap id) := by
        rintro (heq | ⟨m, hm, _⟩)
        · cases heq
          exact hid rfl
        · cases hm
      refine iff_of_true ⟨?_, fun args h => ?_, fun w h => reissue_reissued h⟩ hok
      · rw [grant_cap, reissue_of_bottom rfl hid]
        rcases tryAtOnce (delegate id parent child) s with ⟨s', r⟩
        cases r with
        | ok id' => exact ⟨fun _ => ⟨_, rfl⟩, fun _ => ⟨_, rfl⟩⟩
        | error e => exact ⟨nofun, nofun⟩
      · rw [grant_cap] at h ⊢
        rcases hd : tryAtOnce (delegate id parent child) s with ⟨s', r⟩
        rw [hd] at h
        cases r with
        | error e => cases h
        | ok id' =>
          cases h
          obtain ⟨entry, he, hfree, he'⟩ := delegate_spec hd
          exact ⟨_, rfl, reissued_withBottom rfl hid he hfree he'⟩

/-- Flow 1 passes on a message whose payload is the token that it holds for itself: as a spawn
argument its token stays flow 1's. -/
theorem grantCapsInArgs_nested :
    let s := (atOnce (mint 1 1 CapRights.addressing) (new, [[⟨5⟩], [⟨6⟩]])).1
    let v := Value.message 1 CapId.none 1 1 (.cap ⟨5⟩)
    s.1.entries ⟨5⟩ = some ⟨1, ⟨.flow 1, CapRights.addressing, none, 0⟩⟩ ∧
    (tryAtOnce (grantCapsInArgs (some 1) 2 [v]) s).2 = .ok [v] ∧
    (tryAtOnce (reissueCapsInValue 1 2 v) s).2 = .ok (.message 1 CapId.none 1 1 (.cap ⟨6⟩)) ∧
    ¬Agree s 1 2 v := by
  refine ⟨rfl, rfl, rfl, fun h => ?_⟩
  obtain ⟨w, hw, hre⟩ := h.2.1 _ rfl
  cases hw
  exact not_reissued_self rfl (by decide) _ _ _ hre

end CapTable

end Byteflow
