import Byteflow.Foundations.Condvar

/-!
# Rules for threads beside a condition variable

`ledger` is the rule for what every move keeps of the shared state. `Attends` is the rule against
lost wakeups: what a wait relies on holds, or a thread is on its way to a notify. Two rules are
about a flag that stops the threads: by `Ceases` a thread does once at most what it does by a flag
that it saw unset, and by `Heeds` no thread sleeps through the setting of the flag.
-/

namespace Condvar

open Function (update_self update_of_ne)

variable {σ κ γ ρ ι : Type} [DecidableEq ι] (M : Condvar σ κ γ ρ)

section

variable {M}

/-- **The ledger rule.** What every move keeps of the shared state and the results holds in every
run. -/
theorem ledger {I : σ → List (ι × ℕ × ρ) → Prop}
    (hmove : ∀ {k now s i rs}, I s rs → I ((M.code k now s).shared s)
      (rs ++ ((M.code k now s).result.map fun r => (i, now, r)).toList))
    {now : ℕ} {s : σ} (h : I s []) (is : List (Input ι γ)) :
    I (Schedule.run M.step (.init now s) is).shared
      (Schedule.run M.step (.init now s) is).results := by
  refine Schedule.invariant (I := fun s : State σ κ ρ ι => I s.shared s.results)
    (fun s input hs => ?_) h is
  have hacts := M.acts_step s input
  generalize M.step s input = s' at hacts
  cases hacts with
  | move hi pick => exact hmove hs
  | _ => exact hs

/-- What each thread keeps by itself, a step preserves. -/
theorem threads_step {J : ι → Thread κ → Prop} {C : ι → γ → Prop}
    (hroused : ∀ {i t}, J i t → J i t.roused)
    (hturn : ∀ {i now s t t'}, Turn M (C i) now s t t' → J i t → J i t')
    {s : State σ κ ρ ι} {input : Input ι γ} (hinput : ∀ {i c}, input = .call i c → C i c)
    (h : ∀ i, J i (s.threads i)) (i : ι) : J i ((M.step s input).threads i) := by
  rcases (M.acts_step s input).threads i with hsame | hwoken | hown
  · rw [hsame]
    exact h i
  · rw [hwoken]
    exact hroused (h i)
  · refine @hturn i s.now s.shared _ _ ?_ (h i)
    generalize (M.step s input).threads i = t' at hown
    generalize s.threads i = t at hown
    cases hown with
    | call hc => exact .call (hinput hc)
    | take k => exact .take k
    | move k => exact .move k

/-- What becomes of a thread in a step that is not a move of the code. -/
inductive Passes (M : Condvar σ κ γ ρ) : Thread κ → Thread κ → Prop
  | same (t : Thread κ) : Passes M t t
  | roused (t : Thread κ) : Passes M t t.roused
  | call (c : γ) : Passes M .idle (.running (M.start c))
  | take (k : κ) : Passes M (.locking k) (.running k)

/-- A step is a move of the code, or leaves the shared state. -/
theorem Acts.passes {s s' : State σ κ ρ ι} {input : Input ι γ} (h : M.Acts s input s') :
    (s'.shared = s.shared ∧ ∀ j, Passes M (s.threads j) (s'.threads j)) ∨
      ∃ i k pick, s.threads i = .running k ∧
        s' = s.perform i pick (M.inside k) (M.code k s.now s.shared) := by
  cases h with
  | stays => exact .inl ⟨rfl, fun j => .same _⟩
  | tick => exact .inl ⟨rfl, fun j => .same _⟩
  | @call i hidle c =>
    refine .inl ⟨rfl, fun j => ?_⟩
    by_cases hji : j = i
    · simp only [hji, hidle, update_self]
      exact .call c
    · simp only [update_of_ne hji]
      exact .same _
  | wake i =>
    refine .inl ⟨rfl, fun j => ?_⟩
    show Passes M (s.threads j) (if j ∈ [i] then (s.threads j).roused else s.threads j)
    split
    · exact .roused _
    · exact .same _
  | @take i k hi =>
    refine .inl ⟨rfl, fun j => ?_⟩
    by_cases hji : j = i
    · simp only [hji, hi, update_self]
      exact .take k
    · simp only [update_of_ne hji]
      exact .same _
  | @move i k hi pick => exact .inr ⟨i, k, pick, hi, rfl⟩

theorem Passes.at {P : κ → Bool} {t t' : Thread κ} (h : Passes M t t') (ht : t.At P) : t'.At P := by
  cases h with
  | same => exact ht
  | roused => exact ht.roused
  | call c => cases ht
  | take k => exact ht

/-- A place that is not the start of a call, nor one that is locked or waited for, is not passed
to. -/
theorem Passes.has {P : κ → Bool} (hstart : ∀ c, P (M.start c) = false) {t t' : Thread κ}
    (h : Passes M t t') (ht : t.Blocked (!P ·)) (ht' : t'.has P = true) : t.has P = true := by
  cases h with
  | same => exact ht'
  | roused => rwa [Thread.has_roused] at ht'
  | call c =>
    change P (M.start c) = true at ht'
    rw [hstart c] at ht'
    cases ht'
  | take k =>
    change (!P k) = true at ht
    change P k = true at ht'
    rw [ht'] at ht
    cases ht

theorem Passes.asleep {t t' : Thread κ} (h : Passes M t t') (ht' : t'.isAsleep = true) :
    t' = t := by
  cases h with
  | same => rfl
  | roused =>
    rw [Thread.isAsleep_roused] at ht'
    cases ht'
  | call c => cases ht'
  | take k => cases ht'

/-- A thread that is blocked is at a place that is locked or waited for. -/
theorem blocked_step {P : κ → Bool}
    (hP : ∀ k now s, ((M.code k now s).thread now).Blocked P) {s : State σ κ ρ ι}
    (hs : ∀ i, (s.threads i).Blocked P) (input : Input ι γ) (i : ι) :
    ((M.step s input).threads i).Blocked P :=
  threads_step (J := fun _ t => t.Blocked P) (C := fun _ _ => True) (fun ht => ht.roused)
    (fun hturn ht => by
      cases hturn with
      | call hc => trivial
      | take k => trivial
      | move k => exact hP k _ _)
    (fun _ => trivial) hs i

end

/-! ## The calls of one thread -/

/-- A thread gets to `P` only by a call that starts there. -/
def Closed (P : κ → Bool) : Prop :=
  ∀ {k k' now s}, ((M.code k now s).thread now).place = some k' → P k' = true → P k = true

/-- Of the calls that start in `P`, only those of `i₀`. -/
def Input.Only (P : κ → Bool) (i₀ : ι) : Input ι γ → Prop
  | .call i c => P (M.start c) = true → i = i₀
  | _ => True

/-- Of the threads, only `i₀` is in `P`. -/
def Alone (P : κ → Bool) (i₀ : ι) (s : State σ κ ρ ι) : Prop :=
  ∀ i k, (s.threads i).place = some k → P k = true → i = i₀

variable {M} in
theorem Closed.alone_step {P : κ → Bool} (h : M.Closed P) {i₀ : ι} {s : State σ κ ρ ι}
    {input : Input ι γ} (hinput : input.Only M P i₀) (hs : Alone P i₀ s) :
    Alone P i₀ (M.step s input) := by
  refine threads_step (J := fun i t => ∀ k, t.place = some k → P k = true → i = i₀)
    (C := fun i c => P (M.start c) = true → i = i₀) (fun ht => ?_) (fun hturn ht => ?_)
    (fun hcall => ?_) hs
  · rwa [Thread.place_roused]
  · cases hturn with
    | call hc => exact fun k hk hP => hc (Option.some.inj hk ▸ hP)
    | take k => exact ht
    | move k => exact fun k' hk' hP => ht k rfl (h hk' hP)
  · subst hcall
    exact hinput

/-! ## No lost wakeup -/

/-- A thread waits only at places of `P`. -/
def Waits (P : κ → Bool) : Prop :=
  ∀ {k k' now s span}, M.code k now s = .wait k' span → P k' = true

/-- What each wait relies on holds, or a thread is on its way to a notify. -/
def Attended (good : κ → ℕ → Option ℕ → σ → Prop) (about : κ → Bool) (s : State σ κ ρ ι) : Prop :=
  ∀ i k since span, s.threads i = .asleep k since span →
    good k since span s.shared ∨ ∃ j, (s.threads j).At about

/-- `good` is what a wait relies on, `about` the places of a thread on its way to a notify. -/
structure Attends (good : κ → ℕ → Option ℕ → σ → Prop) (about : κ → Bool) : Prop where
  wait {k k' : κ} {now : ℕ} {s : σ} {span : Option ℕ} (h : M.code k now s = .wait k' span) :
    good k' now span s
  /-- Who changes what a wait relies on goes on to a notify. -/
  keeps {k₀ : κ} {since : ℕ} {span : Option ℕ} {s : σ} (h : good k₀ since span s) (k : κ)
    (now : ℕ) : good k₀ since span ((M.code k now s).shared s) ∨
      ((M.code k now s).thread now).At about
  stays {k : κ} (h : about k = true) (now : ℕ) (s : σ) :
    ((M.code k now s).thread now).At about ∨ (M.code k now s).notifies = true

section

variable {M} {P : κ → Bool} {i₀ : ι} {s : State σ κ ρ ι} {good : κ → ℕ → Option ℕ → σ → Prop}
  {about : κ → Bool}

theorem Waits.step (h : M.Waits P)
    (hs : ∀ i k since span, s.threads i = .asleep k since span → P k = true)
    (input : Input ι γ) (i : ι) (k : κ) (since : ℕ) (span : Option ℕ)
    (hi : (M.step s input).threads i = .asleep k since span) : P k = true := by
  rcases (M.acts_step s input).threads i with hsame | hwoken | hturn
  · exact hs i k since span (hsame ▸ hi)
  · have hawake := Thread.isAsleep_roused (s.threads i)
    rw [← hwoken, hi] at hawake
    cases hawake
  · generalize s.threads i = t at hturn
    rw [hi] at hturn
    generalize ht' : Thread.asleep k since span = t' at hturn
    cases hturn with
    | call hc => cases ht'
    | take k => cases ht'
    | move k₀ =>
      cases hm : M.code k₀ s.now s.shared with
      | wait k' span' =>
        rw [hm] at ht'
        cases ht'
        exact h hm
      | _ =>
        rw [hm] at ht'
        cases ht'

omit [DecidableEq ι] in
/-- The waiters are `i₀`, if it sleeps. -/
theorem Sound.waiters_le_one (h : M.Sound s) (halone : Alone P i₀ s)
    (hs : ∀ i k since span, s.threads i = .asleep k since span → P k = true) :
    s.waiters.length ≤ 1 := by
  have hall : ∀ i ∈ s.waiters, i = i₀ := fun i hi => by
    have hasleep := (h.waiters i).mp hi
    cases ht : s.threads i with
    | asleep k since span => exact halone i k (by rw [ht]; rfl) (hs i k since span ht)
    | _ =>
      rw [ht] at hasleep
      cases hasleep
  have hnodup := h.nodup
  rwa [List.eq_replicate_of_mem hall, List.nodup_replicate] at hnodup

theorem Attends.move (h : M.Attends good about) (hs : Attended good about s) (hsound : M.Sound s)
    (hone : s.waiters.length ≤ 1) {i : ι} {k : κ} (hi : s.threads i = .running k) (pick : ℕ) :
    Attended good about (s.perform i pick (M.inside k) (M.code k s.now s.shared)) := by
  intro i' k' since span hi'
  rw [threads_perform] at hi'
  by_cases heq : i' = i
  · -- the thread that makes the step begins a wait
    rw [if_pos heq] at hi'
    cases hm : M.code k s.now s.shared with
    | wait k' span =>
      rw [hm] at hi'
      cases hi'
      exact .inl (h.wait hm)
    | _ =>
      rw [hm] at hi'
      cases hi'
  · rw [if_neg heq] at hi'
    by_cases htold : i' ∈ (M.code k s.now s.shared).told pick s.waiters
    · rw [if_pos htold] at hi'
      have hasleep := Thread.isAsleep_roused (s.threads i')
      rw [hi'] at hasleep
      cases hasleep
    · rw [if_neg htold] at hi'
      rcases hs i' k' since span hi' with hgood | ⟨j, hj⟩
      · rcases h.keeps hgood k s.now with hgood' | hat
        · exact .inl hgood'
        · refine .inr ⟨i, ?_⟩
          rwa [threads_perform, if_pos rfl]
      · refine .inr ⟨j, ?_⟩
        rw [threads_perform]
        by_cases hji : j = i
        · subst hji
          rw [if_pos rfl]
          rw [hi] at hj
          rcases h.stays hj s.now s.shared with hat | hnotifies
          · exact hat
          · have hmem : i' ∈ s.waiters := (hsound.waiters i').mpr (by rw [hi']; rfl)
            exact absurd (Move.mem_told hnotifies hone hmem pick) htold
        · rw [if_neg hji]
          split
          · exact hj.roused
          · exact hj

theorem Attends.step (h : M.Attends good about) (hs : Attended good about s) (hsound : M.Sound s)
    (hone : s.waiters.length ≤ 1) (input : Input ι γ) : Attended good about (M.step s input) := by
  have hacts := M.acts_step s input
  generalize M.step s input = s' at hacts
  rcases hacts.passes with ⟨hshared, hpasses⟩ | ⟨i, k, pick, hi, rfl⟩
  · intro i k since span hi
    have hsame := (hpasses i).asleep (by rw [hi]; rfl)
    rw [hshared]
    exact (hs i k since span (hsame ▸ hi)).imp_right (Exists.imp fun j hj => (hpasses j).at hj)
  · exact h.move hs hsound hone hi pick

/-- **No lost wakeup.** Where only one thread waits, what its wait relies on holds for as long as
it sleeps, or a thread is on its way to a notify. -/
theorem Attends.run (h : M.Attends good about) (hclosed : M.Closed P) (hwaits : M.Waits P) {now : ℕ}
    {s : σ} {is : List (Input ι γ)}
    (his : Schedule.Guarded M.step (fun _ input => input.Only M P i₀) (.init now s) is) :
    Attended good about (Schedule.run M.step (.init now s) is) := by
  have hrun := his.invariant (I := fun s : State σ κ ρ ι => M.Sound s ∧ Alone P i₀ s ∧
      (∀ i k since span, s.threads i = .asleep k since span → P k = true) ∧ Attended good about s)
    (fun s input hinput hs => ⟨hs.1.step input, hclosed.alone_step hinput hs.2.1,
      hwaits.step hs.2.2.1 input, h.step hs.2.2.2 hs.1 (hs.1.waiters_le_one hs.2.1 hs.2.2.1) input⟩)
    ⟨M.sound_init now s, fun i k hk => (by cases hk), fun i k since span hi => (by cases hi),
      fun i k since span hi => (by cases hi)⟩
  exact hrun.2.2.2

end

/-! ## Stopping by a flag -/

/-- `past` are the places where a thread goes by a flag that it saw unset, and `late` counts what is
done after the flag was set: a thread does it once, and leaves `past`. -/
structure Ceases (flag : σ → Bool) (late : σ → ℕ) (past : κ → Bool) : Prop where
  start (c : γ) : past (M.start c) = false
  blocked (k : κ) (now : ℕ) (s : σ) : ((M.code k now s).thread now).Blocked (!past ·)
  sticky {s : σ} (h : flag s = true) (k : κ) (now : ℕ) :
    flag ((M.code k now s).shared s) = true
  unset {s : σ} (h : flag s = false) (hlate : late s = 0) (k : κ) (now : ℕ) :
    late ((M.code k now s).shared s) = 0
  enters {s : σ} (h : flag s = true) {k : κ} {now : ℕ}
    (hpast : ((M.code k now s).thread now).has past = true) : past k = true
  counts {s : σ} (h : flag s = true) (k : κ) (now : ℕ) :
    late ((M.code k now s).shared s) = late s ∨ past k = true ∧
      late ((M.code k now s).shared s) = late s + 1 ∧
      ((M.code k now s).thread now).has past = false

/-- Nothing is late before the flag is set, and at most one thing after it; after that, no thread
goes by the flag unset. -/
structure Ceased (flag : σ → Bool) (late : σ → ℕ) (past : κ → Bool) (s : State σ κ ρ ι) : Prop where
  blocked (i : ι) : (s.threads i).Blocked (!past ·)
  unset (h : flag s.shared = false) : late s.shared = 0
  le_one : late s.shared ≤ 1
  last (h : late s.shared = 1) (i : ι) : (s.threads i).has past = false

section

variable {M} {flag : σ → Bool} {late : σ → ℕ} {past : κ → Bool} {s s' : State σ κ ρ ι}

omit [DecidableEq ι] in
theorem ceased_init (now : ℕ) {s : σ} (hs : late s = 0) :
    Ceased flag late past (State.init now s : State σ κ ρ ι) where
  blocked _ := trivial
  unset _ := hs
  le_one := hs ▸ Nat.zero_le 1
  last _ _ := rfl

theorem Ceases.move (h : M.Ceases flag late past) (hs : Ceased flag late past s)
    (hunique : ∀ i j, (s.threads i).has past = true → (s.threads j).has past = true → i = j)
    {i : ι} {k : κ} (hi : s.threads i = .running k) {pick : ℕ}
    (hblocked : ∀ j, ((s.perform i pick (M.inside k) (M.code k s.now s.shared)).threads j).Blocked
      (!past ·)) :
    Ceased flag late past (s.perform i pick (M.inside k) (M.code k s.now s.shared)) := by
  set s' := s.perform i pick (M.inside k) (M.code k s.now s.shared) with hs'
  have hshared : s'.shared = (M.code k s.now s.shared).shared s.shared := rfl
  have hown : s'.threads i = (M.code k s.now s.shared).thread s.now :=
    (threads_perform _ _).trans (if_pos rfl)
  have hother (j : ι) (hj : j ≠ i) : (s'.threads j).has past = (s.threads j).has past := by
    rw [hs', threads_perform, if_neg hj]
    split
    · exact Thread.has_roused past _
    · rfl
  cases hflag : flag s.shared with
  | false =>
    have hlate : late s'.shared = 0 := h.unset hflag (hs.unset hflag) k s.now
    exact ⟨hblocked, fun _ => hlate, by omega, fun hone => by omega⟩
  | true =>
    have hflag' : flag s'.shared = true := h.sticky hflag k s.now
    refine ⟨hblocked, fun hunset => ?_, ?_, fun hone j => ?_⟩
    · rw [hunset] at hflag'
      cases hflag'
    · rcases h.counts hflag k s.now with hsame | ⟨hpast, hsucc, -⟩
      · exact hsame ▸ hs.le_one
      · have hle := hs.le_one
        have hne : late s.shared ≠ 1 := fun hone => by
          have hnot := hs.last hone i
          rw [hi] at hnot
          exact absurd hpast (Bool.eq_false_iff.mp hnot)
        rw [hshared, hsucc]
        omega
    · apply Bool.eq_false_iff.mpr
      intro hj
      rcases h.counts hflag k s.now with hsame | ⟨hpast, -, hleft⟩
      · -- nobody goes by the flag any more
        have hlast := hs.last (hsame ▸ hone)
        by_cases hji : j = i
        · subst hji
          have hpast := h.enters hflag (hown ▸ hj)
          have hnot := hlast j
          rw [hi] at hnot
          exact absurd hpast (Bool.eq_false_iff.mp hnot)
        · rw [hother j hji, hlast j] at hj
          cases hj
      · by_cases hji : j = i
        · rw [hji, hown, hleft] at hj
          cases hj
        · rw [hother j hji] at hj
          exact hji (hunique j i hj (by rw [hi]; exact hpast))

theorem Ceases.step (h : M.Ceases flag late past) (hs : Ceased flag late past s)
    (hunique : ∀ i j, (s.threads i).has past = true → (s.threads j).has past = true → i = j)
    (input : Input ι γ) : Ceased flag late past (M.step s input) := by
  have hblocked := blocked_step h.blocked hs.blocked input
  have hacts := M.acts_step s input
  generalize M.step s input = s' at hacts hblocked
  rcases hacts.passes with ⟨hshared, hpasses⟩ | ⟨i, k, pick, hi, rfl⟩
  · refine ⟨hblocked, hshared ▸ hs.unset, hshared ▸ hs.le_one, fun hone i => ?_⟩
    apply Bool.eq_false_iff.mpr
    intro hi
    have hi' := (hpasses i).has h.start (hs.blocked i) hi
    rw [hs.last (hshared ▸ hone) i] at hi'
    cases hi'
  · exact h.move hs hunique hi hblocked

/-- **At most one thing is late** where `past` is within the mutex. -/
theorem Ceases.run_inside (h : M.Ceases flag late past)
    (hinside : ∀ k, past k = true → M.inside k = true) {now : ℕ} {s : σ} (hs : late s = 0)
    (is : List (Input ι γ)) : late (Schedule.run M.step (.init now s) is).shared ≤ 1 := by
  have hhas (t : Thread κ) (ht : t.has past = true) : t.has M.inside = true := by
    cases t with
    | running k => exact hinside k ht
    | _ => cases ht
  have hrun := Schedule.invariant
    (I := fun s : State σ κ ρ ι => M.Sound s ∧ Ceased flag late past s)
    (fun s input hs => ⟨hs.1.step input, h.step hs.2 (fun i j hi hj =>
      hs.1.exclusive (hhas _ hi) (hhas _ hj)) input⟩)
    ⟨M.sound_init now s, ceased_init now hs⟩ is
  exact hrun.2.le_one

/-- **At most one thing is late** where one thread is in `past`. -/
theorem Ceases.run_alone (h : M.Ceases flag late past) {P : κ → Bool} {i₀ : ι}
    (hP : ∀ k, past k = true → P k = true) (hclosed : M.Closed P) {now : ℕ} {s : σ}
    (hs : late s = 0) {is : List (Input ι γ)}
    (his : Schedule.Guarded M.step (fun _ input => input.Only M P i₀) (.init now s) is) :
    late (Schedule.run M.step (.init now s) is).shared ≤ 1 := by
  have hplace {s : State σ κ ρ ι} (halone : Alone P i₀ s) (i : ι)
      (hi : (s.threads i).has past = true) : i = i₀ := by
    cases ht : s.threads i with
    | running k =>
      rw [ht] at hi
      exact halone i k (by rw [ht]; rfl) (hP k hi)
    | _ =>
      rw [ht] at hi
      cases hi
  have hrun := his.invariant
    (I := fun s : State σ κ ρ ι => Alone P i₀ s ∧ Ceased flag late past s)
    (fun s input hinput hs => ⟨hclosed.alone_step hinput hs.1, h.step hs.2 (fun i j hi hj =>
      (hplace hs.1 i hi).trans (hplace hs.1 j hj).symm) input⟩)
    ⟨fun i k hk => (by cases hk), ceased_init now hs⟩
  exact hrun.2.le_one

end

/-! ## A flag that is seen under the mutex -/

/-- The thread sleeps, or is near to it. -/
def Thread.near (P : κ → Bool) (t : Thread κ) : Bool := t.isAsleep || t.has P

/-- Before a wait the flag is seen unset, and the mutex is not given back in between; who sets the
flag goes on to a `notifyAll` with the mutex. -/
structure Heeds (flag : σ → Bool) (near about : κ → Bool) : Prop where
  start (c : γ) : near (M.start c) = false
  blocked (k : κ) (now : ℕ) (s : σ) : ((M.code k now s).thread now).Blocked (!near ·)
  inside {k : κ} (h : near k = true) : M.inside k = true
  enters {k : κ} {now : ℕ} {s : σ} (h : ((M.code k now s).thread now).near near = true) :
    near k = true ∨ flag ((M.code k now s).shared s) = false
  sets {s : σ} (h : flag s = false) {k : κ} {now : ℕ}
    (h' : flag ((M.code k now s).shared s) = true) : ((M.code k now s).thread now).At about
  stays {k : κ} (h : about k = true) (now : ℕ) (s : σ) :
    ((M.code k now s).thread now).At about ∨
      near k = false ∧ M.inside k = true ∧ ∃ k', M.code k now s = .notifyAll k'

/-- Once the flag is set, a thread is on its way to the notify, or nobody sleeps or is near to. -/
structure Heeded (flag : σ → Bool) (near about : κ → Bool) (s : State σ κ ρ ι) : Prop where
  blocked (i : ι) : (s.threads i).Blocked (!near ·)
  heeds (h : flag s.shared = true) :
    (∃ j, (s.threads j).At about) ∨ ∀ i, (s.threads i).near near = false

section

variable {M} {flag : σ → Bool} {near about : κ → Bool} {s s' : State σ κ ρ ι}

omit [DecidableEq ι] in
theorem Thread.near_roused {t : Thread κ} (h : t.roused.near near = true) : t.near near = true := by
  cases t with
  | asleep k since span => rfl
  | _ => exact h

/-- A `notifyAll` with the mutex leaves nobody asleep or near to. -/
theorem Heeds.woken (h : M.Heeds flag near about) (hsound : M.Sound s) {i : ι} {k k' : κ}
    (hi : s.threads i = .running k) (hinside : M.inside k = true)
    (hm : M.code k s.now s.shared = .notifyAll k') {pick : ℕ} {j : ι} (hj : j ≠ i) :
    ((s.perform i pick (M.inside k) (M.code k s.now s.shared)).threads j).near near = false := by
  rw [threads_perform, if_neg hj, hm]
  show (if j ∈ s.waiters then (s.threads j).roused else s.threads j).near near = false
  cases ht : s.threads j with
  | asleep k since span =>
    rw [if_pos ((hsound.waiters j).mpr (by rw [ht]; rfl))]
    rfl
  | running k₀ =>
    have hfar : near k₀ = false := by
      apply Bool.eq_false_iff.mpr
      intro hnear
      exact hj (hsound.exclusive (by rw [ht]; exact h.inside hnear) (by rw [hi]; exact hinside))
    split <;> exact hfar
  | _ => split <;> rfl

theorem Heeds.move (h : M.Heeds flag near about) (hs : Heeded flag near about s)
    (hsound : M.Sound s) {i : ι} {k : κ} (hi : s.threads i = .running k) {pick : ℕ}
    (hblocked : ∀ j, ((s.perform i pick (M.inside k) (M.code k s.now s.shared)).threads j).Blocked
      (!near ·)) :
    Heeded flag near about (s.perform i pick (M.inside k) (M.code k s.now s.shared)) := by
  set s' := s.perform i pick (M.inside k) (M.code k s.now s.shared) with hs'
  have hown : s'.threads i = (M.code k s.now s.shared).thread s.now :=
    (threads_perform _ _).trans (if_pos rfl)
  have hother (j : ι) (hj : j ≠ i) : s'.threads j = (s.threads j).roused ∨
      s'.threads j = s.threads j := by
    rw [hs', threads_perform, if_neg hj]
    split
    · exact .inl rfl
    · exact .inr rfl
  refine ⟨hblocked, fun hflag' => ?_⟩
  have henters (hnear : near k = false) : (s'.threads i).near near = false := by
    apply Bool.eq_false_iff.mpr
    intro hi'
    rcases h.enters (hown ▸ hi') with hnear' | hunset
    · rw [hnear] at hnear'
      cases hnear'
    · exact absurd hflag' (Bool.eq_false_iff.mp hunset)
  cases hflag : flag s.shared with
  | false => exact .inl ⟨i, hown ▸ h.sets hflag hflag'⟩
  | true =>
    rcases hs.heeds hflag with ⟨j, hj⟩ | hnone
    · by_cases hji : j = i
      · rw [hji, hi] at hj
        rcases h.stays hj s.now s.shared with hat | ⟨hnear, hinside, k', hm⟩
        · exact .inl ⟨i, hown ▸ hat⟩
        · refine .inr fun l => ?_
          by_cases hli : l = i
          · exact hli ▸ henters hnear
          · exact h.woken hsound hi hinside hm hli
      · refine .inl ⟨j, ?_⟩
        rcases hother j hji with hwoken | hsame
        · exact hwoken ▸ hj.roused
        · exact hsame ▸ hj
    · refine .inr fun l => ?_
      by_cases hli : l = i
      · have hnear := hnone i
        rw [hi] at hnear
        exact hli ▸ henters hnear
      · rcases hother l hli with hwoken | hsame
        · rw [hwoken]
          exact Bool.eq_false_iff.mpr fun hl =>
            Bool.eq_false_iff.mp (hnone l) (Thread.near_roused hl)
        · exact hsame ▸ hnone l

theorem Heeds.step (h : M.Heeds flag near about) (hs : Heeded flag near about s)
    (hsound : M.Sound s) (input : Input ι γ) : Heeded flag near about (M.step s input) := by
  have hblocked := blocked_step h.blocked hs.blocked input
  have hacts := M.acts_step s input
  generalize M.step s input = s' at hacts hblocked
  rcases hacts.passes with ⟨hshared, hpasses⟩ | ⟨i, k, pick, hi, rfl⟩
  · refine ⟨hblocked, fun hflag => ?_⟩
    refine (hs.heeds (hshared ▸ hflag)).imp (Exists.imp fun j hj => (hpasses j).at hj)
      fun hnone j => Bool.eq_false_iff.mpr fun hj => Bool.eq_false_iff.mp (hnone j) ?_
    cases hasleep : (s'.threads j).isAsleep with
    | true => exact (hpasses j).asleep hasleep ▸ hj
    | false =>
      rw [Thread.near, hasleep, Bool.false_or] at hj
      rw [Thread.near, (hpasses j).has h.start (hs.blocked j) hj, Bool.or_true]
  · exact h.move hs hsound hi hblocked

/-- **Nobody sleeps through the flag.** Once it is set, a thread is on its way to wake whoever
sleeps, or nobody sleeps. -/
theorem Heeds.run (h : M.Heeds flag near about) {now : ℕ} {s : σ} (hs : flag s = false)
    (is : List (Input ι γ)) :
    Heeded flag near about (Schedule.run M.step (.init now s) is) := by
  have hrun := Schedule.invariant
    (I := fun s : State σ κ ρ ι => M.Sound s ∧ Heeded flag near about s)
    (fun s input hs => ⟨hs.1.step input, h.step hs.2 hs.1 input⟩)
    ⟨M.sound_init now s, fun i => trivial, fun hflag => absurd hflag (Bool.eq_false_iff.mp hs)⟩ is
  exact hrun.2

end

end Condvar
