import Byteflow.Scheduler.Spawn.System

/-!
# The flow limit

A spawn counts the live flows and registers its own several steps later. Two spawns that both count
before either registers both pass (`two_spawns_exceed`). As long as no other flow is registered
between the count of a spawn and its registration, the limit holds (`liveFlows_le_maxFlows`): what
it counted, shard after shard, is at least what is there.
-/

namespace Byteflow

namespace Spawn

open Function (update)

/-- A step that registers a flow although another one was registered since its call began. -/
def RacedStep (s : State) : ℕ × Input → Prop
  | (t, .next _) => ∃ op ∈ s.pending t, op.registers ∧ s.overlap t
  | (_, .call _) => False

instance (s : State) (input : ℕ × Input) : Decidable (RacedStep s input) :=
  match input with
  | (t, .next _) => inferInstanceAs (Decidable (∃ op ∈ s.pending t, op.registers ∧ s.overlap t))
  | (_, .call _) => inferInstanceAs (Decidable False)

/-! ## Counting -/

/-- The flows in the first `k` shards. -/
def firstShards (s : Tables) : ℕ → ℕ
  | 0 => 0
  | k + 1 => firstShards s k + s.shardLen k

/-- In no shard there are more flows than before. -/
def Shrinks (s s' : Tables) : Prop := ∀ shard, s'.shardLen shard ≤ s.shardLen shard

theorem Shrinks.refl (s : Tables) : Shrinks s s := fun _ => le_rfl

theorem Shrinks.trans {s s' s'' : Tables} (h : Shrinks s s') (h' : Shrinks s' s'') :
    Shrinks s s'' := fun shard => (h' shard).trans (h shard)

theorem Shrinks.firstShards {s s' : Tables} (h : Shrinks s s') (k : ℕ) :
    firstShards s' k ≤ firstShards s k := by
  induction k with
  | zero => exact le_rfl
  | succ k ih => exact Nat.add_le_add ih (h k)

theorem firstShards_eq_countP (s : Tables) (k : ℕ) :
    firstShards s k = s.directory.countP fun id => id % shards < k := by
  induction k with
  | zero =>
    symm
    rw [firstShards, List.countP_eq_zero]
    exact fun id _ => by simp
  | succ k ih =>
    rw [firstShards, ih, Tables.shardLen]
    induction s.directory with
    | nil => rfl
    | cons id ids ih =>
      simp only [List.countP_cons, decide_eq_true_eq]
      split <;> split <;> split <;> omega

/-- The shards together hold the directory. -/
theorem firstShards_shards (s : Tables) : firstShards s shards = s.directory.length := by
  rw [firstShards_eq_countP, List.countP_eq_length]
  intro id _
  exact decide_eq_true (Nat.mod_lt _ (by decide))

/-! ## The programs -/

/-- There is room for one more flow. -/
def HasRoom (c : Config) (s : Tables) : Prop := s.directory.length < c.maxFlows.toNat

/-- What an operation needs: a registration, that there is room. -/
def RoomFor (c : Config) (s : Tables) : Op → Prop
  | .register _ => HasRoom c s
  | _ => True

/-- What a step of the thread itself does. -/
def Does (s : Tables) (op : Op) (s' : Tables) (r : op.Result) : Prop :=
  ∃ env, s.exec env op = (s', r)

theorem Shrinks.hasRoom {c : Config} {s s' : Tables} (h : Shrinks s s') (hr : HasRoom c s) :
    HasRoom c s' := by
  have hl := h.firstShards shards
  rw [firstShards_shards, firstShards_shards] at hl
  exact lt_of_le_of_lt hl hr

/-- An operation that registers nothing adds no flow. -/
theorem Shrinks.exec {s : Tables} {op : Op} (h : op.registers = false) (env : Env) :
    Shrinks s (s.exec env op).1 := by
  cases op with
  | register id => cases h
  | unregister id =>
    intro shard
    exact List.Sublist.countP_le List.filter_sublist
  | _ => exact .refl s

/-- A program runs safely if it has room whenever it registers. -/
abbrev Safe {α : Type} (c : Config) (s : Tables) (p : Prog Op.Result α) (post : Tables → α → Prop) :
    Prop := Prog.Wp Shrinks Does (RoomFor c) post s p

/-- No operation of the program registers. -/
abbrev Quiet {α : Type} (p : Prog Op.Result α) : Prop := p.All fun op => op.registers = false

/-- A program that registers nothing is safe, and adds no flow. -/
theorem Quiet.safe {α : Type} {p : Prog Op.Result α} (h : Quiet p) (c : Config) (s : Tables) :
    Safe c s p fun s' _ => Shrinks s s' := by
  refine Prog.All.wp Shrinks Shrinks.refl (fun _ _ _ => Shrinks.trans) (fun _ _ h => h)
    (fun s op hop => ?_) (fun s op s' r hop hstep => ?_) h s
  · cases op with
    | register id => cases hop
    | _ => trivial
  · obtain ⟨env, heq⟩ := hstep
    have hs : (s.exec env op).1 = s' := congrArg Prod.fst heq
    exact hs ▸ Shrinks.exec hop env

theorem quiet_perform {op : Op} (h : op.registers = false) : Quiet (perform op).run :=
  ⟨h, fun _ => trivial⟩

theorem quiet_onCaps {α : Type} (p : Prog CapTable.Op.Result α) : Quiet (onCaps p) :=
  Prog.all_rename (P := fun op : Op => op.registers = false) (fun _ => rfl) p

/-- Quiet code first, then code that is safe wherever that leads. -/
theorem Quiet.safe_bind {α β : Type} {c : Config} {s : Tables} {x : Code α} {f : α → Code β}
    (hx : Quiet x.run) (hf : ∀ s', Shrinks s s' → ∀ a, Safe c s' (f a).run fun _ _ => True) :
    Safe c s (x >>= f).run fun _ _ => True :=
  Prog.Wp.bind <| (hx.safe c s).mono fun s' r hs => by
    cases r with
    | ok a => exact hf s' hs a
    | error e => trivial

/-- What is counted is at least what is there in the end. -/
theorem safe_lenFrom (c : Config) {k n : ℕ} (hk : k ≤ shards) {s : Tables}
    (hn : firstShards s (shards - k) ≤ n) :
    Safe c s (lenFrom k n) fun s' m => s'.directory.length ≤ m := by
  induction k generalizing n s with
  | zero =>
    rw [Nat.sub_zero, firstShards_shards] at hn
    exact hn
  | succ k ih =>
    refine ⟨trivial, fun s₁ h₁ s₂ m ⟨env, heq⟩ => ?_⟩
    cases heq
    refine ih (by omega) ?_
    have hlast : shards - k = shards - (k + 1) + 1 := by omega
    rw [hlast, firstShards]
    exact Nat.add_le_add ((h₁.firstShards _).trans hn) le_rfl

/-- A spawn that passes the check has room, if there is a limit. -/
theorem safe_checkLimit {c : Config} (hmax : 0 < c.maxFlows) (s : Tables) :
    Safe c s (checkLimit c).run fun s' r => r = .ok () → HasRoom c s' := by
  unfold checkLimit
  rw [if_pos hmax]
  refine Prog.Wp.bind (Prog.Wp.bind ((safe_lenFrom c le_rfl (by simp [firstShards])).mono
    fun s' m hm => ?_))
  show Safe c s' (if c.maxFlows.toNat ≤ m then throw (.flowLimit m c.maxFlows)
    else pure () : Code Unit).run fun s' r => r = .ok () → HasRoom c s'
  split
  · exact fun h => nomatch h
  · rename_i hlt
    exact fun _ => lt_of_le_of_lt hm (not_le.mp hlt)

theorem quiet_authority (c : Config) (id : FlowId) (cell : CellId)
    (bytecode : Option BytecodeSpawn) : Quiet (authority c id cell bytecode).run := by
  cases bytecode with
  | none => exact Prog.all_run_bind (quiet_perform rfl) fun _ => trivial
  | some ctx =>
    refine Prog.all_run_bind (quiet_perform rfl) fun _ =>
      Prog.all_run_bind (quiet_perform rfl) fun _ =>
      Prog.all_run_bind (quiet_perform rfl) fun _ => ?_
    split <;> trivial

theorem quiet_grantArgs (parent : Option FlowId) (id : FlowId) (args : List Value) :
    Quiet (grantArgs parent id args).run :=
  Prog.all_bind (quiet_onCaps _) fun r => by
    cases r <;> trivial

/-- A spawn registers its flow only where there is room. -/
theorem safe_spawnOn {c : Config} (hmax : 0 < c.maxFlows) (s : Tables) (chunk : Chunk)
    (function : UInt32) (args : List Value) (parent : Option FlowId)
    (bytecode : Option BytecodeSpawn) :
    Safe c s (spawnOn c chunk function args parent bytecode).run fun _ _ => True := by
  refine Prog.Wp.bind ((safe_checkLimit hmax s).mono fun s r hroom => ?_)
  cases r with
  | error e => trivial
  | ok _ =>
    have hroom := hroom rfl
    refine (quiet_perform rfl).safe_bind fun s h₁ id => (quiet_perform rfl).safe_bind
      fun s h₂ cell => (quiet_authority c id cell bytecode).safe_bind fun s h₃ authority =>
      (quiet_grantArgs parent id args).safe_bind fun s h₄ args => (quiet_perform rfl).safe_bind
      fun s h₅ nativeEpoch => ?_
    have hroom := h₅.hasRoom (h₄.hasRoom (h₃.hasRoom (h₂.hasRoom (h₁.hasRoom hroom))))
    split
    · trivial
    · rename_i vm _
      refine ⟨hroom, fun s₁ _ s₂ _ _ => ?_⟩
      have hrest : Quiet (do
          perform (.insertQuota id (vm.quota.getD (FlowQuota.fromConfig c.quota)))
          perform (.inject id)
          return id : Code FlowId).run :=
        Prog.all_run_bind (quiet_perform rfl) fun _ =>
          Prog.all_run_bind (quiet_perform rfl) fun _ => trivial
      exact (hrest.safe c s₂).mono fun _ _ _ => trivial

/-! ## Runs -/

theorem safe_code {c : Config} (hmax : 0 < c.maxFlows) (s : Tables) (call : Call) :
    Safe c s (call.code c) fun _ _ => True := by
  have hquiet {α : Type} {p : Prog Op.Result α} (h : Quiet p) :
      Safe c s (do let _ ← p) fun _ _ => True :=
    Prog.Wp.bind ((h.safe c s).mono fun _ _ _ => trivial)
  cases call with
  | spawn chunk function args parent bytecode =>
    exact Prog.Wp.bind ((safe_spawnOn hmax s chunk function args parent bytecode).mono
      fun _ _ _ => trivial)
  | finalize id =>
    have h : Quiet (finalize id) := ⟨rfl, fun _ => ⟨rfl, fun _ => ⟨rfl, fun _ => trivial⟩⟩⟩
    exact (h.safe c s).mono fun _ _ _ => trivial
  | mintOrReuse holder target rights => exact hquiet ⟨rfl, fun _ => trivial⟩
  | _ => exact hquiet (quiet_onCaps _)

/-- The directory is within the limit, and a thread that was not overtaken runs safely. -/
structure Within (c : Config) (s : State) : Prop where
  len : s.tables.directory.length ≤ c.maxFlows.toNat
  safe : ∀ t, s.overlap t = false → Safe c s.tables (s.threads t) fun _ _ => True

/-- What others do without registering leaves a program safe. -/
theorem Safe.stable {c : Config} {s s' : Tables} {p : Prog Op.Result Unit}
    (h : Safe c s p fun _ _ => True) (hs : Shrinks s s') : Safe c s' p fun _ _ => True := by
  refine Prog.Wp.stable h hs (fun _ _ _ => Shrinks.trans) (fun s s' op hs hpre => ?_)
    fun _ _ _ _ _ => trivial
  cases op with
  | register id => exact hs.hasRoom hpre
  | _ => trivial

theorem register_length (s : Tables) (env : Env) (id : FlowId) :
    (s.exec env (.register id)).1.directory.length ≤ s.directory.length + 1 := by
  show (if id ∈ s.directory then s.directory else id :: s.directory).length ≤ _
  split
  · exact Nat.le_succ _
  · exact le_rfl

theorem Within.step {c : Config} (hmax : 0 < c.maxFlows) {s : State} (h : Within c s)
    {input : ℕ × Input} (hc : ¬RacedStep s input) : Within c (step c s input) := by
  obtain ⟨t, input⟩ := input
  rcases step_cases c s t input with heq | ⟨call, u, _, _, _, heq⟩ | ⟨env, op, k, rfl, hp, heq⟩ <;>
    rw [heq]
  · exact h
  · refine ⟨h.len, fun t' ht' => ?_⟩
    by_cases htt : t' = t
    · subst htt
      simp only [Function.update_self]
      exact safe_code hmax _ call
    · simp only [Function.update_of_ne htt] at ht' ⊢
      exact h.safe t' ht'
  · -- the thread itself goes on from where its program allows
    have hself (ho : s.overlap t = false) : RoomFor c s.tables op ∧
        Safe c (s.tables.exec env op).1 (k (s.tables.exec env op).2) fun _ _ => True := by
      have hsafe := h.safe t ho
      rw [hp] at hsafe
      exact ⟨hsafe.1, hsafe.2 _ (.refl _) _ _ ⟨env, rfl⟩⟩
    cases hreg : op.registers with
    | false =>
      have hshrinks : Shrinks s.tables (s.tables.exec env op).1 := .exec hreg env
      refine ⟨?_, fun t' ht' => ?_⟩
      · have hl := hshrinks.firstShards shards
        rw [firstShards_shards, firstShards_shards] at hl
        exact hl.trans h.len
      · simp only [Bool.false_and, Bool.or_false] at ht'
        by_cases htt : t' = t
        · subst htt
          simp only [Function.update_self]
          exact (hself ht').2
        · simp only [Function.update_of_ne htt]
          exact (h.safe t' ht').stable hshrinks
    | true =>
      have ho : s.overlap t = false := by
        cases ho : s.overlap t with
        | false => rfl
        | true => exact absurd ⟨op, State.pending_act hp, hreg, ho⟩ hc
      obtain ⟨hroom, hnext⟩ := hself ho
      refine ⟨?_, fun t' ht' => ?_⟩
      · cases op with
        | register id => exact (register_length s.tables env id).trans hroom
        | _ => cases hreg
      · simp only [Bool.true_and, Bool.or_eq_false_iff] at ht'
        obtain rfl : t' = t := by simpa using ht'.2
        simp only [Function.update_self]
        exact hnext

/-- As long as no flow is registered between the count of another spawn and its registration, the
directory never holds more than `max_flows` flows. -/
theorem liveFlows_le_maxFlows {c : Config} (hmax : 0 < c.maxFlows) {s : State}
    (h : Run c (fun s input => ¬RacedStep s input) s) :
    s.tables.directory.length ≤ c.maxFlows.toNat := by
  suffices hw : Within c s from hw.len
  induction h with
  | init => exact ⟨Nat.zero_le _, fun _ _ => trivial⟩
  | step _ input hc ih => exact ih.step hmax hc

def oneFlow : Config := ⟨1, [], ⟨1000, 1000⟩⟩

/-- Flow 1 is spawned and exits, then flow 2 is spawned. -/
theorem liveFlows_le_maxFlows_oneFlow :
    (runAll oneFlow .init (alone 0 hostSpawn 71 ⟨3⟩ ++ alone 0 (.finalize 1) 3 ⟨4⟩ ++
      alone 1 hostSpawn 71 ⟨5⟩)).tables.directory.length ≤ 1 :=
  liveFlows_le_maxFlows (by decide) (Run.init.meets (by decide +kernel))

/-- Two spawns that count before either registers both pass. -/
theorem two_spawns_exceed :
    let s := runAll oneFlow .init (alone 0 hostSpawn 64 ⟨3⟩ ++ alone 1 hostSpawn 71 ⟨4⟩ ++
      List.replicate 7 (0, .next ⟨[⟨3⟩], true⟩))
    Reachable oneFlow s ∧ 0 < oneFlow.maxFlows ∧ s.tables.directory = [2, 1] :=
  ⟨Run.init.all _, by decide, by decide +kernel⟩

end Spawn

end Byteflow
