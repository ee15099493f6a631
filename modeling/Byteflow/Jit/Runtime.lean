import Byteflow.Foundations.Schedule
import Byteflow.Jit.Dispatch

/-!
# The shared runtime of the trace compiler

All workers share the image that the cache was built for, the compiled traces and the hot counters
(`jit/runtime.rs`), each behind a lock of its own. A worker takes these locks one after another
(`try_jit_step_runtime`), and so does `reload`; a step here is what happens under one lock, or the
compilation between two.

An image is named by its allocation, since the code compares images by pointer. Which image a trace
was compiled from is kept beside it in the cache, where the code does not keep it. A worker that
gets past `matches_chunk` before a reload and inserts its trace after it leaves the trace in the
cache of another image (`stale_trace_runs`). No other order does harm: as long as traces are
inserted and found only while the runtime is on the image of the worker's VM, every trace that runs
was compiled from that image (`executed_of_guarded`).
-/

namespace Byteflow

namespace Jit

/-- A compiled trace, with the image that it was compiled from. -/
structure Cached where
  image : ℕ
  trace : CompiledTrace

/-! ## The state behind the locks -/

structure JitRuntime where
  chunk : ℕ
  hotThreshold : UInt32
  cache : TraceKey → Option Cached
  hot : HotCounter

namespace JitRuntime

def new (chunk : ℕ) (hotThreshold : UInt32) : JitRuntime where
  chunk := chunk
  hotThreshold := hotThreshold
  cache := fun _ => none
  hot := ⟨fun _ => 0⟩

/-- The VM runs the image that the cache was built for. -/
def matchesChunk (rt : JitRuntime) (vmChunk : ℕ) : Bool := rt.chunk == vmChunk

def getTrace (rt : JitRuntime) (key : TraceKey) : Option Cached := rt.cache key

def insertTrace (rt : JitRuntime) (key : TraceKey) (c : Cached) : JitRuntime :=
  { rt with cache := Function.update rt.cache key (some c) }

def recordHotHit (rt : JitRuntime) (key : TraceKey) : JitRuntime × Bool :=
  let (hot, isHot) := rt.hot.hit key rt.hotThreshold
  ({ rt with hot := hot }, isHot)

end JitRuntime

/-! ## Workers -/

/-- How far a worker is with one try, on a VM with image `vm` at the program point `key`. -/
inductive Task
  | idle
  | entered (vm : ℕ) (key : TraceKey)
  | matched (vm : ℕ) (key : TraceKey)
  | missed (vm : ℕ) (key : TraceKey)
  | hot (vm : ℕ) (key : TraceKey)
  | compiling (vm : ℕ) (key : TraceKey)
  | compiled (vm : ℕ) (key : TraceKey) (c : Cached)
  | executing (vm : ℕ) (key : TraceKey) (c : Cached)

/-- The next step of a worker. It may have to give up: a register is not an integer, or the backend
fails. -/
def tryJitStepRuntime (image : ℕ → Chunk) (givesUp : Bool) (rt : JitRuntime) :
    Task → JitRuntime × Task
  | .idle => (rt, .idle)
  | .entered vm key => (rt, if rt.matchesChunk vm && !givesUp then .matched vm key else .idle)
  | .matched vm key =>
    match rt.getTrace key with
    | some c => (rt, .executing vm key c)
    | none => (rt, .missed vm key)
  | .missed vm key =>
    let (rt, isHot) := rt.recordHotHit key
    (rt, if isHot then .hot vm key else .idle)
  | .hot vm key => (rt, if (rt.getTrace key).isSome then .matched vm key else .compiling vm key)
  | .compiling vm key =>
    match compileTrace (image vm) key with
    | .ok trace => (rt, if givesUp then .idle else .compiled vm key ⟨vm, trace⟩)
    | .error _ => (rt, .idle)
  | .compiled vm key c => (rt.insertTrace key c, .matched vm key)
  | .executing _ _ _ => (rt, .idle)

/-! ## Reloads -/

/-- How far a call of `reload` is. -/
inductive Reload
  | idle
  | writing (chunk : ℕ)
  | clearing
  | resetting
  deriving DecidableEq

/-- The next step of a reload: the image, then the traces, then the counters. -/
def reload (rt : JitRuntime) : Reload → JitRuntime × Reload
  | .idle => (rt, .idle)
  | .writing chunk => ({ rt with chunk := chunk }, .clearing)
  | .clearing => ({ rt with cache := fun _ => none }, .resetting)
  | .resetting => ({ rt with hot := ⟨fun _ => 0⟩ }, .idle)

/-! ## Runs -/

/-- The runtime, with any number of workers and of threads that reload. -/
structure System where
  runtime : JitRuntime
  workers : ℕ → Task
  reloads : ℕ → Reload

def System.init (chunk : ℕ) (hotThreshold : UInt32) : System where
  runtime := .new chunk hotThreshold
  workers := fun _ => .idle
  reloads := fun _ => .idle

/-- Who takes a step. A worker that is idle enters with any VM, and an idle thread reloads any
image. -/
inductive Event
  | enter (w : ℕ) (vm : ℕ) (key : TraceKey)
  | work (w : ℕ) (givesUp : Bool)
  | reload (r : ℕ) (chunk : ℕ)
  | goOn (r : ℕ)

def System.step (image : ℕ → Chunk) (s : System) : Event → System
  | .enter w vm key =>
    match s.workers w with
    | .idle => { s with workers := Function.update s.workers w (.entered vm key) }
    | _ => s
  | .work w givesUp =>
    let (rt, task) := tryJitStepRuntime image givesUp s.runtime (s.workers w)
    { s with runtime := rt, workers := Function.update s.workers w task }
  | .reload r chunk =>
    match s.reloads r with
    | .idle => { s with reloads := Function.update s.reloads r (.writing chunk) }
    | _ => s
  | .goOn r =>
    let (rt, progress) := Jit.reload s.runtime (s.reloads r)
    { s with runtime := rt, reloads := Function.update s.reloads r progress }

/-- The trace that a worker runs was compiled from the image of its VM. -/
def Task.RunsOwn (image : ℕ → Chunk) : Task → Prop
  | .executing vm key c => c.image = vm ∧ compileTrace (image vm) key = .ok c.trace
  | _ => True

/-- No reload has written its image and has yet to clear the traces. -/
def System.Settled (s : System) : Prop := ∀ r, s.reloads r ≠ .clearing

/-- A worker finds a trace only while the runtime is settled on the image of its VM, and inserts one
only then or before the traces are cleared. -/
def System.OnImage (s : System) : Event → Prop
  | .work w _ =>
    match s.workers w with
    | .matched vm key => s.runtime.getTrace key ≠ none → s.Settled ∧ s.runtime.chunk = vm
    | .compiled vm _ _ => s.Settled → s.runtime.chunk = vm
    | _ => True
  | _ => True

/-! ## What the cache holds -/

/-- A worker holds traces of its VM's image only. -/
def Task.HoldsOwn (image : ℕ → Chunk) : Task → Prop
  | .compiled vm key c => c.image = vm ∧ compileTrace (image vm) key = .ok c.trace
  | .executing vm key c => c.image = vm ∧ compileTrace (image vm) key = .ok c.trace
  | _ => True

/-- The traces were compiled from what they are kept with, and once the runtime is settled from its
image. -/
structure System.Fresh (image : ℕ → Chunk) (s : System) : Prop where
  compiled : ∀ key c, s.runtime.cache key = some c → compileTrace (image c.image) key = .ok c.trace
  current : s.Settled → ∀ key c, s.runtime.cache key = some c → c.image = s.runtime.chunk
  held : ∀ w, (s.workers w).HoldsOwn image

variable {image : ℕ → Chunk} {s : System}

theorem fresh_init (chunk : ℕ) (hotThreshold : UInt32) :
    (System.init chunk hotThreshold).Fresh image := by
  refine ⟨?_, ?_, fun w => trivial⟩
  · intro key c hc
    cases hc
  · intro _ key c hc
    cases hc

theorem held_update {w : ℕ} {task : Task} (h : ∀ w, (s.workers w).HoldsOwn image)
    (htask : task.HoldsOwn image) (w' : ℕ) :
    (Function.update s.workers w task w').HoldsOwn image := by
  by_cases hw : w' = w
  · rw [hw, Function.update_self]
    exact htask
  · rw [Function.update_of_ne hw]
    exact h w'

/-- A worker that leaves the image and the traces as they are. -/
theorem System.Fresh.work {w : ℕ} {rt : JitRuntime} {task : Task} (h : s.Fresh image)
    (hchunk : rt.chunk = s.runtime.chunk) (hcache : rt.cache = s.runtime.cache)
    (htask : task.HoldsOwn image) :
    System.Fresh image { s with runtime := rt, workers := Function.update s.workers w task } := by
  refine ⟨?_, ?_, held_update h.held htask⟩
  · intro key c hc
    rw [hcache] at hc
    exact h.compiled key c hc
  · intro hsettled key c hc
    rw [hcache] at hc
    rw [hchunk]
    exact h.current hsettled key c hc

theorem JitRuntime.cache_insertTrace {rt : JitRuntime} {key key' : TraceKey} {c c' : Cached}
    (h : (rt.insertTrace key c).cache key' = some c') :
    key' = key ∧ c' = c ∨ rt.cache key' = some c' := by
  unfold insertTrace at h
  dsimp only at h
  by_cases hkey : key' = key
  · rw [hkey, Function.update_self] at h
    cases h
    exact .inl ⟨hkey, rfl⟩
  · rw [Function.update_of_ne hkey] at h
    exact .inr h

/-- A worker that inserts its trace, while the runtime is on its image or still to be cleared. -/
theorem System.Fresh.insert {w : ℕ} {vm : ℕ} {key : TraceKey} {c : Cached} (h : s.Fresh image)
    (hw : s.workers w = .compiled vm key c) (hchunk : s.Settled → s.runtime.chunk = vm) :
    System.Fresh image { s with
      runtime := s.runtime.insertTrace key c
      workers := Function.update s.workers w (.matched vm key) } := by
  obtain ⟨himage, htrace⟩ : c.image = vm ∧ compileTrace (image vm) key = .ok c.trace := by
    have hheld := h.held w
    rw [hw] at hheld
    exact hheld
  refine ⟨?_, ?_, held_update h.held trivial⟩
  · intro key' c' hc'
    rcases JitRuntime.cache_insertTrace hc' with ⟨rfl, rfl⟩ | hold
    · rw [himage]
      exact htrace
    · exact h.compiled key' c' hold
  · intro hsettled key' c' hc'
    rcases JitRuntime.cache_insertTrace hc' with ⟨rfl, rfl⟩ | hold
    · exact himage.trans (hchunk hsettled).symm
    · exact h.current hsettled key' c' hold

/-- A step of a worker. -/
theorem fresh_work {w : ℕ} {givesUp : Bool} (h : s.Fresh image)
    (hguard : s.OnImage (.work w givesUp)) : (s.step image (.work w givesUp)).Fresh image := by
  unfold System.step
  unfold System.OnImage at hguard
  dsimp only at hguard ⊢
  cases hw : s.workers w with
  | idle => exact h.work rfl rfl trivial
  | entered vm key =>
    apply h.work rfl rfl
    show Task.HoldsOwn image (if _ then _ else _)
    split_ifs <;> trivial
  | matched vm key =>
    rw [hw] at hguard
    cases hc : s.runtime.getTrace key with
    | none =>
      simp only [tryJitStepRuntime, hc]
      exact h.work rfl rfl trivial
    | some c =>
      obtain ⟨hsettled, hvm⟩ := hguard (by rw [hc]; exact Option.some_ne_none c)
      have himage : c.image = vm := (h.current hsettled key c hc).trans hvm
      have htrace := h.compiled key c hc
      rw [himage] at htrace
      simp only [tryJitStepRuntime, hc]
      exact h.work rfl rfl ⟨himage, htrace⟩
  | missed vm key =>
    have hchunk : (s.runtime.recordHotHit key).1.chunk = s.runtime.chunk := rfl
    have hcache : (s.runtime.recordHotHit key).1.cache = s.runtime.cache := rfl
    apply h.work hchunk hcache
    show Task.HoldsOwn image (if _ then _ else _)
    split_ifs <;> trivial
  | hot vm key =>
    apply h.work rfl rfl
    show Task.HoldsOwn image (if _ then _ else _)
    split_ifs <;> trivial
  | compiling vm key =>
    cases htrace : compileTrace (image vm) key with
    | error e =>
      simp only [tryJitStepRuntime, htrace]
      exact h.work rfl rfl trivial
    | ok trace =>
      simp only [tryJitStepRuntime, htrace]
      apply h.work rfl rfl
      split_ifs
      · trivial
      · exact ⟨rfl, htrace⟩
  | compiled vm key c =>
    rw [hw] at hguard
    exact h.insert hw hguard
  | executing vm key c => exact h.work rfl rfl trivial

/-- A step of a reload. Between its image and the traces nothing is said of the cache, and the
cleared cache holds nothing. -/
theorem fresh_reload {r : ℕ} (h : s.Fresh image) : (s.step image (.goOn r)).Fresh image := by
  unfold System.step
  dsimp only
  cases hr : s.reloads r with
  | idle =>
    have hreloads : Function.update s.reloads r .idle = s.reloads := by
      rw [← hr]
      exact Function.update_eq_self r s.reloads
    simp only [reload, hreloads]
    exact h
  | writing chunk =>
    refine ⟨h.compiled, ?_, h.held⟩
    intro hsettled
    exact absurd (Function.update_self r _ s.reloads) (hsettled r)
  | clearing =>
    refine ⟨?_, ?_, h.held⟩
    · intro key c hc
      cases hc
    · intro _ key c hc
      cases hc
  | resetting =>
    refine ⟨h.compiled, ?_, h.held⟩
    intro hsettled
    apply h.current
    intro r' hr'
    by_cases hne : r' = r
    · rw [hne, hr] at hr'
      cases hr'
    · apply hsettled r'
      exact (Function.update_of_ne hne _ _).trans hr'

theorem fresh_step {e : Event} (hguard : s.OnImage e) (h : s.Fresh image) :
    (s.step image e).Fresh image := by
  cases e with
  | enter w vm key =>
    unfold System.step
    dsimp only
    split
    · exact ⟨h.compiled, h.current, held_update h.held trivial⟩
    · exact h
  | work w givesUp => exact fresh_work h hguard
  | reload r chunk =>
    unfold System.step
    dsimp only
    split
    · rename_i hr
      refine ⟨h.compiled, ?_, h.held⟩
      intro hsettled
      apply h.current
      intro r' hr'
      by_cases hne : r' = r
      · rw [hne, hr] at hr'
        cases hr'
      · apply hsettled r'
        exact (Function.update_of_ne hne _ _).trans hr'
    · exact h
  | goOn r => exact fresh_reload h

theorem Task.HoldsOwn.runsOwn {task : Task} (h : task.HoldsOwn image) : task.RunsOwn image := by
  cases task with
  | executing vm key c => exact h
  | _ => trivial

/-- **Traces run on their image.** -/
theorem executed_of_guarded (image : ℕ → Chunk) (chunk : ℕ) (hotThreshold : UInt32)
    {es : List Event}
    (h : Schedule.Guarded (System.step image) System.OnImage (.init chunk hotThreshold) es)
    (w : ℕ) :
    ((Schedule.run (System.step image) (.init chunk hotThreshold) es).workers w).RunsOwn image := by
  have hfresh := h.invariant (I := System.Fresh image) (fun _ _ => fresh_step)
    (fresh_init chunk hotThreshold)
  exact (hfresh.held w).runsOwn

/-- `main` of image `n` returns `n`. -/
def returnsImage (n : ℕ) : Chunk where
  name := "main"
  constants := []
  code := [.aImm .loadImm 0 (Int32.ofNat n), .abc .return 0 0 0]
  functions := [⟨"main", 0, 0, 1⟩]

/-- A worker tries `main` of image `vm` for the first time, up to the trace that it compiles. -/
def compilesMain (w vm : ℕ) : List Event := .enter w vm ⟨0, 0⟩ :: List.replicate 5 (.work w false)

/-- The whole try, with the run of the trace. -/
theorem executed_returnsImage :
    ((Schedule.run (System.step returnsImage) (.init 0 1)
      (compilesMain 0 0 ++ List.replicate 2 (.work 0 false))).workers 0).RunsOwn returnsImage := by
  refine executed_of_guarded returnsImage 0 1 ?_ 0
  refine ⟨trivial, trivial, fun hc => absurd rfl hc, trivial, trivial, trivial, fun _ => rfl, ?_,
    trivial⟩
  intro _
  refine ⟨fun r hr => ?_, rfl⟩
  cases hr

/-- A compilation that a reload overtakes: image `1` runs a trace of image `0`. -/
theorem stale_trace_runs :
    ¬∀ (image : ℕ → Chunk) (chunk : ℕ) (hotThreshold : UInt32) (es : List Event) (w : ℕ),
      (Schedule.run (System.step image) (.init chunk hotThreshold) es).workers w |>.RunsOwn
        image := by
  intro hall
  have h := hall returnsImage 0 1
    (compilesMain 0 0 ++ .reload 0 1 :: List.replicate 3 (.goOn 0) ++ .work 0 false ::
      .enter 1 1 ⟨0, 0⟩ :: List.replicate 2 (.work 1 false)) 1
  exact absurd h.1 (by decide)

end Jit

end Byteflow
