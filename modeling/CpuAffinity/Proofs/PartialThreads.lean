import CpuAffinity.Proofs.PartialMasks
import CpuAffinity.Proofs.ThreadRuns

/-!
# Threads over partial operations

The word of a processor group is encoded and decoded by shifts, which have no value beyond the
length of a word. Over them, and over the partial operations of masks, the actions of a thread
are written once more. An operation of a thread reaches bits and shifts only where it builds or
scans a set of CPUs; there the range of each index was checked before. So every session of a
thread completes, on every platform, as every session over masks does.
-/

namespace CpuAffinity

/-- Decoding scans the positions of the word in ascending order. -/
theorem GroupWord.toCpus_eq_filter_range (word : BitVec 64) :
    toCpus word = ((List.range capacity).filter word.getLsbD).map CpuId.mk := by
  have htest : test word = word.getLsbD ∘ Fin.val := by
    funext cpu
    exact test_eq_getLsbD word cpu
  rw [toCpus, htest, ← List.map_coe_finRange_eq_range, List.filter_map, List.map_map]
  rfl

namespace PartialGroup

/-- Set the bits of a list's CPUs, refusing the first that the group cannot hold before its bit
is shifted. -/
def setAll (word : BitVec 64) : List CpuId → Partial (Except AffinityError (BitVec 64))
  | [] => return .ok word
  | cpu :: rest =>
    if GroupWord.capacity ≤ cpu.index then
      return .error (.outOfRange cpu.index GroupWord.capacity)
    else do
      let bit ← Partial.shiftLeft 1#64 cpu.index
      setAll (word ||| bit) rest

/-- The word of a list's CPUs. -/
def ofCpus (cpus : List CpuId) : Partial (Except AffinityError (BitVec 64)) := setAll 0#64 cpus

/-- Test the bit at a position of the word. -/
def test (word : BitVec 64) (position : ℕ) : Partial Bool :=
  return (← Partial.shiftRight word position) &&& 1#64 == 1#64

/-- The CPUs of a word in ascending order. -/
def toCpus (word : BitVec 64) : Partial (List CpuId) :=
  return (← (List.range GroupWord.capacity).filterM (test word)).map CpuId.mk

/-- Encoding completes for every list, whether a CPU is refused or not. -/
theorem setAll_completes (word : BitVec 64) (cpus : List CpuId) :
    (setAll word cpus).Completes (GroupWord.setAll word cpus) := by
  induction cpus generalizing word with
  | nil => exact .pure _
  | cons cpu rest ih =>
    rw [setAll]
    by_cases h : cpu.index < GroupWord.capacity
    · rw [GroupWord.setAll_cons_of_lt word h, if_neg (Nat.not_le.mpr h)]
      exact (Partial.Completes.shiftLeft 1#64 h).bind (ih _)
    · have hge := Nat.le_of_not_lt h
      rw [GroupWord.setAll_cons_of_ge word hge, if_pos hge]
      exact .pure _

/-- Within the word, the test completes with the bit. -/
theorem test_completes (word : BitVec 64) {position : ℕ} (h : position < GroupWord.capacity) :
    (test word position).Completes (word.getLsbD position) := by
  rw [← GroupWord.test_eq_getLsbD word ⟨position, h⟩]
  exact (Partial.Completes.shiftRight word h).map fun shifted => shifted &&& 1#64 == 1#64

/-- Decoding completes for every word. -/
theorem toCpus_completes (word : BitVec 64) : (toCpus word).Completes (GroupWord.toCpus word) := by
  have hscan : ((List.range GroupWord.capacity).filterM (test word)).Completes
      ((List.range GroupWord.capacity).filter word.getLsbD) :=
    .filterM fun position hposition => test_completes word (List.mem_range.mp hposition)
  rw [toCpus, GroupWord.toCpus_eq_filter_range]
  exact hscan.map (List.map CpuId.mk)

end PartialGroup

/-- An action of the calling thread over partial operations. -/
def PartialThread (α : Type) : Type := Trace → Partial (Except AffinityError α × Trace)

namespace PartialThread

/-- A later action runs on the trace of the earlier one, unless that failed. -/
instance : Monad PartialThread where
  pure a := fun t => return (.ok a, t)
  bind action next := fun t => do
    match ← action t with
    | (.ok a, t) => next a t
    | (.error e, t) => return (.error e, t)

/-- Calls, reports and failures reach no partial operation. -/
instance : MonadLift Thread PartialThread where
  monadLift action := fun t => return action.runOn t

/-- A computation over partial operations leaves the trace alone. -/
instance : MonadLift Partial PartialThread where
  monadLift x := fun t => return (.ok (← x), t)

/-- Report an action's failure, and fail all the same. -/
def reporting {α : Type} (action : PartialThread α) (event : AffinityError → Event) :
    PartialThread α := fun t => do
  match ← action t with
  | (.ok a, t) => return (.ok a, t)
  | (.error e, t) => return (.error e, { t with events := t.events ++ [event e] })

/-- Read the affinity by mask calls. -/
def readMask (family : MaskCalls.Family) : PartialThread (List CpuId) := do
  let (status, mask) ← MaskCalls.getMask family
  MaskCalls.check status
  PartialMask.toList mask

/-- Request the affinity of a list's CPUs by mask calls. -/
def applyMask (family : MaskCalls.Family) (cpus : List CpuId) : PartialThread Unit := do
  let build ← PartialMask.build cpus
  let mask ← Thread.ofExcept build.result
  MaskCalls.check (← MaskCalls.setMask mask family)

/-- Read the affinity by group calls. -/
def readGroup : PartialThread (List CpuId) := do
  match ← Thread.call .getThreadGroupAffinity with
  | some word => PartialGroup.toCpus word
  | none => GroupCalls.failWithLastError

/-- Request the affinity of a list's CPUs by group calls. -/
def applyGroup (cpus : List CpuId) : PartialThread Unit := do
  let word ← Thread.ofExcept (← PartialGroup.ofCpus cpus)
  let previous ← Thread.call (.setThreadAffinityMask word)
  if previous = 0#64 then GroupCalls.failWithLastError else return ()

/-- Read the affinity by the platform's own calls. -/
def read : Platform → PartialThread (List CpuId)
  | .linux => readMask .pthread
  | .android => readMask .sched
  | .windows => readGroup
  | .unsupported => Thread.fail .platformNotSupported

/-- Request an affinity by the platform's own calls. -/
def apply (cpus : List CpuId) : Platform → PartialThread Unit
  | .linux => applyMask .pthread cpus
  | .android => applyMask .sched cpus
  | .windows => applyGroup cpus
  | .unsupported => Thread.fail .platformNotSupported

/-- The affinity of the calling thread, in ascending order. -/
def getAffinity (p : Platform) : PartialThread (List CpuId) := (read p).reporting .readFailed

/-- Set the affinity of the calling thread, and answer the affinity that took effect. -/
def setAffinity (p : Platform) (cpus : List CpuId) : PartialThread (List CpuId) := do
  (apply cpus p).reporting (.applyFailed cpus)
  let effective ← getAffinity p
  Thread.report (.applied cpus effective)
  return effective

/-- Pin the calling thread to one CPU. -/
def pin (p : Platform) (cpu : CpuId) : PartialThread Unit := do
  (apply [cpu] p).reporting (.pinFailed cpu)
  Thread.report (.pinned cpu)

/-- The action of an operation on a platform. -/
def operate (p : Platform) : Operation → PartialThread Answer
  | .get => return .cpus (← getAffinity p)
  | .set cpus => return .cpus (← setAffinity p cpus)
  | .pin cpu => do
    pin p cpu
    return .done
  | .count => return .number (← p.processorCount)

/-- An action over partial operations follows an action of the thread when it completes on every
trace with what that action leaves there. -/
def Follows {α : Type} (action : PartialThread α) (total : Thread α) : Prop :=
  ∀ t, (action t).Completes (total.runOn t)

namespace Follows

variable {α β : Type} {action : PartialThread α} {total : Thread α}

/-- An action that reaches no partial operation follows itself. -/
theorem lift (total : Thread α) : Follows (liftM total) total :=
  fun t => .pure (total.runOn t)

/-- Returning a value follows returning it. -/
theorem pure (a : α) : Follows (Pure.pure a) (Pure.pure a) := lift (Pure.pure a)

/-- Actions that follow others do so one after another. -/
theorem bind (haction : Follows action total) {next : α → PartialThread β}
    {totalNext : α → Thread β} (hnext : ∀ a, Follows (next a) (totalNext a)) :
    Follows (action >>= next) (total >>= totalNext) := by
  intro t
  rw [Thread.runOn_bind]
  apply (haction t).bind
  rcases total.runOn t with ⟨result, t'⟩
  cases result with
  | ok a => exact hnext a t'
  | error e => exact .pure _

/-- A completed computation leaves the later actions to follow. -/
theorem bindPartial {x : Partial α} {a : α} (hx : x.Completes a) {next : α → PartialThread β}
    {totalNext : Thread β} (hnext : Follows (next a) totalNext) :
    Follows (liftM x >>= next) totalNext := by
  intro t
  have hlift : (liftM x : PartialThread α) t = x >>= fun a => Pure.pure (.ok a, t) := rfl
  have hcompletes := hx.map fun a => ((.ok a, t) : Except AffinityError α × Trace)
  rw [← hlift] at hcompletes
  exact hcompletes.bind (hnext t)

/-- Reporting the failures follows, too. -/
theorem reporting (haction : Follows action total) (event : AffinityError → Event) :
    Follows (action.reporting event) (total.reporting event) := by
  intro t
  rw [Thread.runOn_reporting]
  apply (haction t).bind
  rcases total.runOn t with ⟨result, t'⟩
  cases result <;> exact .pure _

end Follows

/-- Reading by mask calls follows. -/
theorem readMask_follows (family : MaskCalls.Family) :
    Follows (readMask family) (MaskCalls.read family) := by
  apply (Follows.lift (MaskCalls.getMask family)).bind
  rintro ⟨status, mask⟩
  apply (Follows.lift (MaskCalls.check status)).bind
  intro _ t
  exact (PartialMask.toList_completes mask).map _

/-- Requesting by mask calls follows. -/
theorem applyMask_follows (family : MaskCalls.Family) (cpus : List CpuId) :
    Follows (applyMask family cpus) (MaskCalls.apply family cpus) := by
  apply Follows.bindPartial (PartialMask.build_completes cpus)
  apply (Follows.lift (Thread.ofExcept (Mask.build cpus).result)).bind
  intro mask
  apply (Follows.lift (MaskCalls.setMask mask family)).bind
  intro status
  exact .lift (MaskCalls.check status)

/-- Reading by group calls follows. -/
theorem readGroup_follows : Follows readGroup GroupCalls.read := by
  apply (Follows.lift (Thread.call .getThreadGroupAffinity)).bind
  intro answer
  cases answer with
  | some word =>
    intro t
    exact (PartialGroup.toCpus_completes word).map _
  | none => exact .lift GroupCalls.failWithLastError

/-- Requesting by group calls follows. -/
theorem applyGroup_follows (cpus : List CpuId) :
    Follows (applyGroup cpus) (GroupCalls.apply cpus) := by
  apply Follows.bindPartial (PartialGroup.setAll_completes 0#64 cpus)
  apply (Follows.lift (Thread.ofExcept (GroupWord.ofCpus cpus))).bind
  intro word
  apply (Follows.lift (Thread.call (.setThreadAffinityMask word))).bind
  intro previous
  split
  · exact .lift GroupCalls.failWithLastError
  · exact .pure ()

/-- Reading follows on every platform. -/
theorem read_follows (p : Platform) : Follows (read p) p.read := by
  cases p with
  | linux => exact readMask_follows .pthread
  | android => exact readMask_follows .sched
  | windows => exact readGroup_follows
  | unsupported => exact .lift (Thread.fail .platformNotSupported)

/-- Requesting follows on every platform. -/
theorem apply_follows (cpus : List CpuId) (p : Platform) : Follows (apply cpus p) (p.apply cpus) := by
  cases p with
  | linux => exact applyMask_follows .pthread cpus
  | android => exact applyMask_follows .sched cpus
  | windows => exact applyGroup_follows cpus
  | unsupported => exact .lift (Thread.fail .platformNotSupported)

/-- Reading with its warning follows. -/
theorem getAffinity_follows (p : Platform) : Follows (getAffinity p) p.getAffinity :=
  (read_follows p).reporting .readFailed

/-- Setting follows. -/
theorem setAffinity_follows (p : Platform) (cpus : List CpuId) :
    Follows (setAffinity p cpus) (p.setAffinity cpus) := by
  apply ((apply_follows cpus p).reporting (.applyFailed cpus)).bind
  intro _
  apply (getAffinity_follows p).bind
  intro effective
  apply (Follows.lift (Thread.report (.applied cpus effective))).bind
  intro _
  exact .pure effective

/-- Pinning follows. -/
theorem pin_follows (p : Platform) (cpu : CpuId) : Follows (pin p cpu) (p.pin cpu) := by
  apply ((apply_follows [cpu] p).reporting (.pinFailed cpu)).bind
  intro _
  exact .lift (Thread.report (.pinned cpu))

/-- Every operation follows. -/
theorem operate_follows (p : Platform) (operation : Operation) :
    Follows (operate p operation) (operation.action p) := by
  cases operation with
  | get => exact (getAffinity_follows p).bind fun cpus => .pure (Answer.cpus cpus)
  | set cpus => exact (setAffinity_follows p cpus).bind fun cpus => .pure (Answer.cpus cpus)
  | pin cpu => exact (pin_follows p cpu).bind fun _ => .pure Answer.done
  | count => exact (Follows.lift p.processorCount).bind fun n => .pure (Answer.number n)

section Session

open ThreadSession (Step Record)

/-- Carry out one step on a host. -/
def step (p : Platform) (h : Host) : Step → Partial (Record × Host)
  | .perform operation => do
    let (result, t) ← operate p operation { host := h }
    return (⟨result, t.calls, t.events, t.host.mask⟩, t.host)
  | .configure change => return ThreadSession.step p h (.configure change)

/-- Carry out steps in order. -/
def run (p : Platform) (h : Host) : List Step → Partial (List Record × Host)
  | [] => return ([], h)
  | s :: rest => do
    let (record, h) ← step p h s
    let (records, h) ← run p h rest
    return (record :: records, h)

/-- Every step of a session of a thread completes. -/
theorem step_completes (p : Platform) (h : Host) (s : Step) :
    (step p h s).Completes (ThreadSession.step p h s) := by
  cases s with
  | perform operation => exact (operate_follows p operation { host := h }).map _
  | configure change => exact .pure _

/-- Every session of a thread completes. -/
theorem run_completes (p : Platform) (h : Host) (steps : List Step) :
    (run p h steps).Completes (ThreadSession.run p h steps) := by
  induction steps generalizing h with
  | nil => exact .pure _
  | cons s rest ih => exact (step_completes p h s).bind ((ih _).map _)

end Session

end PartialThread

/-- Setting and testing a bit are partial operations: they have a value exactly below the
capacity. Yet every session over masks and every session of a thread completes over them, from
whatever words or host, for whatever indices, receivers and platform, with exactly what the
session gives. Each bit operation that it reaches names a CPU below the capacity, each word is
one of the sixteen, and each shift is shorter than a word. -/
theorem sessions_stay_in_bounds :
    (∀ (w : Words) (cpu : ℕ),
      ((Partial.setBit w cpu).value.isSome = true ↔ cpu < maskCapacity) ∧
        ((Partial.testBit w cpu).value.isSome = true ↔ cpu < maskCapacity)) ∧
      (∀ (slots : MaskSession.Slots) (steps : List MaskSession.Step),
        (PartialMask.run slots steps).Completes (MaskSession.run slots steps)) ∧
      ∀ (p : Platform) (h : Host) (steps : List ThreadSession.Step),
        (PartialThread.run p h steps).Completes (ThreadSession.run p h steps) := by
  refine ⟨fun w cpu => ?_, PartialMask.run_completes, PartialThread.run_completes⟩
  exact ⟨Partial.setBit_isSome_iff w cpu, Partial.testBit_isSome_iff w cpu⟩

end CpuAffinity
