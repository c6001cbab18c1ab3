import CpuAffinity.Host.Basic

/-!
# Host calls

The calls that affinity operations make, and what a host does with each. There are three
conventions. A `pthread` call returns the code of its failure. A `sched` call returns
minus one and leaves the code in the error number. A group call returns zero and leaves
the code in the last error; replacing a group's affinity returns the previous one, which
may be zero as well.
-/

namespace CpuAffinity

/-- A call to the host. -/
inductive Call where
  | pthreadGetAffinity (size : Nat)
  | pthreadSetAffinity (size : Nat) (requested : Words)
  | schedGetAffinity (size : Nat)
  | schedSetAffinity (size : Nat) (requested : Words)
  /-- Ask for the number of configured processors. -/
  | sysconf
  | getThreadGroupAffinity
  | setThreadAffinityMask (requested : BitVec 64)
  /-- Count the active processors of a group. -/
  | getActiveProcessorCount (group : UInt16)
  deriving DecidableEq

namespace Call

/-- An argument as it is shown in a log of calls. -/
inductive Argument where
  | number (value : Nat)
  | constant (name : String)
  | words (value : Words)
  | word (value : BitVec 64)
  deriving DecidableEq

/-- The entry point of the host that a call goes to. -/
def name : Call → String
  | pthreadGetAffinity _ => "pthread_getaffinity_np"
  | pthreadSetAffinity _ _ => "pthread_setaffinity_np"
  | schedGetAffinity _ => "sched_getaffinity"
  | schedSetAffinity _ _ => "sched_setaffinity"
  | sysconf => "sysconf"
  | getThreadGroupAffinity => "GetThreadGroupAffinity"
  | setThreadAffinityMask _ => "SetThreadAffinityMask"
  | getActiveProcessorCount _ => "GetActiveProcessorCount"

/-- The arguments of a call, the calling thread left out. -/
def arguments : Call → List Argument
  | pthreadGetAffinity size | schedGetAffinity size => [.number size]
  | pthreadSetAffinity size requested | schedSetAffinity size requested =>
    [.number size, .words requested]
  | sysconf => [.constant "_SC_NPROCESSORS_CONF"]
  | getThreadGroupAffinity => []
  | setThreadAffinityMask requested => [.word requested]
  | getActiveProcessorCount group => [.number group.toNat]

/-- What a call answers: a status, with the words that were written for a read; a count;
or the word of a group. -/
@[reducible] def Answer : Call → Type
  | pthreadGetAffinity _ | schedGetAffinity _ => Int32 × Option Words
  | pthreadSetAffinity _ _ | schedSetAffinity _ _ => Int32
  | sysconf => Int64
  | getThreadGroupAffinity => Option (BitVec 64)
  | setThreadAffinityMask _ => BitVec 64
  | getActiveProcessorCount _ => UInt32

end Call

/-- Every processor group. -/
def allProcessorGroups : UInt16 := 0xFFFF

/-- Carry out a call: what the host answers, and the host afterwards. -/
def Host.perform (h : Host) : (c : Call) → c.Answer × Host
  | .pthreadGetAffinity _ =>
    match h.read with
    | .ok words => ((0, some words), h)
    | .error code => ((code, none), h)
  | .pthreadSetAffinity _ requested =>
    match h.restrict requested with
    | .ok h => (0, h)
    | .error code => (code, h)
  | .schedGetAffinity _ =>
    match h.read with
    | .ok words => ((0, some words), h)
    | .error code => ((-1, none), { h with errno := code })
  | .schedSetAffinity _ requested =>
    match h.restrict requested with
    | .ok h => (0, h)
    | .error code => (-1, { h with errno := code })
  | .sysconf => (h.processors, { h with errno := h.processorsError })
  | .getThreadGroupAffinity =>
    match h.read with
    | .ok words => (some (groupWord words), h)
    | .error code => (none, { h with lastError := code.toUInt32 })
  | .setThreadAffinityMask requested =>
    match h.restrictGroup requested with
    | .ok h' => (groupWord h.mask, h')
    | .error code => (0#64, { h with lastError := code })
  | .getActiveProcessorCount _ =>
    (h.processors.toUInt64.toUInt32, { h with lastError := h.processorsError.toUInt32 })

/-- No call changes what the thread may use or the failures to come. -/
@[simp]
theorem Host.perform_settings (h : Host) (c : Call) :
    (h.perform c).2.possible = h.possible ∧ (h.perform c).2.readError = h.readError ∧
      (h.perform c).2.writeError = h.writeError ∧ (h.perform c).2.processors = h.processors ∧
      (h.perform c).2.processorsError = h.processorsError := by
  cases c with
  | pthreadGetAffinity | schedGetAffinity | getThreadGroupAffinity =>
    simp only [perform]
    split <;> exact ⟨rfl, rfl, rfl, rfl, rfl⟩
  | sysconf | getActiveProcessorCount => exact ⟨rfl, rfl, rfl, rfl, rfl⟩
  | pthreadSetAffinity | schedSetAffinity =>
    simp only [perform]
    split
    · next hok =>
      obtain ⟨-, -, rfl⟩ := restrict_eq_ok_iff.mp hok
      exact ⟨rfl, rfl, rfl, rfl, rfl⟩
    · exact ⟨rfl, rfl, rfl, rfl, rfl⟩
  | setThreadAffinityMask =>
    simp only [perform]
    split
    · next hok =>
      obtain ⟨-, -, -, rfl⟩ := restrictGroup_eq_ok_iff.mp hok
      exact ⟨rfl, rfl, rfl, rfl, rfl⟩
    · exact ⟨rfl, rfl, rfl, rfl, rfl⟩

end CpuAffinity
