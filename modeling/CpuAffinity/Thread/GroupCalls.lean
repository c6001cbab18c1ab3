import CpuAffinity.GroupWord
import CpuAffinity.Thread.Basic

/-!
# Affinity through group calls

Hosts of this kind take and give the word of the thread's processor group. A call that
answers zero has failed, and the last error tells why. Replacing the affinity answers the
previous word; where that was zero, the replacement took place and still counts as a
failure.
-/

namespace CpuAffinity

namespace GroupCalls

/-- Fail with the thread's last error. -/
def failWithLastError {α : Type} : Thread α := do
  Thread.fail (.errorCode (← Thread.lastError))

/-- Read the affinity. -/
def read : Thread (List CpuId) := do
  match ← Thread.call .getThreadGroupAffinity with
  | some word => return GroupWord.toCpus word
  | none => failWithLastError

/-- Request the affinity of a list's CPUs; no call is made if one of them is refused. -/
def apply (cpus : List CpuId) : Thread Unit := do
  let word ← Thread.ofExcept (GroupWord.ofCpus cpus)
  let previous ← Thread.call (.setThreadAffinityMask word)
  if previous = 0#64 then failWithLastError else return ()

/-- Count the processors of all groups; a count of zero is a failure. -/
def processorCount : Thread Nat := do
  let count ← Thread.call (.getActiveProcessorCount allProcessorGroups)
  if count = 0 then failWithLastError else return count.toNat

end GroupCalls

end CpuAffinity
