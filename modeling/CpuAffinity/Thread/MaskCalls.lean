import CpuAffinity.Mask.Basic
import CpuAffinity.Thread.Basic

/-!
# Affinity through mask calls

Hosts of this kind take and give the words of a whole mask. Two families of calls differ
in how a failure arrives: one returns the code, the other leaves it in the error number.
Either way an operation sees a status that is zero for success, so a failure whose code
is zero counts as a success that wrote no words.
-/

namespace CpuAffinity

namespace MaskCalls

/-- A family of calls on masks. -/
inductive Family where
  /-- The calls return the code of a failure. -/
  | pthread
  /-- The calls leave the code of a failure in the error number. -/
  | sched
  deriving DecidableEq, Repr

/-- Ask for the affinity: the status, and the mask as far as it was written. -/
def getMask : Family → Thread (Int32 × Mask)
  | .pthread => do
    let (status, written) ← Thread.call (.pthreadGetAffinity Words.byteSize)
    return (status, .ofWords (written.getD .zero))
  | .sched => do
    let (status, written) ← Thread.call (.schedGetAffinity Words.byteSize)
    let mask := Mask.ofWords (written.getD .zero)
    if status = 0 then return (0, mask) else return (← Thread.errno, mask)

/-- Request an affinity, and give the status. -/
def setMask (mask : Mask) : Family → Thread Int32
  | .pthread => Thread.call (.pthreadSetAffinity Words.byteSize mask.words)
  | .sched => do
    let status ← Thread.call (.schedSetAffinity Words.byteSize mask.words)
    if status = 0 then return 0 else Thread.errno

/-- A status other than zero is the code of a failure. -/
def check (status : Int32) : Thread Unit :=
  if status = 0 then return () else Thread.fail (.errorCode status)

/-- Read the affinity. -/
def read (family : Family) : Thread (List CpuId) := do
  let (status, mask) ← getMask family
  check status
  return mask.toList

/-- Request the affinity of a list's CPUs; no call is made if one of them is refused. -/
def apply (family : Family) (cpus : List CpuId) : Thread Unit := do
  let mask ← Thread.ofExcept (Mask.ofCpus cpus)
  check (← setMask mask family)

/-- Count the processors; a count that is not positive is a failure told by the error number. -/
def processorCount : Thread Nat := do
  let count ← Thread.call .sysconf
  if 0 < count then return count.toInt.toNat else Thread.fail (.errorCode (← Thread.errno))

end MaskCalls

end CpuAffinity
