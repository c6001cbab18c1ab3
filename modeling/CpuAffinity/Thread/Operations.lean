import CpuAffinity.Thread.GroupCalls
import CpuAffinity.Thread.MaskCalls

/-!
# Affinity operations

Reading, setting and pinning the affinity of the calling thread, and counting the
processors, on each platform. Setting reads the affinity back, since a host may grant
fewer CPUs than were asked for; pinning does not. Failures are reported as they pass.
-/

namespace CpuAffinity

/-- The platforms that a thread can run on. -/
inductive Platform where
  | linux
  | android
  | windows
  /-- Any platform without processor affinity. -/
  | unsupported
  deriving DecidableEq, Repr

namespace Platform

/-- Read the affinity by the platform's own calls. -/
def read : Platform → Thread (List CpuId)
  | linux => MaskCalls.read .pthread
  | android => MaskCalls.read .sched
  | windows => GroupCalls.read
  | unsupported => Thread.fail .platformNotSupported

/-- Request an affinity by the platform's own calls. -/
def apply (cpus : List CpuId) : Platform → Thread Unit
  | linux => MaskCalls.apply .pthread cpus
  | android => MaskCalls.apply .sched cpus
  | windows => GroupCalls.apply cpus
  | unsupported => Thread.fail .platformNotSupported

/-- The affinity of the calling thread, in ascending order. -/
def getAffinity (p : Platform) : Thread (List CpuId) := p.read.reporting .readFailed

/-- Set the affinity of the calling thread, and answer the affinity that took effect. -/
def setAffinity (p : Platform) (cpus : List CpuId) : Thread (List CpuId) := do
  (p.apply cpus).reporting (.applyFailed cpus)
  let effective ← p.getAffinity
  Thread.report (.applied cpus effective)
  return effective

/-- Pin the calling thread to one CPU. -/
def pin (p : Platform) (cpu : CpuId) : Thread Unit := do
  (p.apply [cpu]).reporting (.pinFailed cpu)
  Thread.report (.pinned cpu)

/-- The number of processors of the host. -/
def processorCount : Platform → Thread Nat
  | linux | android => MaskCalls.processorCount
  | windows => GroupCalls.processorCount
  | unsupported => Thread.fail .platformNotSupported

end Platform

end CpuAffinity
