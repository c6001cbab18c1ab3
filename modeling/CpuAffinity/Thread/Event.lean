import CpuAffinity.CpuId
import CpuAffinity.Error

/-!
# Events

What affinity operations report: each failure as a warning, and each change that took
effect as a debugging note. An event carries its data; its message and the texts of its
fields are derived from them.
-/

namespace CpuAffinity

/-- A report of an affinity operation. -/
inductive Event where
  | readFailed (error : AffinityError)
  | applyFailed (cpus : List CpuId) (error : AffinityError)
  | applied (requested effective : List CpuId)
  | pinFailed (cpu : CpuId) (error : AffinityError)
  | pinned (cpu : CpuId)
  deriving DecidableEq, Repr

namespace Event

/-- How urgent an event is. -/
inductive Level where
  | debug
  | warn
  deriving DecidableEq, Repr

/-- A failure is a warning. -/
def level : Event → Level
  | readFailed _ | applyFailed _ _ | pinFailed _ _ => .warn
  | applied _ _ | pinned _ => .debug

/-- The sentence that names what happened. -/
def message : Event → String
  | readFailed _ => "failed to get the processor affinity"
  | applyFailed _ _ => "failed to set the processor affinity"
  | applied _ _ => "processor affinity applied"
  | pinFailed _ _ => "failed to pin the current thread"
  | pinned _ => "current thread pinned"

/-- The data of an event, each with its name: lists of CPUs are outlined, CPUs and errors
displayed. -/
def fields : Event → List (String × String)
  | readFailed error => [("error", error.message)]
  | applyFailed cpus error => [("cpus", (CpuId.listOutline cpus).oneLine), ("error", error.message)]
  | applied requested effective =>
    [("requested", (CpuId.listOutline requested).oneLine),
      ("effective", (CpuId.listOutline effective).oneLine)]
  | pinFailed cpu error => [("cpu", cpu.display), ("error", error.message)]
  | pinned cpu => [("cpu", cpu.display)]

end Event

end CpuAffinity
