import CpuAffinity.Text.Outline

/-!
# Failures

An affinity operation fails because a host call reported a code, because an index lies
beyond the capacity in force, or because the platform offers no affinity at all. The
wording of each failure is fixed here.
-/

namespace CpuAffinity

/-- Why an affinity operation failed. -/
inductive AffinityError where
  /-- A host call failed with this code. -/
  | errorCode (code : Int32)
  /-- The CPU's index is not below the capacity. -/
  | outOfRange (cpu capacity : Nat)
  /-- The platform has no processor affinity. -/
  | platformNotSupported
  deriving DecidableEq, Repr

namespace AffinityError

/-- The sentence shown to a user. -/
def message : AffinityError → String
  | errorCode code => "processor affinity call failed with error code " ++ toString code.toInt
  | outOfRange cpu capacity =>
    "cpu " ++ toString cpu ++ " is out of range: the mask holds " ++ toString capacity ++ " cpus"
  | platformNotSupported => "processor affinity is not supported on this platform"

instance : ToString AffinityError := ⟨message⟩

/-- The outline names the cause and its data. -/
def outline : AffinityError → Outline
  | errorCode code => .tuple "ErrorCode" [toString code.toInt]
  | outOfRange cpu capacity =>
    .record "OutOfRange" [("cpu", toString cpu), ("capacity", toString capacity)]
  | platformNotSupported => .bare "PlatformNotSupported"

/-- The code that a host call reported, if a host call failed. -/
def code? : AffinityError → Option Int32
  | errorCode code => some code
  | _ => none

/-- Whether an index was beyond the capacity. -/
def isOutOfRange : AffinityError → Bool
  | outOfRange _ _ => true
  | _ => false

/-- Whether the platform offers no affinity. -/
def isNotSupported : AffinityError → Bool
  | platformNotSupported => true
  | _ => false

/-- The failure that caused this one: every failure is the first of its chain. -/
def cause? : AffinityError → Option AffinityError
  | _ => none

end AffinityError

end CpuAffinity
