import CpuAffinity.Thread.Operations

/-!
# Sessions of a thread

A session carries out affinity operations on a host one after another. Each step leaves a
record: its result, the calls and events of that step alone, and the thread's affinity
afterwards. Between operations the settings of the host may change.
-/

namespace CpuAffinity

/-- An affinity operation with its arguments. -/
inductive Operation where
  | get
  | set (cpus : List CpuId)
  | pin (cpu : CpuId)
  | count
  deriving DecidableEq, Repr

/-- What a successful operation answers. -/
inductive Answer where
  | cpus (cpus : List CpuId)
  | number (value : Nat)
  | done
  deriving DecidableEq, Repr

/-- The action of an operation on a platform. -/
def Operation.action (p : Platform) : Operation → Thread Answer
  | get => return .cpus (← p.getAffinity)
  | set cpus => return .cpus (← p.setAffinity cpus)
  | pin cpu => do
    p.pin cpu
    return .done
  | count => return .number (← p.processorCount)

namespace ThreadSession

/-- One step of a session. -/
inductive Step where
  /-- Carry out an operation. -/
  | perform (operation : Operation)
  /-- Change the host's settings from outside. -/
  | configure (change : Host.Change)
  deriving DecidableEq

/-- What a step leaves behind. -/
structure Record where
  result : Except AffinityError Answer
  calls : List Call
  events : List Event
  /-- The affinity that the host holds after the step. -/
  mask : Words

/-- Carry out one step on a host. -/
def step (p : Platform) (h : Host) : Step → Record × Host
  | .perform operation =>
    let (result, t) := (operation.action p).runOn { host := h }
    (⟨result, t.calls, t.events, t.host.mask⟩, t.host)
  | .configure change =>
    let h := h.change change
    (⟨.ok .done, [], [], h.mask⟩, h)

/-- Carry out steps in order. -/
def run (p : Platform) (h : Host) : List Step → List Record × Host
  | [] => ([], h)
  | s :: rest =>
    let (record, h) := step p h s
    let (records, h) := run p h rest
    (record :: records, h)

/-- A record shows the affinity that the host is left with. -/
theorem step_mask (p : Platform) (h : Host) (s : Step) :
    (step p h s).1.mask = (step p h s).2.mask := by
  cases s <;> rfl

/-- The record at a position is that of the step there, on the host that the steps before it leave. -/
theorem run_getElem? (p : Platform) (h : Host) (steps : List Step) (n : Nat) :
    (run p h steps).1[n]? = steps[n]?.map fun s => (step p (run p h (steps.take n)).2 s).1 := by
  induction steps generalizing h n with
  | nil => rfl
  | cons s rest ih =>
    cases n with
    | zero => rfl
    | succ n => simp only [run, List.getElem?_cons_succ, List.take_succ_cons, ih]

end ThreadSession

end CpuAffinity
