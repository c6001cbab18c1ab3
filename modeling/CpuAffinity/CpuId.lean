import CpuAffinity.Text.Outline

/-!
# Logical CPUs

A logical CPU is named by its index in the host's numbering. Any index names a CPU;
whether a mask or a platform can hold it is decided where it is used. Names are ordered
by index.
-/

namespace CpuAffinity

/-- The name of a logical CPU. -/
structure CpuId where
  index : Nat
  deriving DecidableEq, Repr, Hashable, Inhabited

namespace CpuId

/-- A CPU is known from its index. -/
@[simp]
theorem index_inj {a b : CpuId} : a.index = b.index ↔ a = b := ⟨congrArg mk, congrArg index⟩

instance : LE CpuId := ⟨fun a b => a.index ≤ b.index⟩

instance : LT CpuId := ⟨fun a b => a.index < b.index⟩

instance (a b : CpuId) : Decidable (a ≤ b) := inferInstanceAs (Decidable (a.index ≤ b.index))

instance (a b : CpuId) : Decidable (a < b) := inferInstanceAs (Decidable (a.index < b.index))

instance : Ord CpuId := ⟨fun a b => compare a.index b.index⟩

instance : Min CpuId := minOfLe

instance : Max CpuId := maxOfLe

/-- A CPU is displayed as its index behind `cpu`, whatever width is asked for. -/
def display (cpu : CpuId) : String := "cpu" ++ toString cpu.index

instance : ToString CpuId := ⟨display⟩

/-- A CPU's outline wraps its index. -/
def outline (cpu : CpuId) : Outline := .tuple "CpuId" [toString cpu.index]

/-- A list of CPUs is outlined in the order given, repetitions kept. -/
def listOutline (cpus : List CpuId) : Outline := .list (cpus.map fun cpu => cpu.outline.oneLine)

/-- Put a list of CPUs in ascending order, repetitions kept. -/
def sort (cpus : List CpuId) : List CpuId := cpus.mergeSort fun a b => decide (a ≤ b)

end CpuId

end CpuAffinity
