import CpuAffinity.Error

/-!
# Selections of CPUs

A selection is any state in which CPUs can be cleared, selected and looked up. Checked
insertion and counting are derived from these three operations alone, so every selection
has them. The derived operations never hand an index beyond the capacity to `select`: its
type does not take one.
-/

namespace CpuAffinity

/-- A mask holds this many CPUs. -/
def maskCapacity : Nat := 1024

/-- A state that CPUs can be selected in. A look-up may leave the state changed, as a
selection that notes its look-ups does. -/
class CpuSelection (σ : Type) where
  /-- Select no CPU. -/
  clear (s : σ) : σ
  /-- Select one CPU more. -/
  select (s : σ) (cpu : Fin maskCapacity) : σ
  /-- Look one CPU up. -/
  lookUp (s : σ) (cpu : Nat) : Bool × σ

namespace CpuSelection

variable {σ : Type} [CpuSelection σ]

/-- Select a CPU, refusing an index that no mask holds. A refusal leaves the state alone. -/
def insert (s : σ) (cpu : Nat) : Except AffinityError Unit × σ :=
  if h : cpu < maskCapacity then (.ok (), select s ⟨cpu, h⟩)
  else (.error (.outOfRange cpu maskCapacity), s)

/-- Insert CPUs one by one, going on after a refusal. -/
def insertEach (s : σ) : List Nat → List (Except AffinityError Unit) × σ
  | [] => ([], s)
  | cpu :: rest =>
    let (result, s) := insert s cpu
    let (results, s) := insertEach s rest
    (result :: results, s)

/-- Look CPUs up one by one, and count those that are selected. -/
def tally (s : σ) : List Nat → Nat × σ
  | [] => (0, s)
  | cpu :: rest =>
    let (selected, s) := lookUp s cpu
    let (n, s) := tally s rest
    (selected.toNat + n, s)

/-- Count the selected CPUs among all that a mask holds, in ascending order. -/
def count (s : σ) : Nat × σ := tally s (List.range maskCapacity)

/-- Insertion selects a CPU below the capacity. -/
@[simp]
theorem insert_of_lt (s : σ) {cpu : Nat} (h : cpu < maskCapacity) :
    insert s cpu = (.ok (), select s ⟨cpu, h⟩) :=
  dif_pos h

/-- Insertion refuses every other index and leaves the selection alone. -/
@[simp]
theorem insert_of_ge (s : σ) {cpu : Nat} (h : maskCapacity ≤ cpu) :
    insert s cpu = (.error (.outOfRange cpu maskCapacity), s) :=
  dif_neg (Nat.not_lt.mpr h)

end CpuSelection

end CpuAffinity
