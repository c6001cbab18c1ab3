import CpuAffinity.CpuId
import CpuAffinity.Mask.Words

/-!
# Masks

A mask is a set of CPUs below the capacity, kept in the words that host calls take. Its
operations speak of CPUs: insertion refuses an index beyond the capacity, enumeration is
ascending, and masks are equal when they hold the same CPUs. A mask built from a list
stops at the first CPU it cannot hold.
-/

namespace CpuAffinity

/-- A set of CPUs below the capacity. -/
structure Mask where
  /-- The mask held by these words, whatever they are. -/
  ofWords ::
  /-- The words that hold the mask. -/
  words : Words

namespace Mask

/-- The mask without a CPU. -/
def empty : Mask := ofWords .zero

instance : Inhabited Mask := ⟨empty⟩

instance : EmptyCollection Mask := ⟨empty⟩

/-- The number of CPUs that a mask can hold. -/
def capacity (_ : Mask) : Nat := maskCapacity

/-- Remove every CPU. -/
def clear (m : Mask) : Mask := ofWords m.words.clear

/-- Add a CPU that a mask holds. -/
def select (m : Mask) (cpu : Fin maskCapacity) : Mask := ofWords (m.words.select cpu)

/-- Add a CPU, refusing an index that no mask holds. -/
def insert (m : Mask) (cpu : Nat) : Except AffinityError Unit × Mask :=
  let (result, words) := CpuSelection.insert m.words cpu
  (result, ofWords words)

/-- Whether the mask holds a CPU; no mask holds an index beyond the capacity. -/
def contains (m : Mask) (cpu : Nat) : Bool := m.words.contains cpu

/-- The number of CPUs in the mask. -/
def count (m : Mask) : Nat := (CpuSelection.count m.words).1

/-- Whether the mask holds no CPU. -/
def isEmpty (m : Mask) : Bool := !(List.range maskCapacity).any m.contains

/-- The CPUs of the mask in ascending order. -/
def toList (m : Mask) : List CpuId := ((List.range maskCapacity).filter m.contains).map CpuId.mk

/-- Masks are equal when they hold the same CPUs. -/
instance : BEq Mask :=
  ⟨fun a b => (List.range maskCapacity).all fun cpu => a.contains cpu == b.contains cpu⟩

instance : CpuSelection Mask where
  clear := clear
  select := select
  lookUp m cpu := (m.contains cpu, m)

/-- The outline of a mask lists the indices it holds. -/
def outline (m : Mask) : Outline := .set (m.toList.map fun cpu => toString cpu.index)

/-- The end of building a mask from a list: the mask or the refusal, and how many of the
list's CPUs were taken. -/
structure Build where
  result : Except AffinityError Mask
  taken : Nat

/-- Insert the CPUs of a list until one is refused; the refused one has been taken. -/
def buildOn (m : Mask) (taken : Nat) : List CpuId → Build
  | [] => ⟨.ok m, taken⟩
  | cpu :: rest =>
    match m.insert cpu.index with
    | (.ok _, m) => buildOn m (taken + 1) rest
    | (.error e, _) => ⟨.error e, taken + 1⟩

/-- Build a mask from a list of CPUs in any order, with any repetitions. -/
def build (cpus : List CpuId) : Build := buildOn empty 0 cpus

/-- The mask of a list's CPUs, or the refusal of the first that no mask holds. -/
def ofCpus (cpus : List CpuId) : Except AffinityError Mask := (build cpus).result

/-- Insertion adds a CPU below the capacity. -/
@[simp]
theorem insert_of_lt (m : Mask) {cpu : Nat} (h : cpu < maskCapacity) :
    m.insert cpu = (.ok (), m.select ⟨cpu, h⟩) := by
  rw [insert, CpuSelection.insert_of_lt m.words h]
  rfl

/-- Insertion refuses every other index and leaves the mask alone. -/
@[simp]
theorem insert_of_ge (m : Mask) {cpu : Nat} (h : maskCapacity ≤ cpu) :
    m.insert cpu = (.error (.outOfRange cpu maskCapacity), m) := by
  rw [insert, CpuSelection.insert_of_ge m.words h]

/-- Building goes on with a CPU below the capacity. -/
@[simp]
theorem buildOn_cons_of_lt (m : Mask) (taken : Nat) {cpu : CpuId} (h : cpu.index < maskCapacity)
    (rest : List CpuId) :
    m.buildOn taken (cpu :: rest) = (m.select ⟨cpu.index, h⟩).buildOn (taken + 1) rest := by
  rw [buildOn, insert_of_lt m h]

/-- Building ends at any other CPU, which has been taken. -/
@[simp]
theorem buildOn_cons_of_ge (m : Mask) (taken : Nat) {cpu : CpuId} (h : maskCapacity ≤ cpu.index)
    (rest : List CpuId) :
    m.buildOn taken (cpu :: rest) = ⟨.error (.outOfRange cpu.index maskCapacity), taken + 1⟩ := by
  rw [buildOn, insert_of_ge m h]

/-- No mask contains an index beyond the capacity. -/
@[simp]
theorem contains_of_ge (m : Mask) {cpu : Nat} (h : maskCapacity ≤ cpu) : m.contains cpu = false :=
  m.words.contains_of_ge h

/-- The enumeration lists exactly the CPUs that the mask contains. -/
@[simp]
theorem mem_toList (m : Mask) (cpu : CpuId) : cpu ∈ m.toList ↔ m.contains cpu.index = true := by
  constructor
  · intro h
    obtain ⟨index, hindex, rfl⟩ := List.mem_map.mp h
    exact (List.mem_filter.mp hindex).2
  · intro h
    have hlt : cpu.index < maskCapacity := by
      apply Nat.lt_of_not_le
      intro hge
      rw [contains_of_ge m hge] at h
      exact Bool.false_ne_true h
    exact List.mem_map.mpr ⟨cpu.index, List.mem_filter.mpr ⟨List.mem_range.mpr hlt, h⟩, rfl⟩

end Mask

end CpuAffinity
