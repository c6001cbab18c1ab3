import CpuAffinity.CpuId
import CpuAffinity.Error

/-!
# The word of a processor group

A processor group has at most 64 CPUs, and a set of them is one 64-bit word: CPU `c` is
bit `c`. A list of CPUs is encoded by setting its bits, refusing the first index beyond
the group; a word is decoded by scanning its bits in ascending order.
-/

namespace CpuAffinity

namespace GroupWord

/-- A processor group holds this many CPUs. -/
def capacity : Nat := 64

/-- The word with the bit of one CPU of the group. -/
def bit (cpu : Fin capacity) : BitVec 64 := 1#64 <<< cpu.val

/-- Test the bit of one CPU of the group. -/
def test (word : BitVec 64) (cpu : Fin capacity) : Bool := word >>> cpu.val &&& 1#64 == 1#64

/-- Set the bits of a list's CPUs, refusing the first that the group cannot hold. -/
def setAll (word : BitVec 64) : List CpuId → Except AffinityError (BitVec 64)
  | [] => .ok word
  | cpu :: rest =>
    if h : cpu.index < capacity then setAll (word ||| bit ⟨cpu.index, h⟩) rest
    else .error (.outOfRange cpu.index capacity)

/-- The word of a list's CPUs, in any order and with any repetitions. -/
def ofCpus (cpus : List CpuId) : Except AffinityError (BitVec 64) := setAll 0#64 cpus

/-- The CPUs of a word in ascending order. -/
def toCpus (word : BitVec 64) : List CpuId :=
  ((List.finRange capacity).filter (test word)).map fun cpu => ⟨cpu.val⟩

/-- A test reads the CPU's bit. -/
theorem test_eq_getLsbD (word : BitVec 64) (cpu : Fin capacity) :
    test word cpu = word.getLsbD cpu.val := by
  have hone : word >>> cpu.val &&& 1#64 = if word.getLsbD cpu.val then 1#64 else 0#64 := by
    rw [BitVec.and_one_eq_setWidth_ofBool_getLsbD, BitVec.getLsbD_ushiftRight, Nat.add_zero]
    cases word.getLsbD cpu.val <;> rfl
  unfold test
  rw [hone]
  cases word.getLsbD cpu.val <;> rfl

/-- A CPU of the group is encoded by its bit. -/
@[simp]
theorem setAll_cons_of_lt (word : BitVec 64) {cpu : CpuId} (h : cpu.index < capacity)
    (rest : List CpuId) :
    setAll word (cpu :: rest) = setAll (word ||| bit ⟨cpu.index, h⟩) rest := by
  rw [setAll, dif_pos h]

/-- Encoding ends at a CPU beyond the group. -/
@[simp]
theorem setAll_cons_of_ge (word : BitVec 64) {cpu : CpuId} (h : capacity ≤ cpu.index)
    (rest : List CpuId) : setAll word (cpu :: rest) = .error (.outOfRange cpu.index capacity) := by
  rw [setAll, dif_neg (Nat.not_lt.mpr h)]

end GroupWord

end CpuAffinity
