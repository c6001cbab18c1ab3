import CpuAffinity.Selection.Basic

/-!
# The words of a mask

The memory that masks and host calls share: 16 words of 64 bits, where CPU `c` is bit
`c % 64` of word `c / 64`. The two bit operations take an index below the capacity, so
the word they touch exists and the shift stays inside it; `contains` is the look-up for
any index. Words are equal when every bit is.
-/

namespace CpuAffinity

/-- Sixteen words of 64 bits. -/
structure Words where
  data : Vector (BitVec 64) 16
  deriving DecidableEq

namespace Words

/-- The size that host calls are told, in bytes. -/
def byteSize : Nat := 128

/-- The word that holds a CPU. -/
def wordIndex (cpu : Fin maskCapacity) : Fin 16 :=
  ⟨cpu.val / 64, Nat.div_lt_of_lt_mul cpu.isLt⟩

/-- The bit that holds a CPU within its word. -/
def bitIndex (cpu : Fin maskCapacity) : Fin 64 := ⟨cpu.val % 64, Nat.mod_lt _ (by decide)⟩

/-- One of the words. -/
def word (w : Words) (i : Fin 16) : BitVec 64 := w.data[i]

/-- Replace one of the words. -/
def setWord (w : Words) (i : Fin 16) (value : BitVec 64) : Words := ⟨w.data.set i value⟩

/-- No bit is set. -/
def zero : Words := ⟨Vector.replicate 16 0⟩

/-- The given words, and zero elsewhere. -/
def ofEntries (entries : List (Fin 16 × BitVec 64)) : Words :=
  entries.foldl (fun w entry => w.setWord entry.1 entry.2) zero

/-- The words that are not zero, in ascending order of position. -/
def entries (w : Words) : List (Fin 16 × BitVec 64) :=
  ((List.finRange 16).map fun i => (i, w.word i)).filter fun entry => entry.2 != 0

/-- Clear every bit. -/
def clear (_ : Words) : Words := zero

/-- Set the bit of one CPU. -/
def select (w : Words) (cpu : Fin maskCapacity) : Words :=
  w.setWord (wordIndex cpu) (w.word (wordIndex cpu) ||| 1#64 <<< (bitIndex cpu).val)

/-- Test the bit of one CPU. -/
def test (w : Words) (cpu : Fin maskCapacity) : Bool :=
  w.word (wordIndex cpu) &&& 1#64 <<< (bitIndex cpu).val != 0

/-- Look any index up; an index that no mask holds is not contained. -/
def contains (w : Words) (cpu : Nat) : Bool :=
  if h : cpu < maskCapacity then w.test ⟨cpu, h⟩ else false

/-- The words with exactly the bits that both have. -/
def inter (a b : Words) : Words := ⟨a.data.zipWith (· &&& ·) b.data⟩

instance : CpuSelection Words where
  clear := clear
  select := select
  lookUp w cpu := (w.contains cpu, w)

/-- A test reads the CPU's bit. -/
theorem test_eq_getLsbD (w : Words) (cpu : Fin maskCapacity) :
    w.test cpu = (w.word (wordIndex cpu)).getLsbD (bitIndex cpu).val := by
  unfold test
  generalize w.word (wordIndex cpu) = x
  generalize bitIndex cpu = i
  rw [← BitVec.twoPow_eq, BitVec.and_twoPow]
  have hne : BitVec.twoPow 64 i.val ≠ 0#64 := by
    intro h
    have := congrArg (·.getLsbD i.val) h
    simp at this
  cases h : x.getLsbD i.val <;> simp [hne]

/-- A replaced word is the new one. -/
@[simp]
theorem word_setWord_self (w : Words) (i : Fin 16) (value : BitVec 64) :
    (w.setWord i value).word i = value := by
  simp [word, setWord]

/-- Replacing a word changes that word only. -/
@[simp]
theorem word_setWord_of_ne (w : Words) {i j : Fin 16} (h : j ≠ i) (value : BitVec 64) :
    (w.setWord i value).word j = w.word j := by
  simp [word, setWord, Ne.symm h, Fin.val_inj]

/-- Each of the zero words is zero. -/
@[simp]
theorem word_zero (i : Fin 16) : zero.word i = 0#64 := by
  simp [word, zero]

/-- The words of an intersection are intersected one by one. -/
@[simp]
theorem word_inter (a b : Words) (i : Fin 16) : (a.inter b).word i = a.word i &&& b.word i := by
  simp [word, inter]

/-- Two CPUs with the same word and bit are the same CPU. -/
theorem eq_of_indices {a b : Fin maskCapacity} (hword : wordIndex a = wordIndex b)
    (hbit : bitIndex a = bitIndex b) : a = b := by
  have hw : a.val / 64 = b.val / 64 := congrArg Fin.val hword
  have hb : a.val % 64 = b.val % 64 := congrArg Fin.val hbit
  apply Fin.ext
  omega

/-- Selecting a CPU sets its bit and touches no other. -/
@[simp]
theorem test_select (w : Words) (cpu other : Fin maskCapacity) :
    (w.select cpu).test other = (decide (other = cpu) || w.test other) := by
  rw [test_eq_getLsbD, test_eq_getLsbD, select]
  by_cases hword : wordIndex other = wordIndex cpu
  · rw [hword, word_setWord_self]
    by_cases heq : other = cpu
    · subst heq
      simp
    · have hbit : bitIndex other ≠ bitIndex cpu := fun h => heq (eq_of_indices hword h)
      have hval : ¬ (bitIndex other).val = (bitIndex cpu).val := fun h => hbit (Fin.ext h)
      have hone : (1#64 <<< (bitIndex cpu).val).getLsbD (bitIndex other).val = false := by
        rw [← BitVec.twoPow_eq, BitVec.getLsbD_twoPow]
        simp [Ne.symm hval]
      rw [BitVec.getLsbD_or, hone, decide_eq_false heq, Bool.or_false, Bool.false_or]
  · rw [word_setWord_of_ne w hword, decide_eq_false fun h => hword (by rw [h]), Bool.false_or]

/-- No CPU is set in the zero words. -/
@[simp]
theorem test_zero (cpu : Fin maskCapacity) : zero.test cpu = false := by
  simp [test_eq_getLsbD]

/-- A bit of an intersection is a bit of both sides. -/
@[simp]
theorem test_inter (a b : Words) (cpu : Fin maskCapacity) :
    (a.inter b).test cpu = (a.test cpu && b.test cpu) := by
  simp [test_eq_getLsbD]

/-- Below the capacity, a look-up tests the CPU's bit. -/
@[simp]
theorem contains_of_lt (w : Words) {cpu : Nat} (h : cpu < maskCapacity) :
    w.contains cpu = w.test ⟨cpu, h⟩ :=
  dif_pos h

/-- An index beyond the capacity is not contained. -/
@[simp]
theorem contains_of_ge (w : Words) {cpu : Nat} (h : maskCapacity ≤ cpu) : w.contains cpu = false :=
  dif_neg (Nat.not_lt.mpr h)

/-- Words that agree on every CPU are equal: the CPUs cover all bits. -/
@[ext]
theorem ext_test {a b : Words} (h : ∀ cpu, a.test cpu = b.test cpu) : a = b := by
  obtain ⟨a⟩ := a
  obtain ⟨b⟩ := b
  congr 1
  apply Vector.ext
  intro i hi
  apply BitVec.eq_of_getLsbD_eq
  intro j hj
  have hlt : i * 64 + j < maskCapacity := by unfold maskCapacity; omega
  have hcpu := h ⟨i * 64 + j, hlt⟩
  rw [test_eq_getLsbD, test_eq_getLsbD] at hcpu
  have hword : (i * 64 + j) / 64 = i := by omega
  have hbit : (i * 64 + j) % 64 = j := by omega
  simpa only [word, wordIndex, bitIndex, hword, hbit, Fin.getElem_fin] using hcpu

/-- Words are the same when each of them is. -/
theorem eq_iff_word {a b : Words} : a = b ↔ ∀ i, a.word i = b.word i := by
  refine ⟨?_, fun h => ?_⟩
  · rintro rfl i
    rfl
  · ext cpu
    rw [test_eq_getLsbD, test_eq_getLsbD, h]

end Words

end CpuAffinity
