import CpuAffinity.Mask.Basic
import Mathlib.Data.Finset.Sort

/-!
# The set of CPUs that words hold

Words are read as a finite set of indices below the capacity: index `c` is a member when
bit `c % 64` of word `c / 64` is one. The CPUs cover every bit, so the set determines the
words. Each operation on words is an operation on the set, and each scan of a mask over
all indices reads off the set.
-/

namespace CpuAffinity

namespace CpuId

/-- The indices of a list's CPUs. -/
def indices (cpus : List CpuId) : Finset ℕ := (cpus.map index).toFinset

/-- The CPUs of a set of indices, in ascending order. -/
def ascending (s : Finset ℕ) : List CpuId := s.sort.map mk

/-- Whether a CPU's index is beyond a capacity. -/
def beyond (capacity : ℕ) (cpu : CpuId) : Bool := decide (capacity ≤ cpu.index)

/-- A CPU's index is among those of a list exactly when the list has the CPU. -/
@[simp]
theorem mem_indices (cpus : List CpuId) (cpu : CpuId) : cpu.index ∈ indices cpus ↔ cpu ∈ cpus := by
  simp only [indices, List.mem_toFinset, List.mem_map]
  refine ⟨?_, ?_⟩
  · rintro ⟨⟨index⟩, hmem, rfl⟩
    exact hmem
  · intro hmem
    exact ⟨cpu, hmem, rfl⟩

/-- An index is beyond the capacity when it is not below it. -/
@[simp]
theorem beyond_eq_true (capacity : ℕ) (cpu : CpuId) :
    cpu.beyond capacity = true ↔ capacity ≤ cpu.index :=
  decide_eq_true_iff

/-- An index that is not beyond the capacity is below it. -/
@[simp]
theorem beyond_eq_false (capacity : ℕ) (cpu : CpuId) :
    cpu.beyond capacity = false ↔ cpu.index < capacity := by
  rw [beyond, decide_eq_false_iff_not, Nat.not_le]

/-- No CPU of a list is beyond the capacity when none is found. -/
theorem find?_beyond_eq_none (capacity : ℕ) (cpus : List CpuId) :
    cpus.find? (beyond capacity) = none ↔ ∀ cpu ∈ cpus, cpu.index < capacity := by
  simp only [List.find?_eq_none, Bool.not_eq_true, beyond_eq_false]

/-- A list with a CPU beyond the capacity has a first one. -/
theorem find?_beyond_of_mem {capacity : ℕ} {cpus : List CpuId} {cpu : CpuId} (hcpu : cpu ∈ cpus)
    (hbeyond : capacity ≤ cpu.index) : ∃ first, cpus.find? (beyond capacity) = some first := by
  apply Option.isSome_iff_exists.mp
  rw [List.find?_isSome]
  exact ⟨cpu, hcpu, decide_eq_true hbeyond⟩

/-- Up to its first CPU beyond the capacity, a list has CPUs below the capacity only. -/
theorem exists_first_beyond {capacity : ℕ} {cpus : List CpuId}
    (h : ∃ cpu ∈ cpus, capacity ≤ cpu.index) :
    ∃ before cpu after, cpus = before ++ cpu :: after ∧
      (∀ other ∈ before, other.index < capacity) ∧ capacity ≤ cpu.index ∧
      cpus.find? (beyond capacity) = some cpu := by
  obtain ⟨cpu, hcpu, hbeyond⟩ := h
  obtain ⟨first, hfirst⟩ := find?_beyond_of_mem hcpu hbeyond
  obtain ⟨hfound, before, after, hsplit, hbefore⟩ := List.find?_eq_some_iff_append.mp hfirst
  exact ⟨before, first, after, hsplit, by simpa using hbefore, by simpa using hfound, hfirst⟩

/-- An empty list has no index. -/
@[simp]
theorem indices_nil : indices [] = ∅ := rfl

/-- A list of one CPU has one index. -/
@[simp]
theorem indices_singleton (cpu : CpuId) : indices [cpu] = {cpu.index} := rfl

/-- A list with one CPU more has one index more. -/
@[simp]
theorem indices_cons (cpu : CpuId) (rest : List CpuId) :
    indices (cpu :: rest) = insert cpu.index (indices rest) := by
  simp only [indices, List.map_cons, List.toFinset_cons]

/-- Two lists after another have the indices of both. -/
@[simp]
theorem indices_append (first second : List CpuId) :
    indices (first ++ second) = indices first ∪ indices second := by
  simp only [indices, List.map_append, List.toFinset_append]

/-- Lists with the same CPUs, in any order and with any repetitions, have the same indices. -/
theorem indices_eq_iff (cpus cpus' : List CpuId) :
    indices cpus = indices cpus' ↔ ∀ cpu, cpu ∈ cpus ↔ cpu ∈ cpus' := by
  simp only [← mem_indices]
  refine ⟨?_, ?_⟩
  · intro h cpu
    rw [h]
  · intro h
    ext index
    exact h ⟨index⟩

/-- The indices of a list are below a capacity exactly when those of its CPUs are. -/
theorem indices_subset_range {capacity : ℕ} {cpus : List CpuId} :
    indices cpus ⊆ Finset.range capacity ↔ ∀ cpu ∈ cpus, cpu.index < capacity := by
  refine ⟨?_, ?_⟩
  · intro h cpu hcpu
    exact Finset.mem_range.mp (h ((mem_indices cpus cpu).mpr hcpu))
  · intro h index hindex
    exact Finset.mem_range.mpr (h ⟨index⟩ ((mem_indices cpus ⟨index⟩).mp hindex))

/-- The ascending list names exactly the indices of the set. -/
@[simp]
theorem mem_ascending (s : Finset ℕ) (cpu : CpuId) : cpu ∈ ascending s ↔ cpu.index ∈ s := by
  simp only [ascending, List.mem_map, Finset.mem_sort]
  refine ⟨?_, ?_⟩
  · rintro ⟨index, hmem, rfl⟩
    exact hmem
  · intro hmem
    exact ⟨cpu.index, hmem, rfl⟩

/-- The ascending list of a set has exactly the indices of the set. -/
@[simp]
theorem indices_ascending (s : Finset ℕ) : indices (ascending s) = s := by
  ext index
  exact (mem_indices (ascending s) ⟨index⟩).trans (mem_ascending s ⟨index⟩)

/-- The empty set has no CPU to list. -/
@[simp]
theorem ascending_empty : ascending ∅ = [] := by
  rw [ascending, Finset.sort_empty, List.map_nil]

/-- The ascending list has no CPU twice and none out of order. -/
theorem ascending_pairwise (s : Finset ℕ) : (ascending s).Pairwise (· < ·) :=
  List.pairwise_map.mpr (Finset.sortedLT_sort s).pairwise

/-- The ascending list has one entry for each index. -/
@[simp]
theorem ascending_length (s : Finset ℕ) : (ascending s).length = s.card := by
  rw [ascending, List.length_map, Finset.length_sort]

/-- A strictly ascending list is determined by its members. -/
theorem eq_ascending {cpus : List CpuId} {s : Finset ℕ} (hsorted : cpus.Pairwise (· < ·))
    (hmem : ∀ cpu, cpu ∈ cpus ↔ cpu.index ∈ s) : cpus = ascending s := by
  have hindices : s = (cpus.map index).toFinset := by
    ext index
    rw [List.mem_toFinset, List.mem_map]
    refine ⟨?_, ?_⟩
    · intro hindex
      exact ⟨⟨index⟩, (hmem ⟨index⟩).mpr hindex, rfl⟩
    · rintro ⟨cpu, hcpu, rfl⟩
      exact (hmem cpu).mp hcpu
  have hlt : (cpus.map index).Pairwise (· < ·) := List.pairwise_map.mpr hsorted
  have hsort : (cpus.map index).toFinset.sort = cpus.map index :=
    (List.toFinset_sort (· ≤ ·) (hlt.imp Nat.ne_of_lt)).mpr (hlt.imp Nat.le_of_lt)
  rw [ascending, hindices, hsort, List.map_map]
  exact (List.map_id cpus).symm

end CpuId

namespace Words

/-- The CPUs whose bit is one: CPU `c` is bit `c % 64` of word `c / 64`. -/
def members (w : Words) : Finset ℕ :=
  (Finset.range maskCapacity).filter fun cpu =>
    ∃ h : cpu < maskCapacity, (w.word ⟨cpu / 64, Nat.div_lt_of_lt_mul h⟩).getLsbD (cpu % 64) = true

/-- The words in which the bits of a set's indices are one and all others are zero. -/
def ofMembers (s : Finset ℕ) : Words :=
  ⟨Vector.ofFn fun i =>
    (BitVec.ofBoolListLE (List.ofFn fun j : Fin 64 => decide (i.val * 64 + j.val ∈ s))).setWidth 64⟩

/-- A member is an index that the words contain. -/
theorem mem_members (w : Words) (cpu : ℕ) : cpu ∈ w.members ↔ w.contains cpu = true := by
  rw [members, Finset.mem_filter, Finset.mem_range]
  by_cases h : cpu < maskCapacity
  · rw [contains_of_lt w h, test_eq_getLsbD]
    exact ⟨fun hmem => hmem.2.2, fun hbit => ⟨h, h, hbit⟩⟩
  · rw [contains_of_ge w (Nat.le_of_not_lt h)]
    exact ⟨fun hmem => absurd hmem.1 h, fun hfalse => absurd hfalse Bool.false_ne_true⟩

/-- A CPU below the capacity is a member when its bit tests as set. -/
theorem mem_members_fin (w : Words) (cpu : Fin maskCapacity) :
    cpu.val ∈ w.members ↔ w.test cpu = true := by
  rw [mem_members, contains_of_lt w cpu.isLt]

/-- The members are the one bits of the words, each at its place. -/
theorem mem_members_word (w : Words) (i : Fin 16) {j : ℕ} (hj : j < 64) :
    i.val * 64 + j ∈ w.members ↔ (w.word i).getLsbD j = true := by
  have hlt : i.val * 64 + j < maskCapacity := by unfold maskCapacity; omega
  have hword : wordIndex ⟨i.val * 64 + j, hlt⟩ = i := Fin.ext (by simp only [wordIndex]; omega)
  have hbit : (bitIndex ⟨i.val * 64 + j, hlt⟩).val = j := by simp only [bitIndex]; omega
  have htest := test_eq_getLsbD w ⟨i.val * 64 + j, hlt⟩
  rw [hword, hbit] at htest
  rw [← htest]
  exact mem_members_fin w ⟨i.val * 64 + j, hlt⟩

/-- No member reaches the capacity. -/
theorem members_subset (w : Words) : w.members ⊆ Finset.range maskCapacity :=
  Finset.filter_subset _ _

/-- A member is below the capacity. -/
theorem lt_of_mem_members {w : Words} {cpu : ℕ} (h : cpu ∈ w.members) : cpu < maskCapacity :=
  Finset.mem_range.mp (w.members_subset h)

/-- Words with the same members are the same words. -/
theorem members_injective : Function.Injective members := by
  intro a b h
  apply ext_test
  intro cpu
  rw [Bool.eq_iff_iff, ← mem_members_fin, ← mem_members_fin, h]

/-- Words are known from their members. -/
@[simp]
theorem members_inj {a b : Words} : a.members = b.members ↔ a = b := members_injective.eq_iff

/-- A bit of a set's words tells whether its CPU is in the set. -/
@[simp]
theorem test_ofMembers (s : Finset ℕ) (cpu : Fin maskCapacity) :
    (ofMembers s).test cpu = decide (cpu.val ∈ s) := by
  have hbit : cpu.val % 64 < 64 := Nat.mod_lt _ (by decide)
  have hsplit : cpu.val / 64 * 64 + cpu.val % 64 = cpu.val := by omega
  rw [test_eq_getLsbD, word, ofMembers, Fin.getElem_fin, Vector.getElem_ofFn,
    BitVec.getLsbD_setWidth, BitVec.getLsbD_ofBoolListLE, List.getD_eq_getElem?_getD,
    List.getElem?_ofFn]
  simp only [wordIndex, bitIndex, hbit, hsplit, decide_true, Bool.true_and, ↓reduceDIte,
    Option.getD_some]

/-- The members are known from the tests of the CPUs below the capacity. -/
theorem members_eq {w : Words} {s : Finset ℕ} (hs : s ⊆ Finset.range maskCapacity)
    (h : ∀ cpu : Fin maskCapacity, w.test cpu = true ↔ cpu.val ∈ s) : w.members = s := by
  ext cpu
  by_cases hlt : cpu < maskCapacity
  · exact (mem_members_fin w ⟨cpu, hlt⟩).trans (h ⟨cpu, hlt⟩)
  · refine ⟨?_, ?_⟩
    · intro hmem
      exact absurd (lt_of_mem_members hmem) hlt
    · intro hmem
      exact absurd (Finset.mem_range.mp (hs hmem)) hlt

/-- A set of indices below the capacity is the set of its words' members. -/
theorem members_ofMembers {s : Finset ℕ} (h : s ⊆ Finset.range maskCapacity) :
    (ofMembers s).members = s := by
  apply members_eq h
  simp

/-- The indices of a list below the capacity are the members of their words. -/
theorem members_ofMembers_indices {cpus : List CpuId}
    (h : ∀ cpu ∈ cpus, cpu.index < maskCapacity) :
    (ofMembers (CpuId.indices cpus)).members = CpuId.indices cpus :=
  members_ofMembers (CpuId.indices_subset_range.mpr h)

/-- Words are recovered from their members. -/
@[simp]
theorem ofMembers_members (w : Words) : ofMembers w.members = w :=
  members_injective (members_ofMembers w.members_subset)

/-- The zero words have no member. -/
@[simp]
theorem members_zero : zero.members = ∅ := by
  apply members_eq (Finset.empty_subset _)
  simp

/-- Words without a member are the zero words. -/
@[simp]
theorem members_eq_empty (w : Words) : w.members = ∅ ↔ w = zero := by
  rw [← members_zero, members_inj]

/-- Selecting a CPU inserts it among the members. -/
@[simp]
theorem members_select (w : Words) (cpu : Fin maskCapacity) :
    (w.select cpu).members = insert cpu.val w.members := by
  apply members_eq
  · exact Finset.insert_subset (Finset.mem_range.mpr cpu.isLt) w.members_subset
  · simp [mem_members_fin, Fin.ext_iff]

/-- The members of an intersection are the common members. -/
@[simp]
theorem members_inter (a b : Words) : (a.inter b).members = a.members ∩ b.members := by
  apply members_eq
  · exact Finset.inter_subset_left.trans a.members_subset
  · simp [mem_members_fin]

/-- Words have no bit in common when their members are disjoint. -/
theorem inter_eq_zero {a b : Words} : a.inter b = zero ↔ Disjoint a.members b.members := by
  rw [← members_eq_empty, members_inter, Finset.disjoint_iff_inter_eq_empty]

end Words

end CpuAffinity
