import CpuAffinity.GroupWord
import CpuAffinity.Proofs.Members

/-!
# The set of CPUs that a group word holds

A group word is read as the set of its one bits. Encoding a list yields the word of the
list's indices, decoding a word yields its members in ascending order, and the tests that
hosts make on words are comparisons of sets.
-/

namespace CpuAffinity

namespace GroupWord

/-- The CPUs of the group whose bit is one. -/
def members (word : BitVec 64) : Finset ℕ :=
  (Finset.range capacity).filter fun cpu => word.getLsbD cpu = true

/-- A member is a one bit; there are none beyond the group. -/
@[simp]
theorem mem_members (word : BitVec 64) (cpu : ℕ) : cpu ∈ members word ↔ word.getLsbD cpu = true := by
  rw [members, Finset.mem_filter, Finset.mem_range]
  refine ⟨?_, ?_⟩
  · intro hmem
    exact hmem.2
  · intro hbit
    exact ⟨BitVec.lt_of_getLsbD hbit, hbit⟩

/-- No member reaches the capacity of the group. -/
theorem members_subset_range (word : BitVec 64) : members word ⊆ Finset.range capacity :=
  Finset.filter_subset _ _

/-- A word is determined by its members. -/
theorem members_injective : Function.Injective members := by
  intro a b h
  apply BitVec.eq_of_getLsbD_eq
  intro i _
  rw [Bool.eq_iff_iff, ← mem_members, ← mem_members, h]

/-- A word is known from its members. -/
@[simp]
theorem members_inj {a b : BitVec 64} : members a = members b ↔ a = b := members_injective.eq_iff

/-- The zero word has no member. -/
@[simp]
theorem members_zero : members 0#64 = ∅ := by
  apply Finset.eq_empty_of_forall_notMem
  simp

/-- A word without a member is zero. -/
@[simp]
theorem members_eq_empty (word : BitVec 64) : members word = ∅ ↔ word = 0#64 := by
  rw [← members_zero, members_inj]

/-- A word that is not zero has a member. -/
@[simp]
theorem members_nonempty (word : BitVec 64) : (members word).Nonempty ↔ word ≠ 0#64 := by
  rw [Finset.nonempty_iff_ne_empty, ne_eq, members_eq_empty]

/-- The members of a word's bits outside another are those that the other lacks. -/
@[simp]
theorem members_and_not (a b : BitVec 64) : members (a &&& ~~~b) = members a \ members b := by
  ext cpu
  rw [Finset.mem_sdiff, mem_members, mem_members, mem_members, BitVec.getLsbD_and,
    BitVec.getLsbD_not, Bool.and_eq_true, Bool.and_eq_true, Bool.not_eq_true', Bool.not_eq_true]
  refine ⟨fun hboth => ⟨hboth.1, hboth.2.2⟩, fun hboth => ⟨hboth.1, ?_, hboth.2⟩⟩
  exact decide_eq_true (BitVec.lt_of_getLsbD hboth.1)

/-- A word has no bit outside another exactly when its members are among the other's. -/
theorem members_subset (a b : BitVec 64) : members a ⊆ members b ↔ a &&& ~~~b = 0#64 := by
  rw [← members_eq_empty, members_and_not, Finset.sdiff_eq_empty_iff_subset]

/-- The bit of a CPU is one for that CPU only. -/
@[simp]
theorem members_bit (cpu : Fin capacity) : members (bit cpu) = {cpu.val} := by
  ext other
  have hlt : cpu.val < 64 := cpu.isLt
  rw [mem_members, bit, ← BitVec.twoPow_eq, BitVec.getLsbD_twoPow, Finset.mem_singleton]
  simp [hlt, eq_comm]

/-- The members of a union of words are those of either. -/
@[simp]
theorem members_or (a b : BitVec 64) : members (a ||| b) = members a ∪ members b := by
  ext cpu
  simp

/-- Encoding a list of the group's CPUs adds the list's indices. -/
theorem setAll_of_forall_lt (word : BitVec 64) {cpus : List CpuId}
    (h : ∀ cpu ∈ cpus, cpu.index < capacity) :
    ∃ encoded, setAll word cpus = .ok encoded ∧
      members encoded = members word ∪ CpuId.indices cpus := by
  induction cpus generalizing word with
  | nil => exact ⟨word, rfl, by simp⟩
  | cons cpu rest ih =>
    have hcpu : cpu.index < capacity := h cpu List.mem_cons_self
    obtain ⟨encoded, hencoded, hmembers⟩ := ih (word ||| bit ⟨cpu.index, hcpu⟩)
      fun other hother => h other (List.mem_cons_of_mem _ hother)
    refine ⟨encoded, ?_, ?_⟩
    · rw [setAll_cons_of_lt word hcpu, hencoded]
    · simp [hmembers]

/-- Encoding stops at the first CPU that the group cannot hold. -/
theorem setAll_of_beyond (word : BitVec 64) {cpus : List CpuId} {cpu : CpuId}
    (h : cpus.find? (CpuId.beyond capacity) = some cpu) :
    setAll word cpus = .error (.outOfRange cpu.index capacity) := by
  induction cpus generalizing word with
  | nil => cases h
  | cons first rest ih =>
    rw [List.find?_cons] at h
    cases hfirst : first.beyond capacity with
    | false =>
      rw [hfirst] at h
      rw [setAll_cons_of_lt word ((CpuId.beyond_eq_false _ _).mp hfirst)]
      exact ih _ h
    | true =>
      rw [hfirst] at h
      cases h
      exact setAll_cons_of_ge word ((CpuId.beyond_eq_true _ _).mp hfirst) rest

/-- A list of the group's CPUs is encoded as the word of exactly its indices. -/
theorem ofCpus_of_forall_lt {cpus : List CpuId} (h : ∀ cpu ∈ cpus, cpu.index < capacity) :
    ∃ word, ofCpus cpus = .ok word ∧ members word = CpuId.indices cpus := by
  obtain ⟨word, hword, hmembers⟩ := setAll_of_forall_lt 0#64 h
  exact ⟨word, hword, by simpa using hmembers⟩

/-- A word is decoded into the ascending list of its members. -/
theorem toCpus_eq_ascending (word : BitVec 64) : toCpus word = CpuId.ascending (members word) := by
  apply CpuId.eq_ascending
  · exact List.pairwise_map.mpr ((List.pairwise_lt_finRange capacity).filter _)
  · intro cpu
    rw [mem_members, toCpus, List.mem_map]
    refine ⟨?_, ?_⟩
    · rintro ⟨index, hindex, rfl⟩
      rw [← test_eq_getLsbD]
      exact (List.mem_filter.mp hindex).2
    · intro hbit
      have hlt : cpu.index < capacity := BitVec.lt_of_getLsbD hbit
      have htest : test word ⟨cpu.index, hlt⟩ = true := (test_eq_getLsbD _ _).trans hbit
      exact ⟨⟨cpu.index, hlt⟩, List.mem_filter.mpr ⟨List.mem_finRange _, htest⟩, rfl⟩

end GroupWord

end CpuAffinity
