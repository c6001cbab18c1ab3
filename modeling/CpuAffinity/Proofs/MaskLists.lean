import CpuAffinity.Proofs.MaskScans

/-!
# Masks and the lists of their CPUs

A mask can be built from a list of CPUs, and it enumerates its own. Building from the
enumeration gives back every word of the mask, whatever the words were. The enumeration of a
mask built from a list is the list put in order, each CPU once, so the mask determines the list
up to order and repetitions, and lists one after another are built into the union of their masks.
-/

namespace CpuAffinity

/-- Words with the members of either side are the two sides' words joined bit by bit. -/
theorem Words.word_eq_or {a b both : Words} (h : both.members = a.members ∪ b.members)
    (i : Fin 16) : both.word i = a.word i ||| b.word i := by
  apply BitVec.eq_of_getLsbD_eq
  intro j hj
  rw [BitVec.getLsbD_or, Bool.eq_iff_iff, Bool.or_eq_true, ← mem_members_word _ i hj,
    ← mem_members_word _ i hj, ← mem_members_word _ i hj, h, Finset.mem_union]

namespace Mask

variable {cpus first second : List CpuId}

/-- A list of indices below the capacity is built into the mask of exactly those. -/
theorem ofCpus_of_forall_lt (h : ∀ cpu ∈ cpus, cpu.index < maskCapacity) :
    ofCpus cpus = .ok (.ofWords (.ofMembers (CpuId.indices cpus))) := by
  rw [ofCpus, build_of_forall_lt h]

/-- A mask enumerates indices below the capacity. -/
theorem lt_of_mem_toList (m : Mask) : ∀ cpu ∈ m.toList, cpu.index < maskCapacity := by
  intro cpu hcpu
  exact Words.lt_of_mem_members (by simpa using hcpu)

/-- The enumeration of a mask has the members as its indices. -/
@[simp]
theorem indices_toList (m : Mask) : CpuId.indices m.toList = m.words.members := by
  simp [toList_eq_ascending]

/-- A mask is built again from its own enumeration. -/
@[simp]
theorem ofCpus_toList (m : Mask) : ofCpus m.toList = .ok m := by
  simp [ofCpus_of_forall_lt m.lt_of_mem_toList]

/-- A mask that was built from a list enumerates the list's CPUs in order, each once. -/
theorem toList_ofMembers_indices (h : ∀ cpu ∈ cpus, cpu.index < maskCapacity) :
    (ofWords (.ofMembers (CpuId.indices cpus))).toList = CpuId.ascending (CpuId.indices cpus) := by
  rw [toList_eq_ascending, Words.members_ofMembers_indices h]

/-- Lists are built into the same words exactly when they have the same CPUs. -/
theorem ofMembers_indices_inj (hfirst : ∀ cpu ∈ first, cpu.index < maskCapacity)
    (hsecond : ∀ cpu ∈ second, cpu.index < maskCapacity) :
    Words.ofMembers (CpuId.indices first) = .ofMembers (CpuId.indices second) ↔
      ∀ cpu, cpu ∈ first ↔ cpu ∈ second := by
  rw [← Words.members_inj, Words.members_ofMembers_indices hfirst,
    Words.members_ofMembers_indices hsecond, CpuId.indices_eq_iff]

/-- Lists one after another are built into the words of both joined bit by bit. -/
theorem word_ofMembers_append (hfirst : ∀ cpu ∈ first, cpu.index < maskCapacity)
    (hsecond : ∀ cpu ∈ second, cpu.index < maskCapacity) (i : Fin 16) :
    (Words.ofMembers (CpuId.indices (first ++ second))).word i =
      (Words.ofMembers (CpuId.indices first)).word i |||
        (Words.ofMembers (CpuId.indices second)).word i := by
  apply Words.word_eq_or
  rw [Words.members_ofMembers_indices hfirst, Words.members_ofMembers_indices hsecond,
    Words.members_ofMembers_indices (List.forall_mem_append.mpr ⟨hfirst, hsecond⟩),
    CpuId.indices_append]

/-- Building and enumerating undo each other. A mask is built again from its enumeration, word
for word. A list of indices below the capacity is built into a mask that enumerates the list's
CPUs in strictly ascending order. Of two such lists, the masks have the same words exactly when
the lists have the same CPUs, and the list of both together gives the words of both joined bit
by bit. -/
theorem building_inverts_enumeration :
    (∀ m : Mask, ofCpus m.toList = .ok m) ∧
      (∀ cpus : List CpuId, (∀ cpu ∈ cpus, cpu.index < maskCapacity) →
        ∃ m, ofCpus cpus = .ok m ∧ m.toList.Pairwise (· < ·) ∧ ∀ cpu, cpu ∈ m.toList ↔ cpu ∈ cpus) ∧
      ∀ first second : List CpuId, (∀ cpu ∈ first, cpu.index < maskCapacity) →
        (∀ cpu ∈ second, cpu.index < maskCapacity) →
        ∃ a b both, ofCpus first = .ok a ∧ ofCpus second = .ok b ∧
          ofCpus (first ++ second) = .ok both ∧
          (a.words = b.words ↔ ∀ cpu, cpu ∈ first ↔ cpu ∈ second) ∧
          ∀ i, both.words.word i = a.words.word i ||| b.words.word i := by
  refine ⟨ofCpus_toList, fun cpus h => ?_, fun first second hfirst hsecond => ?_⟩
  · refine ⟨_, ofCpus_of_forall_lt h, ?_, fun cpu => ?_⟩
    · rw [toList_ofMembers_indices h]
      exact CpuId.ascending_pairwise _
    · simp [toList_ofMembers_indices h]
  · exact ⟨_, _, _, ofCpus_of_forall_lt hfirst, ofCpus_of_forall_lt hsecond,
      ofCpus_of_forall_lt (List.forall_mem_append.mpr ⟨hfirst, hsecond⟩),
      ofMembers_indices_inj hfirst hsecond, word_ofMembers_append hfirst hsecond⟩

/-- CPUs on both sides of a word's end, one of them twice, are enumerated once and in order, and
joining them with another CPU of the same word joins the words. -/
theorem building_inverts_enumeration_across_words :
    (∀ cpu ∈ [CpuId.mk 64, ⟨63⟩, ⟨64⟩], cpu.index < maskCapacity) ∧
      (∀ cpu ∈ [CpuId.mk 1023, ⟨65⟩], cpu.index < maskCapacity) ∧
      (∃ m, ofCpus [⟨64⟩, ⟨63⟩, ⟨64⟩] = .ok m ∧ m.toList = [⟨63⟩, ⟨64⟩]) ∧
      ∃ a b both, ofCpus [⟨64⟩, ⟨63⟩, ⟨64⟩] = .ok a ∧ ofCpus [⟨1023⟩, ⟨65⟩] = .ok b ∧
        ofCpus [⟨64⟩, ⟨63⟩, ⟨64⟩, ⟨1023⟩, ⟨65⟩] = .ok both ∧ a.words ≠ b.words ∧
        both.words.word 1 = a.words.word 1 ||| b.words.word 1 := by
  obtain ⟨-, hlist, hjoin⟩ := building_inverts_enumeration
  have hfirst : ∀ cpu ∈ [CpuId.mk 64, ⟨63⟩, ⟨64⟩], cpu.index < maskCapacity := by decide
  have hsecond : ∀ cpu ∈ [CpuId.mk 1023, ⟨65⟩], cpu.index < maskCapacity := by decide
  obtain ⟨m, hm, hsorted, hmem⟩ := hlist _ hfirst
  obtain ⟨a, b, both, ha, hb, hboth, hsame, hwords⟩ := hjoin _ _ hfirst hsecond
  refine ⟨hfirst, hsecond, ⟨m, hm, ?_⟩, a, b, both, ha, hb, hboth, fun heq => ?_, hwords 1⟩
  · have hindices : CpuId.indices [⟨64⟩, ⟨63⟩, ⟨64⟩] = CpuId.indices [⟨63⟩, ⟨64⟩] := by decide
    have hordered : [CpuId.mk 63, ⟨64⟩] = CpuId.ascending (CpuId.indices [⟨63⟩, ⟨64⟩]) :=
      CpuId.eq_ascending (by decide) fun cpu => (CpuId.mem_indices _ cpu).symm
    rw [hordered, ← hindices]
    exact CpuId.eq_ascending hsorted fun cpu => (hmem cpu).trans (CpuId.mem_indices _ cpu).symm
  · have hcpu := (hsame.mp heq ⟨63⟩).mp (by decide)
    revert hcpu
    decide

end Mask

end CpuAffinity
