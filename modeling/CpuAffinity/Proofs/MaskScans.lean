import CpuAffinity.Proofs.Members

/-!
# What masks answer, in terms of their members

A mask answers by scanning every index below the capacity. Each scan is read off the set
of members: the count is its size, the enumeration is its ascending list, and equality is
equality of sets. Building a mask from a list yields the set of the list's indices, or
the refusal of the first index that no mask holds.
-/

namespace CpuAffinity

namespace CpuSelection

variable {σ : Type} [CpuSelection σ]

/-- A selection that look-ups leave alone is tallied by counting the CPUs it has. -/
theorem tally_eq_countP {s : σ} {selected : ℕ → Bool} (h : ∀ cpu, lookUp s cpu = (selected cpu, s))
    (cpus : List ℕ) : tally s cpus = (cpus.countP selected, s) := by
  induction cpus with
  | nil => rfl
  | cons cpu rest ih =>
    simp only [tally, h, ih, List.countP_cons]
    cases selected cpu <;> simp [Nat.add_comm]

end CpuSelection

namespace Mask

/-- The CPUs of a mask are the members of its words. -/
@[simp]
theorem contains_iff (m : Mask) (cpu : ℕ) : m.contains cpu = true ↔ cpu ∈ m.words.members :=
  (m.words.mem_members cpu).symm

/-- A look-up tells whether the index is a member. -/
theorem contains_eq_decide (m : Mask) (cpu : ℕ) :
    m.contains cpu = decide (cpu ∈ m.words.members) := by
  rw [Bool.eq_iff_iff, contains_iff, decide_eq_true_eq]

/-- The enumeration is the ascending list of the members. -/
theorem toList_eq_ascending (m : Mask) : m.toList = CpuId.ascending m.words.members := by
  apply CpuId.eq_ascending
  · exact List.pairwise_map.mpr (List.pairwise_lt_range.filter _)
  · simp

/-- Counting the containing indices gives the number of members. -/
theorem countP_contains (m : Mask) :
    (List.range maskCapacity).countP m.contains = m.words.members.card := by
  have hlength : m.toList.length = (List.range maskCapacity).countP m.contains := by
    rw [toList, List.length_map, List.countP_eq_length_filter]
  rw [← hlength, toList_eq_ascending, CpuId.ascending_length]

/-- The count is the number of members. -/
theorem count_eq_card (m : Mask) : m.count = m.words.members.card := by
  have hlookUp (cpu : ℕ) : CpuSelection.lookUp m.words cpu = (m.contains cpu, m.words) := rfl
  rw [count, CpuSelection.count, CpuSelection.tally_eq_countP hlookUp, countP_contains]

/-- The count that every selection derives gives the same number. -/
theorem selection_count_eq_card (m : Mask) : (CpuSelection.count m).1 = m.words.members.card := by
  have hlookUp (cpu : ℕ) : CpuSelection.lookUp m cpu = (m.contains cpu, m) := rfl
  rw [CpuSelection.count, CpuSelection.tally_eq_countP hlookUp, countP_contains]

/-- A mask is empty when it has no member. -/
theorem isEmpty_eq_decide (m : Mask) : m.isEmpty = decide (m.words.members = ∅) := by
  rw [Bool.eq_iff_iff, decide_eq_true_eq, isEmpty, Bool.not_eq_true', List.any_eq_false,
    Finset.eq_empty_iff_forall_notMem]
  refine ⟨?_, ?_⟩
  · intro h cpu hmem
    have hlt := Words.lt_of_mem_members hmem
    exact h cpu (List.mem_range.mpr hlt) ((m.contains_iff cpu).mpr hmem)
  · intro h cpu _ hcontains
    exact h cpu ((m.contains_iff cpu).mp hcontains)

/-- Masks are equal when they have the same members. -/
theorem beq_eq_decide (a b : Mask) : (a == b) = decide (a.words.members = b.words.members) := by
  rw [Bool.eq_iff_iff, decide_eq_true_eq]
  change (List.range maskCapacity).all (fun cpu => a.contains cpu == b.contains cpu) = true ↔ _
  rw [List.all_eq_true]
  refine ⟨?_, ?_⟩
  · intro h
    ext cpu
    by_cases hlt : cpu < maskCapacity
    · have hcpu := eq_of_beq (h cpu (List.mem_range.mpr hlt))
      rw [← contains_iff, ← contains_iff, hcpu]
    · refine ⟨?_, ?_⟩
      · intro hmem
        exact absurd (Words.lt_of_mem_members hmem) hlt
      · intro hmem
        exact absurd (Words.lt_of_mem_members hmem) hlt
  · intro h cpu _
    rw [contains_eq_decide, contains_eq_decide, h]
    exact beq_self_eq_true _

/-- Masks differ when their members do. -/
theorem bne_eq_decide (a b : Mask) : (a != b) = decide (a.words.members ≠ b.words.members) := by
  rw [bne, beq_eq_decide, ← decide_not]

/-- Building on a mask adds the list's indices, if no CPU is refused. -/
theorem buildOn_of_forall_lt (m : Mask) (taken : ℕ) {cpus : List CpuId}
    (h : ∀ cpu ∈ cpus, cpu.index < maskCapacity) :
    ∃ built, m.buildOn taken cpus = ⟨.ok built, taken + cpus.length⟩ ∧
      built.words.members = m.words.members ∪ CpuId.indices cpus := by
  induction cpus generalizing m taken with
  | nil => exact ⟨m, rfl, by simp⟩
  | cons cpu rest ih =>
    have hcpu : cpu.index < maskCapacity := h cpu List.mem_cons_self
    obtain ⟨built, hbuilt, hmembers⟩ := ih (m.select ⟨cpu.index, hcpu⟩) (taken + 1)
      fun other hother => h other (List.mem_cons_of_mem _ hother)
    refine ⟨built, ?_, ?_⟩
    · rw [buildOn_cons_of_lt m taken hcpu]
      simp only [hbuilt, List.length_cons, Nat.add_assoc, Nat.add_comm 1]
    · simp [hmembers, select]

/-- Building stops at the first refused CPU, which has been taken. -/
theorem buildOn_of_refused (m : Mask) (taken : ℕ) {cpus : List CpuId} {cpu : CpuId}
    (h : cpus.find? (CpuId.beyond maskCapacity) = some cpu) :
    m.buildOn taken cpus = ⟨.error (.outOfRange cpu.index maskCapacity),
      taken + cpus.findIdx (CpuId.beyond maskCapacity) + 1⟩ := by
  induction cpus generalizing m taken with
  | nil => cases h
  | cons first rest ih =>
    rw [List.find?_cons] at h
    rw [List.findIdx_cons]
    cases hfirst : first.beyond maskCapacity with
    | false =>
      rw [hfirst] at h
      rw [buildOn_cons_of_lt m taken ((CpuId.beyond_eq_false _ _).mp hfirst)]
      simp only [ih _ _ h, cond_false, Nat.add_assoc, Nat.add_comm 1]
    | true =>
      rw [hfirst] at h
      cases h
      exact buildOn_cons_of_ge m taken ((CpuId.beyond_eq_true _ _).mp hfirst) rest

/-- A list of indices below the capacity is built into the mask of exactly those. -/
theorem build_of_forall_lt {cpus : List CpuId} (h : ∀ cpu ∈ cpus, cpu.index < maskCapacity) :
    build cpus = ⟨.ok (.ofWords (.ofMembers (CpuId.indices cpus))), cpus.length⟩ := by
  obtain ⟨built, hbuilt, hmembers⟩ := buildOn_of_forall_lt empty 0 h
  have hindices : built.words.members = CpuId.indices cpus := by simpa [empty] using hmembers
  rw [build, hbuilt, Nat.zero_add, ← hindices, Words.ofMembers_members]

/-- Any other list is refused for its first index that no mask holds. -/
theorem build_of_refused {cpus : List CpuId} {cpu : CpuId}
    (h : cpus.find? (CpuId.beyond maskCapacity) = some cpu) :
    build cpus = ⟨.error (.outOfRange cpu.index maskCapacity),
      cpus.findIdx (CpuId.beyond maskCapacity) + 1⟩ := by
  rw [build, buildOn_of_refused empty 0 h, Nat.zero_add]

end Mask

end CpuAffinity
