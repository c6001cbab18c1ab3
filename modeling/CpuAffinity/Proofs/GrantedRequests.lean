import CpuAffinity.Proofs.GroupCallRuns
import CpuAffinity.Proofs.HostRequests
import CpuAffinity.Proofs.MaskCallRuns

/-!
# Requests that are granted in full

A list that names at least one CPU, and only CPUs that may be used, is granted as it is by a
host that does not fail. Mask calls then leave exactly the listed CPUs, and group calls the
word of exactly those, provided that the previous word was not zero.
-/

namespace CpuAffinity

variable {h : Host} {cpus : List CpuId}

/-- Mask calls make the listed CPUs the affinity, if all of them may be used. -/
theorem MaskCalls.apply_of_allowed (family : Family) (hwrite : h.writeError = none)
    (hne : (CpuId.indices cpus).Nonempty) (hallowed : CpuId.indices cpus ⊆ h.possible.members) :
    (apply family cpus).runOn { host := h } =
      (.ok (), ⟨{ h with mask := .ofMembers (CpuId.indices cpus) },
        [family.setCall (.ofMembers (CpuId.indices cpus))], []⟩) := by
  have hlt : ∀ cpu ∈ cpus, cpu.index < maskCapacity :=
    CpuId.indices_subset_range.mp (hallowed.trans h.possible.members_subset)
  have hmembers := Words.members_ofMembers_indices hlt
  have hinter : (Words.ofMembers (CpuId.indices cpus)).inter h.possible =
      .ofMembers (CpuId.indices cpus) := by
    simp [← Words.members_inj, hmembers, hallowed]
  have hoverlap : ¬ Disjoint (Words.ofMembers (CpuId.indices cpus)).members h.possible.members := by
    rw [Finset.not_disjoint_iff_nonempty_inter, hmembers, Finset.inter_eq_left.mpr hallowed]
    exact hne
  apply apply_of_ok family hlt
  rw [Host.restrict_of_not_disjoint hwrite hoverlap, hinter]

/-- Group calls store the word of the listed CPUs, if all of them may be used. -/
theorem GroupCalls.apply_of_allowed (hwrite : h.writeError = none)
    (hne : (CpuId.indices cpus).Nonempty)
    (hallowed : CpuId.indices cpus ⊆ GroupWord.members (Host.groupWord h.possible))
    (hprevious : Host.groupWord h.mask ≠ 0#64) :
    ∃ word, GroupWord.members word = CpuId.indices cpus ∧
      (apply cpus).runOn { host := h } =
        (.ok (), ⟨{ h with mask := h.mask.setWord 0 word }, [.setThreadAffinityMask word], []⟩) := by
  have hlt : ∀ cpu ∈ cpus, cpu.index < GroupWord.capacity :=
    CpuId.indices_subset_range.mp (hallowed.trans (GroupWord.members_subset_range _))
  obtain ⟨word, hword, hmembers⟩ := GroupWord.ofCpus_of_forall_lt hlt
  refine ⟨word, hmembers, apply_of_ok hword ?_ hprevious⟩
  rw [← hmembers] at hne hallowed
  exact Host.restrictGroup_of_allowed hwrite ((GroupWord.members_nonempty word).mp hne) hallowed

end CpuAffinity
