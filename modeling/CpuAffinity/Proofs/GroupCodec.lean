import CpuAffinity.Proofs.MaskLists
import CpuAffinity.Proofs.SingleGroup

/-!
# Group words and masks agree on the CPUs of a group

A list of CPUs is encoded in a group word by shifts, and built into a mask by setting bits in an
array of words. A group word is decoded by shifting it down, and a mask is enumerated by looking
its indices up. Below the capacity of a group, both ways of writing give the same first word, and
both ways of reading give the same list.
-/

namespace CpuAffinity

namespace GroupWord

/-- A decoded word names exactly its members. -/
theorem indices_toCpus (word : BitVec 64) : CpuId.indices (toCpus word) = members word := by
  simp [toCpus_eq_ascending]

/-- A decoded word names CPUs of the group. -/
theorem lt_of_mem_toCpus (word : BitVec 64) : ∀ cpu ∈ toCpus word, cpu.index < capacity := by
  rw [← CpuId.indices_subset_range, indices_toCpus]
  exact members_subset_range word

/-- A word is encoded again from its own CPUs. -/
theorem ofCpus_toCpus (word : BitVec 64) : ofCpus (toCpus word) = .ok word := by
  obtain ⟨encoded, hencoded, hmembers⟩ := ofCpus_of_forall_lt (lt_of_mem_toCpus word)
  rw [indices_toCpus] at hmembers
  rw [hencoded, members_injective hmembers]

end GroupWord

/-- The words with nothing but a group word have its members. -/
theorem Words.members_setWord_zero (word : BitVec 64) :
    (zero.setWord 0 word).members = GroupWord.members word := by
  have hmembers := GroupWord.members_subset_range word
  rw [zero_withinGroup.setWord_of_members hmembers rfl]
  exact members_ofMembers_of_group hmembers

namespace Mask

/-- A mask with nothing but a group word enumerates the CPUs that the word is decoded into. -/
theorem toList_setWord_zero (word : BitVec 64) :
    (ofWords (Words.zero.setWord 0 word)).toList = GroupWord.toCpus word := by
  rw [toList_eq_ascending, Words.members_setWord_zero, GroupWord.toCpus_eq_ascending]

/-- A list of the group's CPUs is built into a mask with nothing but the word that the list is
encoded in. -/
theorem ofCpus_of_group {cpus : List CpuId} (h : ∀ cpu ∈ cpus, cpu.index < GroupWord.capacity) :
    ∃ word, GroupWord.ofCpus cpus = .ok word ∧
      ofCpus cpus = .ok (.ofWords (Words.zero.setWord 0 word)) := by
  obtain ⟨word, hword, hmembers⟩ := GroupWord.ofCpus_of_forall_lt h
  have hindices := CpuId.indices_subset_range.mpr h
  have hlt : ∀ cpu ∈ cpus, cpu.index < maskCapacity := by
    intro cpu hcpu
    exact (h cpu hcpu).trans (by decide)
  refine ⟨word, hword, ?_⟩
  rw [ofCpus_of_forall_lt hlt, Words.zero_withinGroup.setWord_of_members hindices hmembers]

end Mask

namespace GroupWord

/-- The first CPU of a list that the group cannot hold is the one that is reported. -/
theorem ofCpus_of_exists_beyond {cpus : List CpuId} (h : ∃ cpu ∈ cpus, capacity ≤ cpu.index) :
    ∃ before cpu after, cpus = before ++ cpu :: after ∧
      (∀ other ∈ before, other.index < capacity) ∧ capacity ≤ cpu.index ∧
      ofCpus cpus = .error (.outOfRange cpu.index capacity) := by
  obtain ⟨before, cpu, after, hsplit, hbefore, hbeyond, hfirst⟩ := CpuId.exists_first_beyond h
  exact ⟨before, cpu, after, hsplit, hbefore, hbeyond, setAll_of_beyond 0#64 hfirst⟩

/-- Encoding and decoding by shifts agree with masks. A list of CPUs of the group is encoded in
the first word of the mask that it is built into, and the other words of the mask are zero. Any
other list is refused for its first CPU that the group cannot hold. A word is decoded into the
enumeration of the mask that has it as its first word and is zero elsewhere, and both are built
again from that list. -/
theorem codec_agrees_with_masks :
    (∀ cpus : List CpuId, (∀ cpu ∈ cpus, cpu.index < capacity) →
      ∃ word m, ofCpus cpus = .ok word ∧ Mask.ofCpus cpus = .ok m ∧
        m.words.word 0 = word ∧ ∀ i, i ≠ 0 → m.words.word i = 0#64) ∧
      (∀ cpus : List CpuId, (∃ cpu ∈ cpus, capacity ≤ cpu.index) →
        ∃ before cpu after, cpus = before ++ cpu :: after ∧
          (∀ other ∈ before, other.index < capacity) ∧ capacity ≤ cpu.index ∧
          ofCpus cpus = .error (.outOfRange cpu.index capacity)) ∧
      ∀ word : BitVec 64, toCpus word = (Mask.ofWords (Words.zero.setWord 0 word)).toList ∧
        ofCpus (toCpus word) = .ok word ∧
        Mask.ofCpus (toCpus word) = .ok (.ofWords (Words.zero.setWord 0 word)) := by
  refine ⟨fun cpus h => ?_, fun cpus h => ofCpus_of_exists_beyond h, fun word => ⟨?_, ?_, ?_⟩⟩
  · obtain ⟨word, hword, hmask⟩ := Mask.ofCpus_of_group h
    exact ⟨word, _, hword, hmask, by simp, fun i hi => by simp [hi]⟩
  · exact (Mask.toList_setWord_zero word).symm
  · exact ofCpus_toCpus word
  · rw [← Mask.toList_setWord_zero]
    exact Mask.ofCpus_toList _

/-- The first and the last CPU of a group, one of them twice, give the two outer bits of a first
word. Behind CPU three, CPU sixty-four is the first one beyond the group. -/
theorem codec_agrees_with_masks_at_ends :
    (∀ cpu ∈ [CpuId.mk 63, ⟨0⟩, ⟨63⟩], cpu.index < capacity) ∧
      (∃ m, Mask.ofCpus [⟨63⟩, ⟨0⟩, ⟨63⟩] = .ok m ∧ m.words.word 0 = 0x8000000000000001#64 ∧
        ∀ i, i ≠ 0 → m.words.word i = 0#64) ∧
      (∃ cpu ∈ [CpuId.mk 3, ⟨64⟩, ⟨2000⟩], capacity ≤ cpu.index) ∧
      ∃ before cpu after, [CpuId.mk 3, ⟨64⟩, ⟨2000⟩] = before ++ cpu :: after ∧
        (∀ other ∈ before, other.index < capacity) ∧ cpu.index = 64 := by
  have hgroup : ∀ cpu ∈ [CpuId.mk 63, ⟨0⟩, ⟨63⟩], cpu.index < capacity := by decide
  have hbeyond : ∃ cpu ∈ [CpuId.mk 3, ⟨64⟩, ⟨2000⟩], capacity ≤ cpu.index := by decide
  obtain ⟨word, m, hword, hm, hfirst, hothers⟩ := codec_agrees_with_masks.1 _ hgroup
  obtain ⟨before, cpu, after, hsplit, hbefore, -, hrefused⟩ := codec_agrees_with_masks.2.1 _ hbeyond
  have hencoded : ofCpus [⟨63⟩, ⟨0⟩, ⟨63⟩] = .ok 0x8000000000000001#64 := rfl
  have hreported : ofCpus [⟨3⟩, ⟨64⟩, ⟨2000⟩] = .error (.outOfRange 64 capacity) := rfl
  rw [hencoded] at hword
  rw [hreported] at hrefused
  cases hword
  injection hrefused with hcpu
  injection hcpu with hindex
  exact ⟨hgroup, ⟨m, hm, hfirst, hothers⟩, hbeyond, before, cpu, after, hsplit, hbefore, hindex.symm⟩

end GroupWord

end CpuAffinity
