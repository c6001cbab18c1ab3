import CpuAffinity.Proofs.GroupMembers
import CpuAffinity.Proofs.MaskLists
import CpuAffinity.Proofs.SetSession
import Mathlib.Algebra.BigOperators.Group.Finset.Sigma

/-!
# Scans of a mask agree with its words

Counting, the test for emptiness and comparison look a mask's CPUs up one index after another.
The indices below the capacity are the bits of the sixteen words, each bit once, so these scans
amount to what whole words give: the sum of their numbers of one bits, whether all of them are
zero, and whether they are the same. Every bit takes part, whatever the words are.
-/

namespace CpuAffinity

/-- The members of a group word are as many as its one bits. -/
theorem GroupWord.card_members (word : BitVec 64) : (members word).card = word.cpop.toNat := by
  have hbelow (n : ℕ) :
      ((Finset.range n).filter fun cpu => word.getLsbD cpu = true).card = word.cpopNatRec n 0 := by
    induction n with
    | zero => rfl
    | succ n ih =>
      rw [Finset.range_add_one, Finset.filter_insert, BitVec.cpopNatRec_succ, BitVec.cpopNatRec_eq,
        ← ih]
      cases hbit : word.getLsbD n <;> simp [Nat.add_comm]
  rw [BitVec.toNat_cpop]
  exact hbelow 64

namespace Words

/-- The members are those of each word, counted on from the words before it. -/
theorem members_eq_image (w : Words) :
    w.members = (Finset.univ.sigma fun i => GroupWord.members (w.word i)).image
      fun cpu => cpu.1.val * 64 + cpu.2 := by
  ext cpu
  rw [Finset.mem_image]
  refine ⟨fun hmem => ?_, ?_⟩
  · have hword : cpu / 64 < 16 := Nat.div_lt_of_lt_mul (lt_of_mem_members hmem)
    have hbit : cpu % 64 < 64 := Nat.mod_lt _ (by decide)
    have hsplit : cpu / 64 * 64 + cpu % 64 = cpu := Nat.div_add_mod' cpu 64
    refine ⟨⟨⟨cpu / 64, hword⟩, cpu % 64⟩, ?_, hsplit⟩
    simpa [← mem_members_word w _ hbit, hsplit] using hmem
  · rintro ⟨⟨i, j⟩, hmem, rfl⟩
    have hone : (w.word i).getLsbD j = true := by simpa using hmem
    exact (mem_members_word w i (BitVec.lt_of_getLsbD hone)).mpr hone

/-- Different bits of different words are different members. -/
theorem members_injOn (w : Words) :
    Set.InjOn (fun cpu : (_ : Fin 16) × ℕ => cpu.1.val * 64 + cpu.2)
      (Finset.univ.sigma fun i => GroupWord.members (w.word i)) := by
  rintro ⟨i, j⟩ hij ⟨i', j'⟩ hij' heq
  simp only [Finset.coe_sigma, Set.mem_sigma_iff, Finset.mem_coe, GroupWord.mem_members] at hij hij'
  have hj : j < 64 := BitVec.lt_of_getLsbD hij.2
  have hj' : j' < 64 := BitVec.lt_of_getLsbD hij'.2
  simp only at heq
  obtain rfl : i = i' := Fin.ext (by omega)
  obtain rfl : j = j' := by omega
  rfl

/-- The members are as many as the one bits of all words. -/
theorem card_members (w : Words) : w.members.card = ∑ i, (w.word i).cpop.toNat := by
  rw [members_eq_image, Finset.card_image_of_injOn w.members_injOn, Finset.card_sigma]
  exact Finset.sum_congr rfl fun i _ => GroupWord.card_members (w.word i)

end Words

namespace Mask

/-- A mask is empty when all words are zero. -/
theorem isEmpty_iff_word (m : Mask) : m.isEmpty = true ↔ ∀ i, m.words.word i = 0#64 := by
  simp [isEmpty_eq_decide, Words.eq_iff_word]

/-- Masks are equal when their words are. -/
theorem beq_iff_words (a b : Mask) : (a == b) = true ↔ a.words = b.words := by
  rw [beq_eq_decide, decide_eq_true_eq, Words.members_inj]

/-- Comparison of masks is equality. -/
instance : LawfulBEq Mask where
  eq_of_beq {a b} h := by
    obtain ⟨words⟩ := a
    exact congrArg ofWords ((beq_iff_words _ b).mp h)
  rfl {a} := (beq_iff_words a a).mpr rfl

/-- Masks are equal when they enumerate the same CPUs. -/
theorem beq_iff_toList (a b : Mask) : (a == b) = true ↔ a.toList = b.toList := by
  refine ⟨fun h => congrArg toList (eq_of_beq h), fun h => ?_⟩
  rw [beq_eq_decide, decide_eq_true_eq, ← indices_toList, ← indices_toList, h]

/-- Whatever the words of a mask are, its count is the number of their one bits, through every
receiver, and it is empty exactly when all of them are zero. Comparison is an equivalence, and
holds exactly when the words are the same, one by one, and exactly when the enumerations are;
masks are unequal exactly when they are not equal. -/
theorem scans_agree_with_words :
    (∀ (m : Mask) (via : MaskSession.Receiver),
      MaskSession.count m via = ∑ i, (m.words.word i).cpop.toNat) ∧
      (∀ m : Mask, m.isEmpty = true ↔ ∀ i, m.words.word i = 0#64) ∧
      (∀ a b : Mask, ((a == b) = true ↔ ∀ i, a.words.word i = b.words.word i) ∧
        ((a == b) = true ↔ a.toList = b.toList) ∧ ((a != b) = true ↔ ¬ (a == b) = true)) ∧
      Equivalence fun a b : Mask => (a == b) = true := by
  refine ⟨fun m via => ?_, isEmpty_iff_word, fun a b => ⟨?_, beq_iff_toList a b, ?_⟩, ?_⟩
  · rw [SetSession.count_eq_card, Words.card_members]
  · rw [beq_iff_words, Words.eq_iff_word]
  · rw [bne, Bool.not_eq_true', Bool.not_eq_true]
  · simp only [beq_iff_eq]
    exact eq_equivalence

end Mask

end CpuAffinity
