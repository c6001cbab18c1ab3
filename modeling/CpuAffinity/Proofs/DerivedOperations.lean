import CpuAffinity.Proofs.MaskScans
import CpuAffinity.Selection.Congruence
import CpuAffinity.Selection.Recorder
import Mathlib.Order.Interval.Finset.Nat

/-!
# What the derived operations ask of a selection

Insertion and counting are derived for every selection from the operations that select and look
up. A recorder shows what they ask for: an insertion selects its CPU once, or does nothing if no
mask holds the CPU, and a count looks up every CPU that a mask holds, once and in order. Nothing
else that a selection may do has any influence. For a congruence class with CPUs added to it,
the count is therefore known in closed form, although the class itself has no end.
-/

namespace CpuAffinity

namespace CpuSelection

variable {σ : Type} [CpuSelection σ]

/-- The answers to look-ups made one after another. -/
def answers (s : σ) : List ℕ → List Bool
  | [] => []
  | cpu :: rest => (lookUp s cpu).1 :: answers (lookUp s cpu).2 rest

/-- A tally is the number of look-ups that are answered with true. -/
theorem tally_eq_count (s : σ) (cpus : List ℕ) : (tally s cpus).1 = (answers s cpus).count true := by
  induction cpus generalizing s with
  | nil => rfl
  | cons cpu rest ih =>
    simp only [tally, answers, ih, List.count_cons]
    cases (lookUp s cpu).1 <;> simp [Nat.add_comm]

end CpuSelection

namespace Recorder

variable {σ : Type} [CpuSelection σ]

/-- A tally looks up the CPUs of the list, once each and in order, and does nothing else. The
recorder makes no difference to its answer or to the selection. -/
theorem tally_eq (r : Recorder σ) (cpus : List ℕ) :
    CpuSelection.tally r cpus =
      ((CpuSelection.tally r.inner cpus).1,
        ⟨(CpuSelection.tally r.inner cpus).2, r.accesses ++ cpus.map .lookedUp⟩) := by
  induction cpus generalizing r with
  | nil => simp [CpuSelection.tally]
  | cons cpu rest ih => simp [CpuSelection.tally, ih, CpuSelection.lookUp]

end Recorder

/-- The numbers below `n` that leave the remainder `r` modulo `m` are `r`, `r + m` and so on. -/
theorem filter_mod_eq_image {n m r : ℕ} (hr : r < m) (hn : r < n) :
    (Finset.range n).filter (· % m = r) =
      (Finset.range ((n - 1 - r) / m + 1)).image fun k => r + m * k := by
  ext cpu
  simp only [Finset.mem_filter, Finset.mem_image, Finset.mem_range, Nat.lt_succ_iff,
    Nat.le_div_iff_mul_le (Nat.zero_lt_of_lt hr)]
  refine ⟨?_, ?_⟩
  · rintro ⟨hcpu, rfl⟩
    have hsplit : cpu % m + m * (cpu / m) = cpu := Nat.mod_add_div cpu m
    refine ⟨cpu / m, ?_, hsplit⟩
    rw [Nat.mul_comm]
    omega
  · rintro ⟨k, hk, rfl⟩
    rw [Nat.mul_comm] at hk
    refine ⟨by omega, ?_⟩
    rw [Nat.add_mul_mod_self_left, Nat.mod_eq_of_lt hr]

/-- How many numbers below `n` leave the remainder `r` modulo `m`. -/
theorem card_filter_mod {m : ℕ} (n r : ℕ) (hm : 0 < m) :
    ((Finset.range n).filter (· % m = r)).card =
      if m ≤ r ∨ n ≤ r then 0 else (n - 1 - r) / m + 1 := by
  split
  · next h =>
    -- no remainder reaches the modulus, and none exceeds its number
    rw [Finset.card_eq_zero, Finset.filter_eq_empty_iff]
    rintro cpu hcpu rfl
    have hmod : cpu % m < m := Nat.mod_lt cpu hm
    have hle : cpu % m ≤ cpu := Nat.mod_le cpu m
    rw [Finset.mem_range] at hcpu
    omega
  · next h =>
    have hinjective : Function.Injective fun k => r + m * k := by
      intro k k' heq
      exact Nat.eq_of_mul_eq_mul_left hm (Nat.add_left_cancel heq)
    obtain ⟨hr, hn⟩ := not_or.mp h
    rw [filter_mod_eq_image (Nat.lt_of_not_le hr) (Nat.lt_of_not_le hn),
      Finset.card_image_of_injective _ hinjective, Finset.card_range]

namespace CongruenceSelection

/-- Inserting CPUs one by one adds those below the capacity, and refuses the others. -/
theorem insertEach_eq (s : CongruenceSelection) (cpus : List ℕ) :
    CpuSelection.insertEach s cpus =
      (cpus.map fun cpu =>
          if cpu < maskCapacity then .ok () else .error (.outOfRange cpu maskCapacity),
        { s with added := s.added ++ cpus.filter (· < maskCapacity) }) := by
  induction cpus generalizing s with
  | nil => simp [CpuSelection.insertEach]
  | cons cpu rest ih =>
    by_cases hlt : cpu < maskCapacity
    · rw [CpuSelection.insertEach, CpuSelection.insert_of_lt s hlt]
      simp [ih, hlt, CpuSelection.select]
    · rw [CpuSelection.insertEach, CpuSelection.insert_of_ge s (Nat.le_of_not_lt hlt)]
      simp [ih, hlt]

/-- Of the numbers below `n`, a congruence class holds its own and, besides them, those added. -/
theorem countP_holds (s : CongruenceSelection) (n : ℕ) :
    (List.range n).countP s.holds =
      ((Finset.range n).filter (· % s.modulus = s.residue)).card +
        (s.added.filter fun cpu => cpu < n ∧ cpu % s.modulus ≠ s.residue).toFinset.card := by
  -- an added CPU of the class itself is held already and must not count twice
  have hdisjoint : Disjoint ((Finset.range n).filter (· % s.modulus = s.residue))
      (s.added.filter fun cpu => cpu < n ∧ cpu % s.modulus ≠ s.residue).toFinset := by
    rw [Finset.disjoint_left]
    intro cpu hclass hadded
    rw [List.mem_toFinset, List.mem_filter, decide_eq_true_eq] at hadded
    exact hadded.2.2 (Finset.mem_filter.mp hclass).2
  have hheld : (Finset.range n).filter (s.holds · = true) =
      (Finset.range n).filter (· % s.modulus = s.residue) ∪
        (s.added.filter fun cpu => cpu < n ∧ cpu % s.modulus ≠ s.residue).toFinset := by
    ext cpu
    simp only [holds, Finset.mem_filter, Finset.mem_range, Finset.mem_union, List.mem_toFinset,
      List.mem_filter, Bool.or_eq_true, beq_iff_eq, List.contains_iff_mem, decide_eq_true_eq]
    tauto
  rw [← Finset.card_union_of_disjoint hdisjoint, ← hheld, List.countP_eq_length_filter,
    ← List.toFinset_card_of_nodup (List.nodup_range.filter _), List.toFinset_filter,
    List.toFinset_range]

/-- The count of a congruence class that CPUs were inserted into, in closed form. -/
theorem count_insertEach (modulus residue : ℕ) (hpos : 0 < modulus) (cpus : List ℕ) :
    (CpuSelection.count (CpuSelection.insertEach
        (⟨modulus, residue, hpos, []⟩ : CongruenceSelection) cpus).2).1 =
      (if modulus ≤ residue ∨ maskCapacity ≤ residue then 0
        else (maskCapacity - 1 - residue) / modulus + 1) +
        (cpus.filter fun cpu => cpu < maskCapacity ∧ cpu % modulus ≠ residue).toFinset.card := by
  have hlookUp (s : CongruenceSelection) (cpu : ℕ) :
      CpuSelection.lookUp s cpu = (s.holds cpu, s) := rfl
  have hadded : (cpus.filter (· < maskCapacity)).filter
      (fun cpu => cpu < maskCapacity ∧ cpu % modulus ≠ residue) =
        cpus.filter fun cpu => cpu < maskCapacity ∧ cpu % modulus ≠ residue := by
    rw [List.filter_filter]
    apply List.filter_congr
    intro cpu _
    rw [← Bool.decide_and, decide_eq_decide]
    exact and_iff_left_of_imp And.left
  rw [insertEach_eq, CpuSelection.count, CpuSelection.tally_eq_countP (hlookUp _), countP_holds,
    card_filter_mod _ _ hpos, List.nil_append, hadded]

end CongruenceSelection

namespace CpuSelection

variable {σ : Type} [CpuSelection σ]

/-- What insertion and counting ask of a selection, as a recorder around it shows, and what they
answer. The recorder makes no difference to the answers or to the selection. -/
structure DerivedFromPrimitives (s : σ) : Prop where
  /-- Below the capacity, an insertion selects the CPU, once. -/
  inserted : ∀ (cpu : ℕ) (h : cpu < maskCapacity),
    insert s cpu = (.ok (), select s ⟨cpu, h⟩) ∧
      insert (⟨s, []⟩ : Recorder σ) cpu = (.ok (), ⟨select s ⟨cpu, h⟩, [.selected ⟨cpu, h⟩]⟩)
  /-- Any other index is refused, and nothing is done. -/
  refused : ∀ cpu : ℕ, maskCapacity ≤ cpu →
    insert s cpu = (.error (.outOfRange cpu maskCapacity), s) ∧
      insert (⟨s, []⟩ : Recorder σ) cpu = (.error (.outOfRange cpu maskCapacity), ⟨s, []⟩)
  /-- A count looks up each CPU below the capacity, once and in order. -/
  counted : count (⟨s, []⟩ : Recorder σ) =
    ((count s).1, ⟨(count s).2, (List.range maskCapacity).map .lookedUp⟩)
  /-- It answers how many of the look-ups are answered with true. -/
  answered : (count s).1 = (answers s (List.range maskCapacity)).count true

/-- Insertion and counting are derived from selecting and looking up alone. -/
theorem derivedFromPrimitives (s : σ) : DerivedFromPrimitives s where
  inserted cpu h := ⟨insert_of_lt s h, insert_of_lt _ h⟩
  refused cpu h := ⟨insert_of_ge s h, insert_of_ge _ h⟩
  counted := by simp only [count, Recorder.tally_eq, List.nil_append]
  answered := tally_eq_count s _

/-- For every selection, insertion and counting are derived from selecting and looking up alone,
and stay below the capacity. For a congruence class that CPUs are inserted into, those below the
capacity are added, in order and with repetitions, and the others refused; the count is the size
of the class below the capacity, together with the number of different CPUs that were added to it
from outside. What lies beyond the capacity has no influence on the count. -/
theorem derived_operations_stay_in_range :
    (∀ (σ : Type) [CpuSelection σ] (s : σ), DerivedFromPrimitives s) ∧
      ∀ (modulus residue : ℕ) (hpos : 0 < modulus) (cpus : List ℕ),
        let start : CongruenceSelection := ⟨modulus, residue, hpos, []⟩
        let inserted := insertEach start cpus
        inserted.1 = (cpus.map fun cpu =>
            if cpu < maskCapacity then .ok () else .error (.outOfRange cpu maskCapacity)) ∧
          inserted.2.added = cpus.filter (· < maskCapacity) ∧
          (count inserted.2).1 =
            (if modulus ≤ residue ∨ maskCapacity ≤ residue then 0
              else (maskCapacity - 1 - residue) / modulus + 1) +
              (cpus.filter fun cpu => cpu < maskCapacity ∧ cpu % modulus ≠ residue).toFinset.card ∧
          ∀ cpus' : List ℕ, (∀ cpu < maskCapacity, cpu ∈ cpus' ↔ cpu ∈ cpus) →
            (count (insertEach start cpus').2).1 = (count inserted.2).1 := by
  refine ⟨fun σ _ s => derivedFromPrimitives s, fun modulus residue hpos cpus => ?_⟩
  intro start inserted
  have hcount (cpus : List ℕ) := CongruenceSelection.count_insertEach modulus residue hpos cpus
  refine ⟨?_, ?_, hcount cpus, fun cpus' hsame => ?_⟩
  · exact congrArg Prod.fst (start.insertEach_eq cpus)
  · exact congrArg (·.2.added) (start.insertEach_eq cpus)
  · rw [hcount cpus', hcount cpus]
    congr 2
    ext cpu
    simp only [List.mem_toFinset, List.mem_filter, decide_eq_true_eq]
    exact and_congr_left fun h => hsame cpu h.1

/-- Of the class of 23 modulo 1000, a mask could hold two CPUs. One of them is inserted, with two
others, one of these twice, and with a CPU that is refused: the count is four. -/
theorem derived_operations_of_sparse_class :
    let start : CongruenceSelection := ⟨1000, 23, by decide, []⟩
    let cpus : List ℕ := [1023, 5, 1024, 5, 24]
    let cpus' : List ℕ := [24, 4096, 5, 1023]
    (∀ cpu < maskCapacity, cpu ∈ cpus' ↔ cpu ∈ cpus) ∧
      (insertEach start cpus).2.added = [1023, 5, 5, 24] ∧
      (count (insertEach start cpus).2).1 = 4 ∧ (count (insertEach start cpus').2).1 = 4 ∧
      (insert (⟨start, []⟩ : Recorder CongruenceSelection) 1023).2.accesses =
        [.selected ⟨1023, by decide⟩] ∧
      insert (⟨start, []⟩ : Recorder CongruenceSelection) 1024 =
        (.error (.outOfRange 1024 1024), ⟨start, []⟩) := by
  intro start cpus cpus'
  obtain ⟨hderived, hclass⟩ := derived_operations_stay_in_range
  obtain ⟨-, hadded, hcount, hsame⟩ := hclass 1000 23 (by decide) cpus
  have hcpus : ∀ cpu < maskCapacity, cpu ∈ cpus' ↔ cpu ∈ cpus := by
    intro cpu hcpu
    have hbelow : cpu < 1024 := hcpu
    simp only [cpus, cpus', List.mem_cons, List.not_mem_nil, or_false]
    omega
  have hfour : (count (insertEach start cpus).2).1 = 4 := hcount.trans (by decide)
  refine ⟨hcpus, hadded, hfour, (hsame cpus' hcpus).trans hfour, ?_, ?_⟩
  · rw [((hderived CongruenceSelection start).inserted 1023 (by decide)).2]
  · exact ((hderived CongruenceSelection start).refused 1024 (by decide)).2

end CpuSelection

end CpuAffinity
