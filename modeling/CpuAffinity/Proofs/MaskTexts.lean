import CpuAffinity.Proofs.OutlineTexts
import CpuAffinity.Proofs.WordScans

/-!
# Masks are known from their text

A mask is shown by the decimal indices that it enumerates. Decimals are entries that an outline's
text keeps apart, so the text tells the enumeration, and with it every word of the mask: masks
have the same text exactly when they are equal, on one line and as a block.
-/

namespace CpuAffinity

namespace Mask

/-- The outline of a mask is known from its text. -/
theorem outline_readable (m : Mask) : m.outline.Readable where
  name := by simp [outline, Outline.name]
  entries := by
    intro entry hentry
    obtain ⟨cpu, -, rfl⟩ := List.mem_map.mp hentry
    exact .decimal cpu.index
  fields := by simp [outline, Outline.fields]

/-- Masks with the same outline are equal. -/
theorem outline_inj (a b : Mask) : a.outline = b.outline ↔ (a == b) = true := by
  have hdecimal : Function.Injective fun cpu : CpuId => toString cpu.index := fun cpu cpu' htext =>
    CpuId.index_inj.mp (Decimal.toString_inj.mp htext)
  rw [beq_iff_toList, outline, outline, Outline.set.injEq, (List.map_injective_iff.mpr hdecimal).eq_iff]

/-- On one line, a mask is the decimals of its enumeration in braces. -/
theorem oneLine_outline (m : Mask) : m.outline.oneLine =
    "\x7b" ++ ", ".intercalate (m.toList.map fun cpu => toString cpu.index) ++ "\x7d" := rfl

/-- A mask without CPUs enumerates none. -/
theorem isEmpty_iff_toList (m : Mask) : m.isEmpty = true ↔ m.toList = [] := by
  rw [isEmpty_eq_decide, decide_eq_true_eq, toList_eq_ascending, ← List.length_eq_zero_iff,
    CpuId.ascending_length, Finset.card_eq_zero]

/-- As a block, a mask has one row for each CPU of its enumeration, and an empty mask is its
braces. -/
theorem multiLine_outline (m : Mask) : m.outline.multiLine =
    if m.isEmpty then "\x7b\x7d"
    else "\x7b\n" ++
      String.join (m.toList.map fun cpu => "    " ++ toString cpu.index ++ ",\n") ++ "\x7d" := by
  rw [outline, Outline.multiLine]
  split
  case isTrue hempty =>
    rw [(isEmpty_iff_toList m).mp hempty]
    rfl
  case isFalse hempty =>
    rw [isEmpty_iff_toList, ← List.map_eq_nil_iff] at hempty
    rw [Outline.block_eq_join hempty, List.map_map]
    rfl

/-- A mask is shown by the decimals of its enumeration, which ascends: on one line within braces
and separated by commas, and as a block with a row for each, or as bare braces where the mask is
empty. Either text determines the mask: two masks share it exactly when they compare as equal,
which is when all their words are the same. -/
theorem texts_determine_mask :
    (∀ m : Mask, m.toList.Pairwise (· < ·) ∧
      m.outline.oneLine =
        "\x7b" ++ ", ".intercalate (m.toList.map fun cpu => toString cpu.index) ++ "\x7d" ∧
      m.outline.multiLine =
        if m.isEmpty then "\x7b\x7d"
        else "\x7b\n" ++
          String.join (m.toList.map fun cpu => "    " ++ toString cpu.index ++ ",\n") ++ "\x7d") ∧
      ∀ a b : Mask, (a.outline.oneLine = b.outline.oneLine ↔ (a == b) = true) ∧
        (a.outline.multiLine = b.outline.multiLine ↔ (a == b) = true) ∧
        ((a == b) = true ↔ ∀ i, a.words.word i = b.words.word i) := by
  refine ⟨fun m => ⟨?_, oneLine_outline m, multiLine_outline m⟩, fun a b => ⟨?_, ?_, ?_⟩⟩
  · rw [toList_eq_ascending]
    exact CpuId.ascending_pairwise _
  · rw [Outline.oneLine_inj a.outline_readable b.outline_readable, outline_inj]
  · rw [Outline.multiLine_inj a.outline_readable b.outline_readable, outline_inj]
  · rw [beq_iff_words, Words.eq_iff_word]

end Mask

end CpuAffinity
