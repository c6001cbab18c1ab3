import CpuAffinity.Proofs.OutlineTexts
import CpuAffinity.Error
import CpuAffinity.Comparison

/-!
# Failures are known from their text

The message of a failure begins with words of its kind, and blanks keep its numbers apart, so
failures with the same message are equal. Their outlines are known from either of their texts. A
comparison of failures is then a comparison of messages: the same positions of a list hold equal
members, and as many members are different.
-/

namespace CpuAffinity

section Comparison

variable {α β : Type} [DecidableEq α] [DecidableEq β]

/-- An entry of the table compares the members at its row and its column. -/
theorem equalityTable_entry (values : List α) (row column : Fin values.length) :
    ((equalityTable values)[row.val]?.bind fun entries => entries[column.val]?) =
      some (decide (values[row] = values[column])) := by
  simp [equalityTable]

/-- The different values of a list are those of the set of its members. -/
theorem distinctCount_eq_card (values : List α) :
    distinctCount values = values.toFinset.card := by
  induction values with
  | nil => rfl
  | cons a rest ih =>
    rw [distinctCount, ih, List.toFinset_cons]
    split
    case isTrue hmem => rw [Finset.insert_eq_of_mem (List.mem_toFinset.mpr hmem)]
    case isFalse hmem => rw [Finset.card_insert_of_notMem (mt List.mem_toFinset.mp hmem)]

/-- An injective function keeps different values different. -/
theorem distinctCount_map {f : α → β} (hf : Function.Injective f) (values : List α) :
    distinctCount (values.map f) = distinctCount values := by
  induction values with
  | nil => rfl
  | cons a rest ih =>
    rw [List.map_cons, distinctCount, distinctCount, ih]
    simp only [List.mem_map_of_injective hf]

end Comparison

namespace AffinityError

/-- The words that a message begins with. -/
def lead : AffinityError → String
  | errorCode _ => "processor affinity call failed with error code "
  | outOfRange _ _ => "cpu "
  | platformNotSupported => "processor affinity is not supported on this platform"

/-- The data of a failure, as its message has it behind the first words. -/
def detail : AffinityError → String
  | errorCode code => toString code.toInt
  | outOfRange cpu capacity =>
    toString cpu ++ (" is out of range: the mask holds " ++ (toString capacity ++ " cpus"))
  | platformNotSupported => ""

/-- A message is its first words and the data. -/
theorem message_eq (e : AffinityError) : e.message = e.lead ++ e.detail := by
  cases e with
  | errorCode code => rfl
  | outOfRange cpu capacity =>
    exact String.append_assoc.trans (String.append_assoc.trans String.append_assoc)
  | platformNotSupported => exact String.append_empty.symm

variable {a b : AffinityError}

/-- No kind's first words begin those of another. -/
theorem lead_prefixFree (h : a.lead.toList <+: b.lead.toList) : a.lead = b.lead := by
  cases a <;> cases b <;> first | rfl | exact absurd h (by rw [lead, lead]; decide)

/-- A message tells its first words and the data. -/
theorem parts_of_message (h : a.message = b.message) : a.lead = b.lead ∧ a.detail = b.detail := by
  have hlead : a.lead = b.lead := by
    have hlist := congrArg String.toList h
    rw [message_eq, message_eq, String.toList_append, String.toList_append] at hlist
    have hfirst := List.prefix_append a.lead.toList a.detail.toList
    have hsecond := List.prefix_append b.lead.toList b.detail.toList
    rw [← hlist] at hsecond
    -- of two fronts of one text, one begins the other
    cases List.prefix_or_prefix_of_prefix hfirst hsecond with
    | inl hprefix => exact lead_prefixFree hprefix
    | inr hprefix => exact (lead_prefixFree hprefix).symm
  rw [message_eq, message_eq, hlead, String.append_right_inj] at h
  exact ⟨hlead, h⟩

/-- A failure is known from its first words and the data. -/
theorem eq_of_parts (hlead : a.lead = b.lead) (hdetail : a.detail = b.detail) : a = b := by
  cases a <;> cases b
  case errorCode.errorCode code code' =>
    rw [detail, detail, Decimal.signed_inj, Int32.toInt_inj] at hdetail
    rw [hdetail]
  case outOfRange.outOfRange cpu capacity cpu' capacity' =>
    rw [detail, detail] at hdetail
    have hblank (n : ℕ) : ' ' ∉ (toString n).toList := Decimal.notMem_of_isDigit (by decide)
    have hlist := congrArg String.toList hdetail
    simp only [String.toList_append] at hlist
    -- the first number ends at the blank behind it
    obtain ⟨hcpu, -⟩ := append_cons_inj_of_notMem (hblank cpu) (hblank cpu') hlist
    rw [String.toList_inj] at hcpu
    rw [hcpu, String.append_right_inj, String.append_right_inj, String.append_left_inj] at hdetail
    rw [Decimal.toString_inj] at hcpu hdetail
    rw [hcpu, hdetail]
  case platformNotSupported.platformNotSupported => rfl
  all_goals exact absurd hlead (by rw [lead, lead]; decide)

/-- A failure is known from its message. -/
@[simp]
theorem message_inj : a.message = b.message ↔ a = b := by
  refine ⟨fun h => ?_, congrArg message⟩
  obtain ⟨hlead, hdetail⟩ := parts_of_message h
  exact eq_of_parts hlead hdetail

/-- The outline of a failure is known from its text. -/
theorem outline_readable (e : AffinityError) : e.outline.Readable where
  name := by cases e <;> simp [outline, Outline.name]
  entries := by
    cases e with
    | errorCode code =>
      rw [outline, Outline.entries, List.forall_mem_singleton]
      exact .signedDecimal code.toInt
    | outOfRange cpu capacity =>
      rw [outline, Outline.entries, List.forall_mem_map, List.forall_mem_cons, List.forall_mem_singleton]
      exact ⟨(Outline.Separable.decimal cpu).fieldEntry (show ',' ∉ "cpu".toList by decide),
        (Outline.Separable.decimal capacity).fieldEntry (show ',' ∉ "capacity".toList by decide)⟩
    | platformNotSupported => exact List.forall_mem_nil _
  fields := by cases e <;> simp [outline, Outline.fields]

/-- A failure is known from its outline. -/
@[simp]
theorem outline_inj : a.outline = b.outline ↔ a = b := by
  refine ⟨fun h => ?_, congrArg outline⟩
  cases a <;> cases b
  case errorCode.errorCode code code' =>
    rw [outline, outline, Outline.tuple.injEq, List.singleton_inj, Decimal.signed_inj,
      Int32.toInt_inj] at h
    rw [h.2]
  case outOfRange.outOfRange cpu capacity cpu' capacity' =>
    simp only [outline, Outline.record.injEq, List.cons.injEq, Prod.mk.injEq, Decimal.toString_inj] at h
    rw [h.2.1.2, h.2.2.1.2]
  case platformNotSupported.platformNotSupported => rfl
  all_goals cases h

/-- Failures are equal exactly when their messages are, when their texts on one line are, and when
their texts as a block are. So the table of a list's equal members is that of its equal messages,
and the list has as many different members as messages. -/
theorem texts_identify_error :
    (∀ a b : AffinityError, (a = b ↔ a.message = b.message) ∧
      (a = b ↔ a.outline.oneLine = b.outline.oneLine) ∧
      (a = b ↔ a.outline.multiLine = b.outline.multiLine)) ∧
      ∀ errors : List AffinityError,
        (∀ row column : Fin errors.length,
          ((equalityTable errors)[row.val]?.bind fun entries => entries[column.val]?) =
            some (decide (errors[row].message = errors[column].message))) ∧
        distinctCount errors = (errors.map message).toFinset.card := by
  refine ⟨fun a b => ⟨message_inj.symm, ?_, ?_⟩, fun errors => ⟨fun row column => ?_, ?_⟩⟩
  · rw [Outline.oneLine_inj a.outline_readable b.outline_readable, outline_inj]
  · rw [Outline.multiLine_inj a.outline_readable b.outline_readable, outline_inj]
  · rw [equalityTable_entry]
    simp only [message_inj]
  · rw [← distinctCount_eq_card, distinctCount_map fun _ _ => message_inj.mp]

end AffinityError

end CpuAffinity
