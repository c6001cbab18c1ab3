import CpuAffinity.Mask.Session
import CpuAffinity.Proofs.MaskScans
import Mathlib.Logic.Function.Basic

/-!
# Mask sessions as sessions over finite sets

A machine with the same steps keeps a finite set of indices in each slot. It knows neither
words nor receivers: checked insertion and building look at indices alone, and every answer
is a reading of the set. A mask session is matched step by step by this machine, started
from the members of its slots, whatever their words are.
-/

namespace CpuAffinity

namespace SetSession

open MaskSession (Slot Action Reply Step Record)

/-- The sets of a session. -/
abbrev Slots := Slot → Finset ℕ

/-- The outline of a set lists its indices in ascending order. -/
def outline (s : Finset ℕ) : Outline :=
  .set ((CpuId.ascending s).map fun cpu => toString cpu.index)

/-- Carry out an action on a set, given all sets of the session. -/
def act (slots : Slots) (s : Finset ℕ) : Action → Reply × Finset ℕ
  | .reset | .clear _ | .clearWords => (.done, ∅)
  | .build cpus =>
    match cpus.find? (CpuId.beyond maskCapacity) with
    | none => (.built none cpus.length, CpuId.indices cpus)
    | some cpu =>
      (.built (some (.outOfRange cpu.index maskCapacity))
        (cpus.findIdx (CpuId.beyond maskCapacity) + 1), s)
  | .load words => (.done, words.members)
  | .store => (.words (.ofMembers s), s)
  | .copy source => (.done, slots source)
  | .insert _ cpu =>
    if cpu < maskCapacity then (.done, insert cpu s)
    else (.refused (.outOfRange cpu maskCapacity), s)
  | .select _ cpu | .selectInWords cpu => (.done, insert cpu.val s)
  | .contains _ cpu => (.truth (decide (cpu ∈ s)), s)
  | .count _ => (.number s.card, s)
  | .isEmpty => (.truth (decide (s = ∅)), s)
  | .capacity => (.number maskCapacity, s)
  | .toList => (.cpus (CpuId.ascending s), s)
  | .first limit => (.names (((CpuId.ascending s).take limit).map CpuId.display), s)
  | .oneLine => (.text (outline s).oneLine, s)
  | .multiLine => (.text (outline s).multiLine, s)
  | .compare other => (.comparison (decide (s = slots other)) (decide (s ≠ slots other)), s)

/-- Carry out one step. -/
def step (slots : Slots) (s : Step) : Record × Slots :=
  let (reply, set) := act slots (slots s.slot) s.action
  (⟨reply, .ofMembers set⟩, Function.update slots s.slot set)

/-- Carry out steps in order. -/
def run (slots : Slots) : List Step → List Record × Slots
  | [] => ([], slots)
  | s :: rest =>
    let (record, slots) := step slots s
    let (records, slots) := run slots rest
    (record :: records, slots)

/-- The sets that the masks of a session hold. -/
def ofMasks (slots : MaskSession.Slots) : Slots := fun slot => (slots.get slot).words.members

/-- A mask's outline is that of its members. -/
theorem outline_eq (m : Mask) : m.outline = outline m.words.members := by
  rw [Mask.outline, outline, Mask.toList_eq_ascending]

/-- Clearing leaves no member, through every receiver. -/
theorem clear_members (m : Mask) (via : MaskSession.Receiver) :
    (MaskSession.clear m via).words.members = ∅ := by
  cases via <;> exact Words.members_zero

/-- Selecting inserts one member, through every receiver. -/
theorem select_members (m : Mask) (cpu : Fin maskCapacity) (via : MaskSession.Receiver) :
    (MaskSession.select m cpu via).words.members = insert cpu.val m.words.members := by
  cases via <;> exact m.words.members_select cpu

/-- A look-up answers membership, through every receiver. -/
theorem contains_eq_decide (m : Mask) (cpu : ℕ) (via : MaskSession.Receiver) :
    MaskSession.contains m cpu via = decide (cpu ∈ m.words.members) := by
  cases via <;> exact m.contains_eq_decide cpu

/-- The count is the number of members, through every receiver. -/
theorem count_eq_card (m : Mask) (via : MaskSession.Receiver) :
    MaskSession.count m via = m.words.members.card := by
  cases via with
  | mask => exact m.count_eq_card
  | selection => exact m.selection_count_eq_card
  | words => exact m.count_eq_card

/-- Checked insertion is selection below the capacity and a refusal elsewhere, through every
receiver. -/
theorem insert_eq (m : Mask) (cpu : ℕ) (via : MaskSession.Receiver) :
    MaskSession.insert m cpu via =
      if h : cpu < maskCapacity then (.ok (), MaskSession.select m ⟨cpu, h⟩ via)
      else (.error (.outOfRange cpu maskCapacity), m) := by
  by_cases h : cpu < maskCapacity
  · cases via <;> simp [MaskSession.insert, MaskSession.select, h]
  · cases via <;> simp [MaskSession.insert, h, Nat.le_of_not_lt h]

/-- An action on a mask is matched by the action on its members. -/
theorem act_refines (slots : MaskSession.Slots) (m : Mask) (action : Action) :
    (MaskSession.act slots m action).1 = (act (ofMasks slots) m.words.members action).1 ∧
      (MaskSession.act slots m action).2.words.members =
        (act (ofMasks slots) m.words.members action).2 := by
  cases action with
  | reset => exact ⟨rfl, Words.members_zero⟩
  | build cpus =>
    cases hfind : cpus.find? (CpuId.beyond maskCapacity) with
    | none =>
      have hlt := (CpuId.find?_beyond_eq_none _ cpus).mp hfind
      have hmask : MaskSession.act slots m (.build cpus) =
          (.built none cpus.length, .ofWords (.ofMembers (CpuId.indices cpus))) := by
        simp only [MaskSession.act, Mask.build_of_forall_lt hlt, Reply.ofBuild]
      have hset : act (ofMasks slots) m.words.members (.build cpus) =
          (.built none cpus.length, CpuId.indices cpus) := by
        simp only [act, hfind]
      rw [hmask, hset]
      exact ⟨rfl, Words.members_ofMembers_indices hlt⟩
    | some cpu =>
      have hmask : MaskSession.act slots m (.build cpus) =
          (.built (some (.outOfRange cpu.index maskCapacity))
            (cpus.findIdx (CpuId.beyond maskCapacity) + 1), m) := by
        simp only [MaskSession.act, Mask.build_of_refused hfind, Reply.ofBuild]
      have hset : act (ofMasks slots) m.words.members (.build cpus) =
          (.built (some (.outOfRange cpu.index maskCapacity))
            (cpus.findIdx (CpuId.beyond maskCapacity) + 1), m.words.members) := by
        simp only [act, hfind]
      rw [hmask, hset]
      exact ⟨rfl, rfl⟩
  | load words => exact ⟨rfl, rfl⟩
  | store => exact ⟨congrArg Reply.words m.words.ofMembers_members.symm, rfl⟩
  | copy source => exact ⟨rfl, rfl⟩
  | clear via => exact ⟨rfl, clear_members m via⟩
  | insert via cpu =>
    rw [MaskSession.act, act, insert_eq]
    by_cases h : cpu < maskCapacity
    · rw [dif_pos h, if_pos h]
      exact ⟨rfl, select_members m ⟨cpu, h⟩ via⟩
    · rw [dif_neg h, if_neg h]
      exact ⟨rfl, rfl⟩
  | select via cpu => exact ⟨rfl, select_members m cpu via⟩
  | clearWords => exact ⟨rfl, Words.members_zero⟩
  | selectInWords cpu => exact ⟨rfl, m.words.members_select cpu⟩
  | contains via cpu => exact ⟨congrArg Reply.truth (contains_eq_decide m cpu via), rfl⟩
  | count via => exact ⟨congrArg Reply.number (count_eq_card m via), rfl⟩
  | isEmpty => exact ⟨congrArg Reply.truth m.isEmpty_eq_decide, rfl⟩
  | capacity => exact ⟨rfl, rfl⟩
  | toList => exact ⟨congrArg Reply.cpus m.toList_eq_ascending, rfl⟩
  | first limit =>
    exact ⟨congrArg (fun cpus : List CpuId => Reply.names ((cpus.take limit).map CpuId.display))
      m.toList_eq_ascending, rfl⟩
  | oneLine => exact ⟨congrArg (fun o : Outline => Reply.text o.oneLine) (outline_eq m), rfl⟩
  | multiLine => exact ⟨congrArg (fun o : Outline => Reply.text o.multiLine) (outline_eq m), rfl⟩
  | compare other =>
    exact ⟨congrArg₂ Reply.comparison (m.beq_eq_decide slots[other]) (m.bne_eq_decide slots[other]),
      rfl⟩

/-- A step on masks is matched by the step on their members, and leaves the same record. -/
theorem step_refines (slots : MaskSession.Slots) (s : Step) :
    (MaskSession.step slots s).1 = (step (ofMasks slots) s).1 ∧
      ofMasks (MaskSession.step slots s).2 = (step (ofMasks slots) s).2 := by
  obtain ⟨hreply, hmembers⟩ := act_refines slots slots[s.slot] s.action
  refine ⟨?_, ?_⟩
  · have hwords : (MaskSession.act slots slots[s.slot] s.action).2.words =
        .ofMembers (act (ofMasks slots) slots[s.slot].words.members s.action).2 := by
      rw [← hmembers, Words.ofMembers_members]
    exact congrArg₂ Record.mk hreply hwords
  · funext slot
    have hset : (step (ofMasks slots) s).2 = Function.update (ofMasks slots) s.slot
        (act (ofMasks slots) slots[s.slot].words.members s.action).2 := rfl
    rw [hset]
    by_cases hslot : slot = s.slot
    · rw [hslot, Function.update_self, ← hmembers]
      exact congrArg (fun m : Mask => m.words.members) (Vector.getElem_set_self s.slot.isLt)
    · rw [Function.update_of_ne hslot]
      exact congrArg (fun m : Mask => m.words.members)
        (MaskSession.step_getElem_of_ne slots s slot hslot)

/-- A session over masks is matched by the session over their members. -/
theorem run_refines (slots : MaskSession.Slots) (steps : List Step) :
    (MaskSession.run slots steps).1 = (run (ofMasks slots) steps).1 ∧
      ofMasks (MaskSession.run slots steps).2 = (run (ofMasks slots) steps).2 := by
  induction steps generalizing slots with
  | nil => exact ⟨rfl, rfl⟩
  | cons s rest ih =>
    obtain ⟨hrecord, hslots⟩ := step_refines slots s
    obtain ⟨hrecords, hrest⟩ := ih (MaskSession.step slots s).2
    rw [hslots] at hrecords hrest
    exact ⟨congrArg₂ List.cons hrecord hrecords, hrest⟩

/-- The last step of a session changes its own slot at most. -/
theorem run_take_succ (slots : MaskSession.Slots) (steps : List Step) (n : ℕ) (slot : Slot) :
    (MaskSession.run slots (steps.take (n + 1))).2.get slot =
        (MaskSession.run slots (steps.take n)).2.get slot ∨
      steps[n]?.map Step.slot = some slot := by
  induction steps generalizing slots n with
  | nil => exact Or.inl (by simp)
  | cons s rest ih =>
    cases n with
    | zero =>
      by_cases hslot : slot = s.slot
      · exact Or.inr (by simp [hslot])
      · exact Or.inl (MaskSession.step_getElem_of_ne slots s slot hslot)
    | succ n => exact ih (MaskSession.step slots s).2 n

/-- Masks behave as finite sets of indices below the capacity. From any words in the slots, a
session leaves the records that the session over sets leaves; after each of its steps the
members of every slot are the set there, and the step has changed its own slot at most. -/
theorem mask_session_refines_sets (slots : MaskSession.Slots) (steps : List Step) :
    (MaskSession.run slots steps).1 = (run (ofMasks slots) steps).1 ∧
      ∀ (n : ℕ) (slot : Slot),
        ((MaskSession.run slots (steps.take n)).2.get slot).words.members =
            (run (ofMasks slots) (steps.take n)).2 slot ∧
          (run (ofMasks slots) (steps.take n)).2 slot ⊆ Finset.range maskCapacity ∧
          ((MaskSession.run slots (steps.take (n + 1))).2.get slot =
              (MaskSession.run slots (steps.take n)).2.get slot ∨
            steps[n]?.map Step.slot = some slot) := by
  refine ⟨(run_refines slots steps).1, fun n slot => ?_⟩
  have hset : ((MaskSession.run slots (steps.take n)).2.get slot).words.members =
      (run (ofMasks slots) (steps.take n)).2 slot :=
    congrFun (run_refines slots (steps.take n)).2 slot
  refine ⟨hset, ?_, run_take_succ slots steps n slot⟩
  rw [← hset]
  exact Words.members_subset _

end SetSession

end CpuAffinity
