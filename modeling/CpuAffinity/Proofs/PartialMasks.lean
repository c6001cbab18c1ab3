import CpuAffinity.Mask.Session
import CpuAffinity.Proofs.MaskScans
import CpuAffinity.Proofs.PartialOperations

/-!
# Masks over partial operations

The operations of a mask are written over bit operations that take any index and have no value
beyond the capacity. Each of them looks at an index before it reaches a bit, or scans indices
below the capacity, so each completes with what the mask's own operation gives. So does every
session over masks, for every receiver, whatever the words are and whatever indices are asked for.
-/

namespace CpuAffinity

/-- A state whose bits are selected and looked up by partial operations. -/
class PartialSelection (σ : Type) where
  /-- Select one CPU more, without looking at its index. -/
  select (s : σ) (cpu : ℕ) : Partial σ
  /-- Look one CPU up. -/
  lookUp (s : σ) (cpu : ℕ) : Partial Bool

namespace PartialSelection

section Derived

variable {σ : Type} [PartialSelection σ]

/-- Select a CPU, refusing an index that no mask holds before the selection is reached. -/
def insert (s : σ) (cpu : ℕ) : Partial (Except AffinityError Unit × σ) :=
  if maskCapacity ≤ cpu then return (.error (.outOfRange cpu maskCapacity), s)
  else return (.ok (), ← select s cpu)

/-- Count the selected CPUs among all that a mask holds, in ascending order. -/
def count (s : σ) : Partial ℕ :=
  return (← (List.range maskCapacity).filterM (lookUp s)).length

end Derived

/-- A look-up reaches a bit only after the index was found below the capacity. -/
instance : PartialSelection Words where
  select := Partial.setBit
  lookUp w cpu := if cpu < maskCapacity then Partial.testBit w cpu else return false

instance : PartialSelection Mask where
  select m cpu := return .ofWords (← select m.words cpu)
  lookUp m cpu := lookUp m.words cpu

end PartialSelection

/-- A selection whose partial operations complete with what its own operations give: selecting
does below the capacity, and looking up, which leaves the selection alone, for every index. -/
class CompletingSelection (σ : Type) [CpuSelection σ] [PartialSelection σ] : Prop where
  select (s : σ) (cpu : Fin maskCapacity) :
    (PartialSelection.select s cpu.val).Completes (CpuSelection.select s cpu)
  lookUp (s : σ) (cpu : ℕ) :
    (PartialSelection.lookUp s cpu).Completes (CpuSelection.lookUp s cpu).1
  lookUp_state (s : σ) (cpu : ℕ) : (CpuSelection.lookUp s cpu).2 = s

namespace CompletingSelection

section Derived

variable {σ : Type} [CpuSelection σ] [PartialSelection σ] [CompletingSelection σ]

/-- Checked insertion completes for every index. -/
theorem insert_completes (s : σ) (cpu : ℕ) :
    (PartialSelection.insert s cpu).Completes (CpuSelection.insert s cpu) := by
  rw [PartialSelection.insert]
  by_cases h : cpu < maskCapacity
  · rw [CpuSelection.insert_of_lt s h, if_neg (Nat.not_le.mpr h)]
    exact (select s ⟨cpu, h⟩).map _
  · have hge := Nat.le_of_not_lt h
    rw [CpuSelection.insert_of_ge s hge, if_pos hge]
    exact .pure _

/-- Counting completes. -/
theorem count_completes (s : σ) : (PartialSelection.count s).Completes (CpuSelection.count s).1 := by
  have hlookUp (cpu : ℕ) :
      CpuSelection.lookUp s cpu = ((CpuSelection.lookUp s cpu).1, s) :=
    Prod.ext rfl (lookUp_state s cpu)
  have hcount : (CpuSelection.count s).1 =
      ((List.range maskCapacity).filter fun cpu => (CpuSelection.lookUp s cpu).1).length := by
    rw [CpuSelection.count, CpuSelection.tally_eq_countP hlookUp, ← List.countP_eq_length_filter]
  have hscan : ((List.range maskCapacity).filterM (PartialSelection.lookUp s)).Completes
      ((List.range maskCapacity).filter fun cpu => (CpuSelection.lookUp s cpu).1) :=
    .filterM fun cpu _ => lookUp s cpu
  rw [PartialSelection.count, hcount]
  exact hscan.map List.length

end Derived

instance : CompletingSelection Words where
  select := Partial.Completes.setBit
  lookUp w cpu := by
    change (if cpu < maskCapacity then Partial.testBit w cpu else return false).Completes
      (w.contains cpu)
    by_cases h : cpu < maskCapacity
    · rw [if_pos h, Words.contains_of_lt w h]
      exact Partial.Completes.testBit w ⟨cpu, h⟩
    · rw [if_neg h, Words.contains_of_ge w (Nat.le_of_not_lt h)]
      exact .pure false
  lookUp_state _ _ := rfl

instance : CompletingSelection Mask where
  select m cpu := (select m.words cpu).map Mask.ofWords
  lookUp m cpu := lookUp m.words cpu
  lookUp_state _ _ := rfl

end CompletingSelection

namespace PartialMask

/-- Add a CPU, refusing an index that no mask holds. -/
def insert (m : Mask) (cpu : ℕ) : Partial (Except AffinityError Unit × Mask) := do
  let (result, words) ← PartialSelection.insert m.words cpu
  return (result, .ofWords words)

/-- Whether the mask holds a CPU. -/
def contains (m : Mask) (cpu : ℕ) : Partial Bool := PartialSelection.lookUp m.words cpu

/-- Whether the mask holds no CPU; the scan ends with the first CPU found. -/
def isEmpty (m : Mask) : Partial Bool :=
  return !(← (List.range maskCapacity).anyM (contains m))

/-- The CPUs of the mask in ascending order. -/
def toList (m : Mask) : Partial (List CpuId) :=
  return (← (List.range maskCapacity).filterM (contains m)).map CpuId.mk

/-- The CPUs of the mask among some indices, up to a limit; the scan ends when it is met. -/
def takeFrom (m : Mask) : ℕ → List ℕ → Partial (List CpuId)
  | 0, _ | _, [] => return []
  | limit + 1, cpu :: rest => do
    if ← contains m cpu then return ⟨cpu⟩ :: (← takeFrom m limit rest)
    else takeFrom m (limit + 1) rest

/-- Whether two masks hold the same CPUs; the scan ends with the first difference. -/
def beq (a b : Mask) : Partial Bool :=
  (List.range maskCapacity).allM fun cpu => return (← contains a cpu) == (← contains b cpu)

/-- The outline of a mask lists the indices it holds. -/
def outline (m : Mask) : Partial Outline :=
  return .set ((← toList m).map fun cpu => toString cpu.index)

/-- Insert the CPUs of a list until one is refused; the refused one has been taken. -/
def buildOn (m : Mask) (taken : ℕ) : List CpuId → Partial Mask.Build
  | [] => return ⟨.ok m, taken⟩
  | cpu :: rest => do
    match ← insert m cpu.index with
    | (.ok _, m) => buildOn m (taken + 1) rest
    | (.error e, _) => return ⟨.error e, taken + 1⟩

/-- Build a mask from a list of CPUs. -/
def build (cpus : List CpuId) : Partial Mask.Build := buildOn .empty 0 cpus

/-- Checked insertion completes for every index. -/
theorem insert_completes (m : Mask) (cpu : ℕ) : (insert m cpu).Completes (m.insert cpu) :=
  (CompletingSelection.insert_completes m.words cpu).map _

/-- A look-up completes for every index. -/
theorem contains_completes (m : Mask) (cpu : ℕ) : (contains m cpu).Completes (m.contains cpu) :=
  CompletingSelection.lookUp m.words cpu

/-- The test for emptiness completes. -/
theorem isEmpty_completes (m : Mask) : (isEmpty m).Completes m.isEmpty := by
  have hscan : ((List.range maskCapacity).anyM (contains m)).Completes
      ((List.range maskCapacity).any m.contains) :=
    .anyM fun cpu _ => contains_completes m cpu
  rw [isEmpty, Mask.isEmpty]
  exact hscan.map (! ·)

/-- Enumeration completes. -/
theorem toList_completes (m : Mask) : (toList m).Completes m.toList := by
  have hscan : ((List.range maskCapacity).filterM (contains m)).Completes
      ((List.range maskCapacity).filter m.contains) :=
    .filterM fun cpu _ => contains_completes m cpu
  rw [toList, Mask.toList]
  exact hscan.map (List.map CpuId.mk)

/-- Enumeration up to a limit completes with the first CPUs of the whole enumeration. -/
theorem takeFrom_completes (m : Mask) (limit : ℕ) (indices : List ℕ) :
    (takeFrom m limit indices).Completes (((indices.filter m.contains).map CpuId.mk).take limit) := by
  induction indices generalizing limit with
  | nil =>
    rw [List.filter_nil, List.map_nil, List.take_nil]
    cases limit <;> exact .pure []
  | cons cpu rest ih =>
    cases limit with
    | zero => exact .pure []
    | succ limit =>
      rw [takeFrom]
      apply (contains_completes m cpu).bind
      cases hcpu : m.contains cpu with
      | true =>
        rw [List.filter_cons_of_pos hcpu, List.map_cons, List.take_succ_cons]
        exact (ih limit).map _
      | false =>
        rw [List.filter_cons_of_neg (by rw [hcpu]; exact Bool.false_ne_true)]
        exact ih (limit + 1)

/-- Comparison completes. -/
theorem beq_completes (a b : Mask) : (beq a b).Completes (a == b) := by
  change (beq a b).Completes
    ((List.range maskCapacity).all fun cpu => a.contains cpu == b.contains cpu)
  rw [beq]
  apply Partial.Completes.allM
  intro cpu _
  exact (contains_completes a cpu).bind ((contains_completes b cpu).map _)

/-- The outline completes. -/
theorem outline_completes (m : Mask) : (outline m).Completes m.outline :=
  (toList_completes m).map _

/-- Building on a mask completes for every list, whether a CPU is refused or not. -/
theorem buildOn_completes (m : Mask) (taken : ℕ) (cpus : List CpuId) :
    (buildOn m taken cpus).Completes (m.buildOn taken cpus) := by
  induction cpus generalizing m taken with
  | nil => exact .pure _
  | cons cpu rest ih =>
    rw [buildOn, Mask.buildOn]
    apply (insert_completes m cpu.index).bind
    rcases m.insert cpu.index with ⟨result, m'⟩
    cases result with
    | ok => exact ih m' (taken + 1)
    | error e => exact .pure _

/-- Building completes for every list. -/
theorem build_completes (cpus : List CpuId) : (build cpus).Completes (Mask.build cpus) :=
  buildOn_completes .empty 0 cpus

section Session

open MaskSession (Slots Receiver Action Reply Step Record)

/-- Insert a CPU through a receiver. -/
def insertVia (m : Mask) (cpu : ℕ) : Receiver → Partial (Except AffinityError Unit × Mask)
  | .mask => insert m cpu
  | .selection => PartialSelection.insert m cpu
  | .words => do
    let (result, words) ← PartialSelection.insert m.words cpu
    return (result, .ofWords words)

/-- Select a CPU through a receiver. -/
def selectVia (m : Mask) (cpu : ℕ) : Receiver → Partial Mask
  | .mask | .words => return .ofWords (← PartialSelection.select m.words cpu)
  | .selection => PartialSelection.select m cpu

/-- Look a CPU up through a receiver. -/
def containsVia (m : Mask) (cpu : ℕ) : Receiver → Partial Bool
  | .mask => contains m cpu
  | .selection => PartialSelection.lookUp m cpu
  | .words => PartialSelection.lookUp m.words cpu

/-- Count a mask's CPUs through a receiver. -/
def countVia (m : Mask) : Receiver → Partial ℕ
  | .mask | .words => PartialSelection.count m.words
  | .selection => PartialSelection.count m

/-- Carry out an action on a mask, given all masks of the session. -/
def act (slots : Slots) (m : Mask) : Action → Partial (Reply × Mask)
  | .build cpus => do
    let b ← build cpus
    return (.ofBuild b, match b.result with
      | .ok built => built
      | .error _ => m)
  | .insert via cpu => do
    let (result, m) ← insertVia m cpu via
    return (.ofInsert result, m)
  | .select via cpu => return (.done, ← selectVia m cpu.val via)
  | .selectInWords cpu => return (.done, .ofWords (← Partial.setBit m.words cpu.val))
  | .contains via cpu => return (.truth (← containsVia m cpu via), m)
  | .count via => return (.number (← countVia m via), m)
  | .isEmpty => return (.truth (← isEmpty m), m)
  | .toList => return (.cpus (← toList m), m)
  | .first limit => do
    let cpus ← takeFrom m limit (List.range maskCapacity)
    return (.names (cpus.map CpuId.display), m)
  | .oneLine => return (.text (← outline m).oneLine, m)
  | .multiLine => return (.text (← outline m).multiLine, m)
  | .compare other => do
    let other := slots.get other
    return (.comparison (← beq m other) (!(← beq m other)), m)
  -- What is left takes or clears whole masks and reaches no single bit.
  | action => return MaskSession.act slots m action

/-- Carry out one step. The mask that it leaves is loaded into its slot. -/
def step (slots : Slots) (s : Step) : Partial (Record × Slots) := do
  let (reply, m) ← act slots (slots.get s.slot) s.action
  return (⟨reply, m.words⟩, (MaskSession.step slots ⟨s.slot, .load m.words⟩).2)

/-- Carry out steps in order. -/
def run (slots : Slots) : List Step → Partial (List Record × Slots)
  | [] => return ([], slots)
  | s :: rest => do
    let (record, slots) ← step slots s
    let (records, slots) ← run slots rest
    return (record :: records, slots)

/-- Checked insertion completes for every index and receiver. -/
theorem insertVia_completes (m : Mask) (cpu : ℕ) (via : Receiver) :
    (insertVia m cpu via).Completes (MaskSession.insert m cpu via) := by
  cases via with
  | mask => exact insert_completes m cpu
  | selection => exact CompletingSelection.insert_completes m cpu
  | words => exact (CompletingSelection.insert_completes m.words cpu).map _

/-- Below the capacity, selection completes for every receiver. -/
theorem selectVia_completes (m : Mask) (cpu : Fin maskCapacity) (via : Receiver) :
    (selectVia m cpu.val via).Completes (MaskSession.select m cpu via) := by
  cases via with
  | mask | words => exact (CompletingSelection.select m.words cpu).map Mask.ofWords
  | selection => exact CompletingSelection.select m cpu

/-- A look-up completes for every index and receiver. -/
theorem containsVia_completes (m : Mask) (cpu : ℕ) (via : Receiver) :
    (containsVia m cpu via).Completes (MaskSession.contains m cpu via) := by
  cases via with
  | mask => exact contains_completes m cpu
  | selection => exact CompletingSelection.lookUp m cpu
  | words => exact CompletingSelection.lookUp m.words cpu

/-- Counting completes for every receiver. -/
theorem countVia_completes (m : Mask) (via : Receiver) :
    (countVia m via).Completes (MaskSession.count m via) := by
  cases via with
  | mask | words => exact CompletingSelection.count_completes m.words
  | selection => exact CompletingSelection.count_completes m

/-- Every action on a mask completes. -/
theorem act_completes (slots : Slots) (m : Mask) (action : Action) :
    (act slots m action).Completes (MaskSession.act slots m action) := by
  cases action with
  | build cpus => exact (build_completes cpus).map _
  | insert via cpu => exact (insertVia_completes m cpu via).map _
  | select via cpu => exact (selectVia_completes m cpu via).map _
  | selectInWords cpu => exact (Partial.Completes.setBit m.words cpu).map _
  | contains via cpu => exact (containsVia_completes m cpu via).map _
  | count via => exact (countVia_completes m via).map _
  | isEmpty => exact (isEmpty_completes m).map _
  | toList => exact (toList_completes m).map _
  | first limit => exact (takeFrom_completes m limit (List.range maskCapacity)).map _
  | oneLine | multiLine => exact (outline_completes m).map _
  | compare other =>
    have hequal := beq_completes m (slots.get other)
    exact hequal.bind (hequal.map _)
  | reset | load | store | copy | clear | clearWords | capacity => exact .pure _

/-- Every step of a session over masks completes. -/
theorem step_completes (slots : Slots) (s : Step) :
    (step slots s).Completes (MaskSession.step slots s) :=
  (act_completes slots (slots.get s.slot) s.action).map _

/-- Every session over masks completes. -/
theorem run_completes (slots : Slots) (steps : List Step) :
    (run slots steps).Completes (MaskSession.run slots steps) := by
  induction steps generalizing slots with
  | nil => exact .pure _
  | cons s rest ih => exact (step_completes slots s).bind ((ih _).map _)

end Session

end PartialMask

end CpuAffinity
