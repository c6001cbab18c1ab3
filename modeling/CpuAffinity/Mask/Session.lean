import CpuAffinity.Mask.Basic

/-!
# Sessions over four masks

A session keeps four masks in slots and carries out steps on them one after another. Each
step names the slot it acts on, and answers with a reply and the words of that slot
afterwards. Where an operation exists for the mask, for the mask as a selection, and for
its words as a selection, the step chooses the receiver.
-/

namespace CpuAffinity

namespace MaskSession

/-- One of the four places that hold a mask. -/
abbrev Slot := Fin 4

/-- The masks of a session. -/
abbrev Slots := Vector Mask 4

/-- Every slot starts with the empty mask. -/
def start : Slots := Vector.replicate 4 Mask.empty

/-- What an operation is asked of. -/
inductive Receiver where
  /-- The mask itself. -/
  | mask
  /-- The mask, as a selection. -/
  | selection
  /-- The words under the mask, as a selection. -/
  | words
  deriving DecidableEq, Repr

/-- What a step does with the mask of its slot. -/
inductive Action where
  /-- Put the empty mask there. -/
  | reset
  /-- Build a mask from CPUs; a refusal keeps the old one. -/
  | build (cpus : List CpuId)
  /-- Put the mask held by these words there. -/
  | load (words : Words)
  /-- Read the words. -/
  | store
  /-- Put the mask of another slot there. -/
  | copy (source : Slot)
  | clear (via : Receiver)
  | insert (via : Receiver) (cpu : Nat)
  | select (via : Receiver) (cpu : Fin maskCapacity)
  /-- Clear the words in place. -/
  | clearWords
  /-- Set a CPU's bit in the words in place. -/
  | selectInWords (cpu : Fin maskCapacity)
  | contains (via : Receiver) (cpu : Nat)
  | count (via : Receiver)
  | isEmpty
  | capacity
  | toList
  /-- Enumerate the mask up to a limit. -/
  | first (limit : Nat)
  | oneLine
  | multiLine
  /-- Compare with the mask of another slot. -/
  | compare (other : Slot)
  deriving DecidableEq

/-- What a step answers. -/
inductive Reply where
  | done
  | refused (error : AffinityError)
  | built (refusal : Option AffinityError) (taken : Nat)
  | words (words : Words)
  | truth (value : Bool)
  | number (value : Nat)
  | cpus (cpus : List CpuId)
  | names (names : List String)
  | text (text : String)
  | comparison (equal unequal : Bool)
  deriving DecidableEq

/-- An insertion answers its refusal. -/
def Reply.ofInsert : Except AffinityError Unit → Reply
  | .ok _ => .done
  | .error e => .refused e

/-- A build answers its refusal and how many CPUs it took. -/
def Reply.ofBuild (b : Mask.Build) : Reply :=
  match b.result with
  | .ok _ => .built none b.taken
  | .error e => .built (some e) b.taken

/-- Clear a mask through a receiver. -/
def clear (m : Mask) : Receiver → Mask
  | .mask => m.clear
  | .selection => CpuSelection.clear m
  | .words => .ofWords (CpuSelection.clear m.words)

/-- Insert a CPU through a receiver. -/
def insert (m : Mask) (cpu : Nat) : Receiver → Except AffinityError Unit × Mask
  | .mask => m.insert cpu
  | .selection => CpuSelection.insert m cpu
  | .words =>
    let (result, words) := CpuSelection.insert m.words cpu
    (result, .ofWords words)

/-- Select a CPU through a receiver. -/
def select (m : Mask) (cpu : Fin maskCapacity) : Receiver → Mask
  | .mask => m.select cpu
  | .selection => CpuSelection.select m cpu
  | .words => .ofWords (CpuSelection.select m.words cpu)

/-- Look a CPU up through a receiver. -/
def contains (m : Mask) (cpu : Nat) : Receiver → Bool
  | .mask => m.contains cpu
  | .selection => (CpuSelection.lookUp m cpu).1
  | .words => (CpuSelection.lookUp m.words cpu).1

/-- Count a mask's CPUs through a receiver. -/
def count (m : Mask) : Receiver → Nat
  | .mask => m.count
  | .selection => (CpuSelection.count m).1
  | .words => (CpuSelection.count m.words).1

/-- Carry out an action on a mask, given all masks of the session. -/
def act (slots : Slots) (m : Mask) : Action → Reply × Mask
  | .reset => (.done, .empty)
  | .build cpus =>
    let b := Mask.build cpus
    (.ofBuild b, match b.result with
      | .ok built => built
      | .error _ => m)
  | .load words => (.done, .ofWords words)
  | .store => (.words m.words, m)
  | .copy source => (.done, slots[source])
  | .clear via => (.done, clear m via)
  | .insert via cpu =>
    let (result, m) := insert m cpu via
    (.ofInsert result, m)
  | .select via cpu => (.done, select m cpu via)
  | .clearWords => (.done, .ofWords m.words.clear)
  | .selectInWords cpu => (.done, .ofWords (m.words.select cpu))
  | .contains via cpu => (.truth (contains m cpu via), m)
  | .count via => (.number (count m via), m)
  | .isEmpty => (.truth m.isEmpty, m)
  | .capacity => (.number m.capacity, m)
  | .toList => (.cpus m.toList, m)
  | .first limit => (.names ((m.toList.take limit).map CpuId.display), m)
  | .oneLine => (.text m.outline.oneLine, m)
  | .multiLine => (.text m.outline.multiLine, m)
  | .compare other => (.comparison (m == slots[other]) (m != slots[other]), m)

/-- A step acts on the mask of one slot. -/
structure Step where
  slot : Slot
  action : Action
  deriving DecidableEq

/-- A step leaves its reply and the words of its slot. -/
structure Record where
  reply : Reply
  words : Words
  deriving DecidableEq

/-- Carry out one step. -/
def step (slots : Slots) (s : Step) : Record × Slots :=
  let (reply, m) := act slots slots[s.slot] s.action
  (⟨reply, m.words⟩, slots.set s.slot m)

/-- Carry out steps in order. -/
def run (slots : Slots) : List Step → List Record × Slots
  | [] => ([], slots)
  | s :: rest =>
    let (record, slots) := step slots s
    let (records, slots) := run slots rest
    (record :: records, slots)

/-- A step changes no slot but its own. -/
theorem step_getElem_of_ne (slots : Slots) (s : Step) (other : Slot) (h : other ≠ s.slot) :
    (step slots s).2[other] = slots[other] := by
  have hval : ¬ s.slot.val = other.val := fun hv => h (Fin.ext hv.symm)
  simp [step, hval]

end MaskSession

end CpuAffinity
