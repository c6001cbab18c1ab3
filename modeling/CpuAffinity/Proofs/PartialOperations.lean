import CpuAffinity.Mask.Words
import Mathlib.Data.Nat.Notation

/-!
# Partial operations and what they reach

Indexing the words of a mask and shifting a word have a result only within bounds. A partial
computation is built from such operations: it keeps all of them that it reaches, in order, and
stops without a value at the first that is out of bounds. The two bit operations on the words of
a mask are written here over them, for any index. They have a value exactly below the capacity,
and there they do what the words' own operations do.
-/

namespace CpuAffinity

/-- An operation that a partial computation reaches. -/
inductive PartialOperation where
  /-- Setting the bit of a CPU in the words of a mask. -/
  | setBit (cpu : ℕ)
  /-- Testing the bit of a CPU in the words of a mask. -/
  | testBit (cpu : ℕ)
  /-- Indexing the words of a mask. -/
  | word (index : ℕ)
  /-- Shifting a word. -/
  | shift (amount : ℕ)
  deriving DecidableEq, Repr

/-- An operation is in bounds when its CPU is below the capacity, its word is one of the sixteen,
and its shift is shorter than a word. -/
def PartialOperation.InBounds : PartialOperation → Prop
  | setBit cpu | testBit cpu => cpu < maskCapacity
  | word index => index < 16
  | shift amount => amount < 64

/-- A computation over partial operations: those that it reaches, oldest first, and its value,
unless one of them has none. -/
structure Partial (α : Type) where
  reached : List PartialOperation
  value : Option α

namespace Partial

/-- Go on from the value of a computation; without a value, nothing more is reached. Scans over
all indices are built from this, and stay as they are written when terms are compared. -/
@[irreducible]
def andThen {α β : Type} (x : Partial α) (next : α → Partial β) : Partial β :=
  match x.value with
  | some a => ⟨x.reached ++ (next a).reached, (next a).value⟩
  | none => ⟨x.reached, none⟩

/-- Computations are sequenced in the order in which they reach their operations. -/
instance : Monad Partial where
  pure a := ⟨[], some a⟩
  bind := andThen

/-- From a value, the later computation goes on. -/
theorem bind_of_some {α β : Type} {x : Partial α} {a : α} (h : x.value = some a)
    (next : α → Partial β) : x >>= next = ⟨x.reached ++ (next a).reached, (next a).value⟩ := by
  change andThen x next = _
  rw [andThen, h]

/-- Without a value, the later computation is not reached. -/
theorem bind_of_none {α β : Type} {x : Partial α} (h : x.value = none) (next : α → Partial β) :
    x >>= next = ⟨x.reached, none⟩ := by
  change andThen x next = _
  rw [andThen, h]

/-- Note that a bit operation is reached, whatever its index is. -/
def reach (operation : PartialOperation) : Partial Unit := ⟨[operation], some ()⟩

/-- Shift a word to the left by less than its length. -/
def shiftLeft (x : BitVec 64) (amount : ℕ) : Partial (BitVec 64) :=
  ⟨[.shift amount], if amount < 64 then some (x <<< amount) else none⟩

/-- Shift a word to the right by less than its length. -/
def shiftRight (x : BitVec 64) (amount : ℕ) : Partial (BitVec 64) :=
  ⟨[.shift amount], if amount < 64 then some (x >>> amount) else none⟩

/-- Read one of the words. -/
def word (w : Words) (index : ℕ) : Partial (BitVec 64) :=
  ⟨[.word index], if h : index < 16 then some (w.word ⟨index, h⟩) else none⟩

/-- Replace one of the words. -/
def setWord (w : Words) (index : ℕ) (value : BitVec 64) : Partial Words :=
  ⟨[.word index], if h : index < 16 then some (w.setWord ⟨index, h⟩ value) else none⟩

/-- Set the bit of a CPU, which is bit `cpu % 64` of word `cpu / 64`, without looking at the index. -/
def setBit (w : Words) (cpu : ℕ) : Partial Words := do
  reach (.setBit cpu)
  let bit ← shiftLeft 1#64 (cpu % 64)
  let old ← word w (cpu / 64)
  setWord w (cpu / 64) (old ||| bit)

/-- Test the bit of a CPU without looking at the index. -/
def testBit (w : Words) (cpu : ℕ) : Partial Bool := do
  reach (.testBit cpu)
  let held ← word w (cpu / 64)
  let bit ← shiftLeft 1#64 (cpu % 64)
  return held &&& bit != 0#64

/-- A computation completes with a value when it has that value and everything that it reaches
is in bounds. -/
structure Completes {α : Type} (x : Partial α) (a : α) : Prop where
  value : x.value = some a
  inBounds : ∀ operation ∈ x.reached, operation.InBounds

namespace Completes

variable {α β : Type} {x : Partial α} {a : α}

/-- Returning a value reaches nothing. -/
theorem pure (a : α) : Completes (Pure.pure a) a :=
  ⟨rfl, List.forall_mem_nil _⟩

/-- One computation after another completes when both do. -/
theorem bind (hx : x.Completes a) {next : α → Partial β} {b : β} (hnext : (next a).Completes b) :
    (x >>= next).Completes b := by
  rw [bind_of_some hx.value]
  exact ⟨hnext.value, List.forall_mem_append.mpr ⟨hx.inBounds, hnext.inBounds⟩⟩

/-- Converting the value reaches nothing more. -/
theorem map (hx : x.Completes a) (f : α → β) : (x >>= fun a => Pure.pure (f a)).Completes (f a) :=
  hx.bind (.pure (f a))

/-- A completed computation has no other value. -/
theorem congr (hx : x.Completes a) {b : α} (hab : a = b) : x.Completes b := hab ▸ hx

section Scans

variable {p : α → Partial Bool} {q : α → Bool}

/-- A scan for any hit ends at the first one, and completes if the tests up to there do. -/
theorem anyM {l : List α} (h : ∀ a ∈ l, (p a).Completes (q a)) : (l.anyM p).Completes (l.any q) := by
  induction l with
  | nil => exact .pure false
  | cons a rest ih =>
    rw [List.anyM, List.any_cons]
    apply (h a List.mem_cons_self).bind
    cases q a with
    | true => exact .pure true
    | false => exact ih fun b hb => h b (List.mem_cons_of_mem a hb)

/-- A scan for a miss ends at the first one, and completes if the tests up to there do. -/
theorem allM {l : List α} (h : ∀ a ∈ l, (p a).Completes (q a)) : (l.allM p).Completes (l.all q) := by
  induction l with
  | nil => exact .pure true
  | cons a rest ih =>
    rw [List.allM, List.all_cons]
    apply (h a List.mem_cons_self).bind
    cases q a with
    | true => exact ih fun b hb => h b (List.mem_cons_of_mem a hb)
    | false => exact .pure false

/-- A scan for all hits completes if all tests do. -/
theorem filterM {l : List α} (h : ∀ a ∈ l, (p a).Completes (q a)) :
    (l.filterM p).Completes (l.filter q) := by
  -- The hits are collected in front of the earlier ones, and put in order at the end.
  have hcollect (found : List α) :
      (l.filterAuxM p found).Completes ((l.filter q).reverse ++ found) := by
    induction l generalizing found with
    | nil => exact .pure found
    | cons a rest ih =>
      rw [List.filterAuxM]
      apply (h a List.mem_cons_self).bind
      have hrest := ih fun b hb => h b (List.mem_cons_of_mem a hb)
      cases hq : q a with
      | true => simpa [hq] using hrest (a :: found)
      | false => simpa [hq] using hrest found
  refine ((hcollect []).map List.reverse).congr ?_
  rw [List.append_nil, List.reverse_reverse]

end Scans

/-- A shift by less than a word has its value. -/
theorem shiftLeft (x : BitVec 64) {amount : ℕ} (h : amount < 64) :
    (Partial.shiftLeft x amount).Completes (x <<< amount) :=
  ⟨if_pos h, List.forall_mem_singleton.mpr h⟩

/-- A shift by less than a word has its value, in the other direction too. -/
theorem shiftRight (x : BitVec 64) {amount : ℕ} (h : amount < 64) :
    (Partial.shiftRight x amount).Completes (x >>> amount) :=
  ⟨if_pos h, List.forall_mem_singleton.mpr h⟩

/-- One of the sixteen words is read. -/
theorem word (w : Words) (i : Fin 16) : (Partial.word w i.val).Completes (w.word i) :=
  ⟨dif_pos i.isLt, List.forall_mem_singleton.mpr i.isLt⟩

/-- One of the sixteen words is replaced. -/
theorem setWord (w : Words) (i : Fin 16) (value : BitVec 64) :
    (Partial.setWord w i.val value).Completes (w.setWord i value) :=
  ⟨dif_pos i.isLt, List.forall_mem_singleton.mpr i.isLt⟩

/-- A bit operation in bounds may be reached. -/
theorem reach {operation : PartialOperation} (h : operation.InBounds) :
    (Partial.reach operation).Completes () :=
  ⟨rfl, List.forall_mem_singleton.mpr h⟩

/-- Below the capacity, setting a bit selects the CPU. -/
theorem setBit (w : Words) (cpu : Fin maskCapacity) :
    (Partial.setBit w cpu.val).Completes (w.select cpu) := by
  have hbit : cpu.val % 64 < 64 := Nat.mod_lt _ (by decide)
  have hreach : PartialOperation.InBounds (.setBit cpu.val) := cpu.isLt
  apply (Completes.reach hreach).bind
  apply (Completes.shiftLeft 1#64 hbit).bind
  apply (Completes.word w (Words.wordIndex cpu)).bind
  exact Completes.setWord w (Words.wordIndex cpu) _

/-- Below the capacity, testing a bit tests the CPU. -/
theorem testBit (w : Words) (cpu : Fin maskCapacity) :
    (Partial.testBit w cpu.val).Completes (w.test cpu) := by
  have hbit : cpu.val % 64 < 64 := Nat.mod_lt _ (by decide)
  have hreach : PartialOperation.InBounds (.testBit cpu.val) := cpu.isLt
  apply (Completes.reach hreach).bind
  apply (Completes.word w (Words.wordIndex cpu)).bind
  apply (Completes.shiftLeft 1#64 hbit).bind
  exact .pure _

end Completes

/-- Setting a bit has a value exactly below the capacity: beyond it there is no such word. -/
theorem setBit_isSome_iff (w : Words) (cpu : ℕ) :
    (setBit w cpu).value.isSome = true ↔ cpu < maskCapacity := by
  by_cases h : cpu < maskCapacity
  · simp only [(Completes.setBit w ⟨cpu, h⟩).value, h, Option.isSome_some]
  · have hword : (word w (cpu / 64)).value = none := dif_neg (by unfold maskCapacity at h; omega)
    have hbit := (Completes.shiftLeft 1#64 (Nat.mod_lt cpu (by decide : 0 < 64))).value
    simp only [setBit, bind_of_some (x := reach _) rfl, bind_of_some hbit, bind_of_none hword, h,
      Option.isSome_none, Bool.false_eq_true]

-- The last CPU is the last bit of the last word, and the next one would be in a word behind it.
example :
    (setBit .zero 1023).reached = [.setBit 1023, .shift 63, .word 15, .word 15] ∧
      (setBit .zero 1024).reached = [.setBit 1024, .shift 0, .word 16] := by
  decide +kernel

/-- Testing a bit has a value exactly below the capacity. -/
theorem testBit_isSome_iff (w : Words) (cpu : ℕ) :
    (testBit w cpu).value.isSome = true ↔ cpu < maskCapacity := by
  by_cases h : cpu < maskCapacity
  · simp only [(Completes.testBit w ⟨cpu, h⟩).value, h, Option.isSome_some]
  · have hword : (word w (cpu / 64)).value = none := dif_neg (by unfold maskCapacity at h; omega)
    simp only [testBit, bind_of_some (x := reach _) rfl, bind_of_none hword, h,
      Option.isSome_none, Bool.false_eq_true]

end Partial

end CpuAffinity
