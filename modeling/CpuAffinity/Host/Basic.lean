import CpuAffinity.Mask.Words

/-!
# Hosts

A host keeps the affinity of the calling thread, the CPUs it may use, and the failures it
is going to report. It refuses an affinity that would leave the thread no CPU. Failures
are codes; how a code reaches the caller is a matter of the call.
-/

namespace CpuAffinity

/-- What a host holds for the calling thread. -/
structure Host where
  /-- The CPUs that the thread may use. -/
  possible : Words := .zero
  /-- The affinity of the thread. -/
  mask : Words := .zero
  /-- The code that reading the affinity fails with, if it fails. -/
  readError : Option Int32 := none
  /-- The code that replacing the affinity fails with, if it fails. -/
  writeError : Option Int32 := none
  /-- The number of processors reported. -/
  processors : Int64 := 0
  /-- The code left behind by counting the processors. -/
  processorsError : Int32 := 0
  /-- The thread's last error, on hosts that keep one. -/
  lastError : UInt32 := 0
  /-- The thread's error number, on hosts that keep one. -/
  errno : Int32 := 0
  deriving DecidableEq

namespace Host

/-- An affinity without a CPU that may be used is an invalid argument. -/
def invalidArgument : Int32 := 22

/-- A group mask that is empty or asks for other CPUs is an invalid parameter. -/
def invalidParameter : UInt32 := 87

/-- Read the affinity. -/
def read (h : Host) : Except Int32 Words :=
  match h.readError with
  | some code => .error code
  | none => .ok h.mask

/-- Replace the affinity by those requested CPUs that may be used. -/
def restrict (h : Host) (requested : Words) : Except Int32 Host :=
  match h.writeError with
  | some code => .error code
  | none =>
    let granted := requested.inter h.possible
    if granted = .zero then .error invalidArgument else .ok { h with mask := granted }

/-- The word of the first processor group in some words. -/
def groupWord (w : Words) : BitVec 64 := w.word 0

/-- Replace the affinity within the first processor group by exactly the requested one. -/
def restrictGroup (h : Host) (requested : BitVec 64) : Except UInt32 Host :=
  match h.writeError with
  | some code => .error code.toUInt32
  | none =>
    if requested = 0#64 ∨ requested &&& ~~~groupWord h.possible ≠ 0#64 then
      .error invalidParameter
    else .ok { h with mask := h.mask.setWord 0 requested }

/-- New contents for some of a host's fields. -/
structure Change where
  possible : Option Words := none
  mask : Option Words := none
  readError : Option (Option Int32) := none
  writeError : Option (Option Int32) := none
  processors : Option Int64 := none
  processorsError : Option Int32 := none
  deriving DecidableEq

/-- Replace the given fields and keep the others, the error cells among them. -/
def change (h : Host) (c : Change) : Host :=
  { h with
    possible := c.possible.getD h.possible
    mask := c.mask.getD h.mask
    readError := c.readError.getD h.readError
    writeError := c.writeError.getD h.writeError
    processors := c.processors.getD h.processors
    processorsError := c.processorsError.getD h.processorsError }

variable {h granted : Host}

/-- Words are granted by a host that is not set to fail and finds a CPU among them that may be
used; the affinity becomes all such CPUs of them, and nothing else changes. -/
theorem restrict_eq_ok_iff {requested : Words} :
    h.restrict requested = .ok granted ↔
      h.writeError = none ∧ requested.inter h.possible ≠ .zero ∧
        granted = { h with mask := requested.inter h.possible } := by
  rw [restrict]
  cases h.writeError with
  | some code => simp
  | none => by_cases hzero : requested.inter h.possible = .zero <;> simp [hzero, eq_comm]

/-- A group word is granted by a host that is not set to fail, unless it is zero or has a bit that
no CPU that may be used has; it becomes the first word, and nothing else changes. -/
theorem restrictGroup_eq_ok_iff {requested : BitVec 64} :
    h.restrictGroup requested = .ok granted ↔
      h.writeError = none ∧ requested ≠ 0#64 ∧ requested &&& ~~~groupWord h.possible = 0#64 ∧
        granted = { h with mask := h.mask.setWord 0 requested } := by
  rw [restrictGroup]
  cases h.writeError with
  | some code => simp
  | none =>
    by_cases hzero : requested = 0#64
    · simp [hzero]
    · by_cases houtside : requested &&& ~~~groupWord h.possible = 0#64 <;>
        simp [hzero, houtside, eq_comm]

/-- The group's word is the one that was stored in the first place. -/
@[simp]
theorem groupWord_setWord (w : Words) (value : BitVec 64) :
    groupWord (w.setWord 0 value) = value :=
  w.word_setWord_self 0 value

/-- Words are recovered from the group's word and the words in the other places. -/
theorem setWord_groupWord {v w : Words} (hothers : ∀ i, i ≠ 0 → v.word i = w.word i) :
    v.setWord 0 (groupWord w) = w := by
  rw [Words.eq_iff_word]
  intro i
  by_cases hi : i = 0
  · rw [hi, Words.word_setWord_self, groupWord]
  · rw [v.word_setWord_of_ne hi, hothers i hi]

end Host

end CpuAffinity
