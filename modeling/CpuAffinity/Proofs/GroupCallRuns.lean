import CpuAffinity.Proofs.GroupMembers
import CpuAffinity.Proofs.ThreadRuns
import Mathlib.Algebra.Group.Int.Defs

/-!
# What group calls do to a host

A failed group call leaves its code in the last error, which carries every signed code
unchanged. A request that the host grants stores the word in any case; it succeeds only
where the previous word was not zero, and otherwise fails with whatever the last error was.
-/

namespace CpuAffinity

namespace GroupCalls

variable {h : Host}

/-- The failure carries the last error of the host. -/
@[simp]
theorem failWithLastError_runOn {α : Type} (t : Trace) :
    (failWithLastError : Thread α).runOn t = (.error (.errorCode t.host.lastError.toInt32), t) := rfl

/-- Reading gives the members of the group's word. -/
theorem read_of_none (hread : h.readError = none) :
    read.runOn { host := h } =
      (.ok (CpuId.ascending (GroupWord.members (Host.groupWord h.mask))),
        ⟨h, [.getThreadGroupAffinity], []⟩) := by
  have hperform : h.perform .getThreadGroupAffinity = (some (Host.groupWord h.mask), h) := by
    simp only [Host.perform, Host.read, hread]
  rw [read, Thread.runOn_call_bind, hperform, ← GroupWord.toCpus_eq_ascending]
  rfl

/-- A failed read is a failure with its code, zero included. -/
theorem read_of_some {code : Int32} (hread : h.readError = some code) :
    read.runOn { host := h } =
      (.error (.errorCode code),
        ⟨{ h with lastError := code.toUInt32 }, [.getThreadGroupAffinity], []⟩) := by
  have hperform : h.perform .getThreadGroupAffinity =
      (none, { h with lastError := code.toUInt32 }) := by
    simp only [Host.perform, Host.read, hread]
  rw [read, Thread.runOn_call_bind, hperform]
  change failWithLastError.runOn _ = _
  rw [failWithLastError_runOn, Int32.toInt32_toUInt32]
  rfl

/-- A list with a CPU beyond the group is refused for the first such CPU without a call. -/
theorem apply_of_beyond {cpus : List CpuId} {cpu : CpuId}
    (hfind : cpus.find? (CpuId.beyond GroupWord.capacity) = some cpu) (t : Trace) :
    (apply cpus).runOn t = (.error (.outOfRange cpu.index GroupWord.capacity), t) := by
  rw [apply, GroupWord.ofCpus, GroupWord.setAll_of_beyond 0#64 hfind]
  rfl

section Request

variable {cpus : List CpuId} {word : BitVec 64} (hword : GroupWord.ofCpus cpus = .ok word)
include hword

/-- Any other list requests its word, and goes by the previous word that the call answers. -/
theorem apply_runOn (t : Trace) :
    (apply cpus).runOn t =
      (if (t.host.perform (.setThreadAffinityMask word)).1 = 0#64 then failWithLastError
        else return ()).runOn
        ⟨(t.host.perform (.setThreadAffinityMask word)).2,
          t.calls ++ [.setThreadAffinityMask word], t.events⟩ := by
  rw [apply, hword, Thread.runOn_bind_ok (Thread.runOn_ofExcept _ _), Thread.runOn_call_bind]

/-- A request that the host refuses is a failure with the host's code. -/
theorem apply_of_error {code : UInt32} (hset : h.restrictGroup word = .error code) :
    (apply cpus).runOn { host := h } =
      (.error (.errorCode code.toInt32),
        ⟨{ h with lastError := code }, [.setThreadAffinityMask word], []⟩) := by
  have hperform : h.perform (.setThreadAffinityMask word) = (0#64, { h with lastError := code }) := by
    simp only [Host.perform, hset]
  rw [apply_runOn hword, hperform, if_pos rfl, failWithLastError_runOn]
  rfl

/-- A granted request succeeds where the previous word was not zero. -/
theorem apply_of_ok {granted : Host} (hset : h.restrictGroup word = .ok granted)
    (hprevious : Host.groupWord h.mask ≠ 0#64) :
    (apply cpus).runOn { host := h } =
      (.ok (), ⟨granted, [.setThreadAffinityMask word], []⟩) := by
  have hperform : h.perform (.setThreadAffinityMask word) = (Host.groupWord h.mask, granted) := by
    simp only [Host.perform, hset]
  rw [apply_runOn hword, hperform, if_neg hprevious]
  rfl

/-- A granted request fails with the last error where the previous word was zero. -/
theorem apply_of_ok_of_zero {granted : Host} (hset : h.restrictGroup word = .ok granted)
    (hprevious : Host.groupWord h.mask = 0#64) :
    (apply cpus).runOn { host := h } =
      (.error (.errorCode granted.lastError.toInt32),
        ⟨granted, [.setThreadAffinityMask word], []⟩) := by
  have hperform : h.perform (.setThreadAffinityMask word) = (Host.groupWord h.mask, granted) := by
    simp only [Host.perform, hset]
  rw [apply_runOn hword, hperform, if_pos hprevious, failWithLastError_runOn]
  rfl

end Request

/-- The low half of a signed count, as an unsigned number, is the count modulo `2 ^ 32`. -/
theorem toNat_toUInt32_eq_emod (n : Int64) : (n.toUInt64.toUInt32.toNat : ℤ) = n.toInt % 2 ^ 32 := by
  have hword : n.toUInt64.toNat = n.toBitVec.toNat := rfl
  have hsigned : n.toInt = n.toBitVec.toInt := rfl
  rw [UInt64.toNat_toUInt32, hword, hsigned, BitVec.toInt_eq_toNat_cond]
  split <;> omega

/-- Counting answers the low half of the count, and fails with the code that it left when
that half is zero. -/
theorem processorCount_runOn (h : Host) :
    processorCount.runOn { host := h } =
      (if h.processors.toUInt64.toUInt32 = 0 then .error (.errorCode h.processorsError)
        else .ok h.processors.toUInt64.toUInt32.toNat,
        ⟨{ h with lastError := h.processorsError.toUInt32 },
          [.getActiveProcessorCount allProcessorGroups], []⟩) := by
  rw [processorCount, Thread.runOn_call_bind]
  change (if h.processors.toUInt64.toUInt32 = 0 then _ else _ : Thread ℕ).runOn _ = _
  split
  · rw [failWithLastError_runOn, Host.perform, Int32.toInt32_toUInt32]
    rfl
  · rfl

end GroupCalls

end CpuAffinity
