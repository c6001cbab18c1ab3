import CpuAffinity.Proofs.OperationRuns

/-!
# Steps that only look

Reading makes the one call that the platform has for it, and counting the processors makes
one call as well. Neither changes the affinity of the host or the CPUs that may be used:
all that a failure leaves behind is its code.
-/

namespace CpuAffinity

open ThreadSession (step)

/-- Two hosts with the same affinity and the same CPUs that may be used. -/
structure Host.SameAffinity (h h' : Host) : Prop where
  mask : h'.mask = h.mask
  possible : h'.possible = h.possible

/-- The call that reads the affinity, on platforms that have one. -/
def Platform.readCall : Platform → Option Call
  | linux => some (.pthreadGetAffinity 128)
  | android => some (.schedGetAffinity 128)
  | windows => some .getThreadGroupAffinity
  | unsupported => none

namespace MaskCalls

variable {h : Host}

/-- A read on a host that does not fail gives its affinity. -/
theorem step_get_of_none (family : Family) (hread : h.readError = none) :
    step family.platform h (.perform .get) =
      (⟨.ok (.cpus (CpuId.ascending h.mask.members)), [family.getCall], [], h.mask⟩, h) := by
  rw [ThreadSession.step_get, Platform.getAffinity, Thread.runOn_reporting, platform_read,
    read_of_none family hread]
  rfl

/-- A read that fails with code zero gives no CPU. -/
theorem step_get_of_zero (family : Family) (hread : h.readError = some 0) :
    step family.platform h (.perform .get) =
      (⟨.ok (.cpus []), [family.getCall], [], (family.failed 0 h).mask⟩, family.failed 0 h) := by
  rw [ThreadSession.step_get, Platform.getAffinity, Thread.runOn_reporting, platform_read,
    read_of_some family hread]
  rfl

/-- A read that fails with any other code fails. -/
theorem step_get_of_some (family : Family) {code : Int32} (hread : h.readError = some code)
    (hcode : code ≠ 0) :
    step family.platform h (.perform .get) =
      (⟨.error (.errorCode code), [family.getCall], [.readFailed (.errorCode code)],
          (family.failed code h).mask⟩, family.failed code h) := by
  have hstatus : status code = .error (.errorCode code) := if_neg hcode
  rw [ThreadSession.step_get, Platform.getAffinity, Thread.runOn_reporting, platform_read,
    read_of_some family hread, hstatus]
  rfl

/-- A read makes one call, and at most leaves behind what a failed call does. -/
theorem step_get_frame (family : Family) (h : Host) :
    (step family.platform h (.perform .get)).1.calls = [family.getCall] ∧
      ∃ code, (step family.platform h (.perform .get)).2 = family.failed code h := by
  obtain hread | ⟨code, hread⟩ := h.readError.eq_none_or_eq_some
  · rw [step_get_of_none family hread]
    refine ⟨rfl, h.errno, ?_⟩
    cases family <;> rfl
  · by_cases hcode : code = 0
    · rw [hcode] at hread
      rw [step_get_of_zero family hread]
      exact ⟨rfl, 0, rfl⟩
    · rw [step_get_of_some family hread hcode]
      exact ⟨rfl, code, rfl⟩

end MaskCalls

namespace GroupCalls

variable {h : Host}

/-- A read on a host that does not fail gives the word's members. -/
theorem step_get_of_none (hread : h.readError = none) :
    step .windows h (.perform .get) =
      (⟨.ok (.cpus (CpuId.ascending (GroupWord.members (Host.groupWord h.mask)))),
          [.getThreadGroupAffinity], [], h.mask⟩, h) := by
  rw [ThreadSession.step_get, Platform.getAffinity, Thread.runOn_reporting, Platform.read,
    read_of_none hread]
  rfl

/-- A read that fails keeps the affinity and leaves its code behind. -/
theorem step_get_of_some {code : Int32} (hread : h.readError = some code) :
    step .windows h (.perform .get) =
      (⟨.error (.errorCode code), [.getThreadGroupAffinity], [.readFailed (.errorCode code)],
          h.mask⟩, { h with lastError := code.toUInt32 }) := by
  rw [ThreadSession.step_get, Platform.getAffinity, Thread.runOn_reporting, Platform.read,
    read_of_some hread]
  rfl

end GroupCalls

namespace ThreadSession

/-- A read makes the platform's call for it and no other. -/
theorem step_get_calls (p : Platform) (h : Host) :
    (step p h (.perform .get)).1.calls = p.readCall.toList := by
  cases p with
  | linux => exact (MaskCalls.step_get_frame .pthread h).1
  | android => exact (MaskCalls.step_get_frame .sched h).1
  | windows =>
    obtain hread | ⟨code, hread⟩ := h.readError.eq_none_or_eq_some
    · rw [GroupCalls.step_get_of_none hread]
      rfl
    · rw [GroupCalls.step_get_of_some hread]
      rfl
  | unsupported => rfl

/-- A read by mask calls keeps the affinity. -/
theorem step_get_same_of_family (family : MaskCalls.Family) (h : Host) :
    h.SameAffinity (step family.platform h (.perform .get)).2 := by
  obtain ⟨code, hhost⟩ := (MaskCalls.step_get_frame family h).2
  rw [hhost]
  exact ⟨family.failed_mask code h, family.failed_possible code h⟩

/-- A read keeps the affinity. -/
theorem step_get_same (p : Platform) (h : Host) :
    h.SameAffinity (step p h (.perform .get)).2 := by
  cases p with
  | linux => exact step_get_same_of_family .pthread h
  | android => exact step_get_same_of_family .sched h
  | windows =>
    obtain hread | ⟨code, hread⟩ := h.readError.eq_none_or_eq_some
    · rw [GroupCalls.step_get_of_none hread]
      exact ⟨rfl, rfl⟩
    · rw [GroupCalls.step_get_of_some hread]
      exact ⟨rfl, rfl⟩
  | unsupported => exact ⟨rfl, rfl⟩

/-- A count keeps the affinity. -/
theorem step_count_same (p : Platform) (h : Host) :
    h.SameAffinity (step p h (.perform .count)).2 := by
  rw [step_count]
  cases p with
  | linux | android =>
    rw [Platform.processorCount, MaskCalls.processorCount_runOn]
    exact ⟨rfl, rfl⟩
  | windows =>
    rw [Platform.processorCount, GroupCalls.processorCount_runOn]
    exact ⟨rfl, rfl⟩
  | unsupported => exact ⟨rfl, rfl⟩

end ThreadSession

end CpuAffinity
