import CpuAffinity.Proofs.GroupCallRuns
import CpuAffinity.Proofs.MaskCallRuns

/-!
# Running affinity operations

An operation is put together from the platform's read and request. Setting goes on to read
only after a request that succeeded, and pinning never reads. What follows a request is
the same whatever was called before it: the read-back is the read of a later step.
-/

namespace CpuAffinity

open Thread (Local)

namespace MaskCalls

/-- Asking for a mask is local. -/
theorem getMask_local (family : Family) : Local (getMask family) := by
  cases family with
  | pthread => exact (Local.call _).bind fun _ => Local.pure _
  | sched =>
    apply (Local.call _).bind
    rintro ⟨code, written⟩
    change Local (if code = 0 then _ else _)
    split
    · exact Local.pure _
    · exact Local.errno.bind fun _ => Local.pure _

/-- Checking a code is local. -/
theorem check_local (code : Int32) : Local (check code) := by
  unfold check
  split
  · exact Local.pure _
  · exact Local.fail _

/-- Reading by mask calls is local. -/
theorem read_local (family : Family) : Local (read family) :=
  (getMask_local family).bind fun _ => (check_local _).bind fun _ => Local.pure _

end MaskCalls

namespace GroupCalls

/-- Failing with the last error is local. -/
theorem failWithLastError_local {α : Type} : Local (failWithLastError : Thread α) :=
  Local.lastError.bind fun _ => Local.fail _

/-- Reading by group calls is local. -/
theorem read_local : Local read := by
  apply (Local.call _).bind
  intro word
  cases word with
  | some word => exact Local.pure _
  | none => exact failWithLastError_local

end GroupCalls

namespace Platform

/-- Reading is local on every platform. -/
theorem read_local (p : Platform) : Local p.read := by
  cases p with
  | linux => exact MaskCalls.read_local .pthread
  | android => exact MaskCalls.read_local .sched
  | windows => exact GroupCalls.read_local
  | unsupported => exact Local.fail _

/-- Reading with its warning is local. -/
theorem getAffinity_local (p : Platform) : Local p.getAffinity := p.read_local.reporting _

variable {p : Platform} {cpus : List CpuId} {cpu : CpuId} {h : Host} {t : Trace} {e : AffinityError}

/-- Setting ends with a request that fails. -/
theorem setAffinity_of_error (happly : (p.apply cpus).runOn { host := h } = (.error e, t)) :
    (p.setAffinity cpus).runOn { host := h } =
      (.error e, ⟨t.host, t.calls, t.events ++ [.applyFailed cpus e]⟩) := by
  have hreporting : ((p.apply cpus).reporting (.applyFailed cpus)).runOn { host := h } =
      (.error e, ⟨t.host, t.calls, t.events ++ [.applyFailed cpus e]⟩) := by
    rw [Thread.runOn_reporting, happly]
  rw [setAffinity, Thread.runOn_bind_error hreporting]

/-- Setting goes on from a request that succeeds as a read of the host that it left. -/
theorem setAffinity_of_ok (happly : (p.apply cpus).runOn { host := h } = (.ok (), t)) :
    (p.setAffinity cpus).runOn { host := h } =
      match p.getAffinity.runOn { host := t.host } with
      | (.ok effective, t') => (.ok effective,
          ⟨t'.host, t.calls ++ t'.calls, t.events ++ t'.events ++ [.applied cpus effective]⟩)
      | (.error e, t') => (.error e, t.after t') := by
  have hreporting : ((p.apply cpus).reporting (.applyFailed cpus)).runOn { host := h } =
      (.ok (), t) := by
    rw [Thread.runOn_reporting, happly]
  rw [setAffinity, Thread.runOn_bind_ok hreporting, Thread.runOn_bind, p.getAffinity_local t]
  rcases p.getAffinity.runOn { host := t.host } with ⟨result, t'⟩
  cases result <;> rfl

/-- Pinning fails as the request does. -/
theorem pin_of_error (happly : (p.apply [cpu]).runOn { host := h } = (.error e, t)) :
    (p.pin cpu).runOn { host := h } =
      (.error e, ⟨t.host, t.calls, t.events ++ [.pinFailed cpu e]⟩) := by
  have hreporting : ((p.apply [cpu]).reporting (.pinFailed cpu)).runOn { host := h } =
      (.error e, ⟨t.host, t.calls, t.events ++ [.pinFailed cpu e]⟩) := by
    rw [Thread.runOn_reporting, happly]
  rw [pin, Thread.runOn_bind_error hreporting]

/-- Pinning ends with a request that succeeds. -/
theorem pin_of_ok (happly : (p.apply [cpu]).runOn { host := h } = (.ok (), t)) :
    (p.pin cpu).runOn { host := h } = (.ok (), ⟨t.host, t.calls, t.events ++ [.pinned cpu]⟩) := by
  have hreporting : ((p.apply [cpu]).reporting (.pinFailed cpu)).runOn { host := h } =
      (.ok (), t) := by
    rw [Thread.runOn_reporting, happly]
  rw [pin, Thread.runOn_bind_ok hreporting, Thread.runOn_report]

end Platform

/-- The list of CPUs that an operation requests, if it requests any. -/
def Operation.requested : Operation → Option (List CpuId)
  | get | count => none
  | set cpus => some cpus
  | pin cpu => some [cpu]

namespace ThreadSession

variable {p : Platform} {cpus : List CpuId} {cpu : CpuId} {h : Host} {t : Trace} {e : AffinityError}

/-- A step that reads shows the run of the read. -/
theorem step_get (p : Platform) (h : Host) :
    step p h (.perform .get) =
      (⟨(p.getAffinity.runOn { host := h }).1.map .cpus, (p.getAffinity.runOn { host := h }).2.calls,
          (p.getAffinity.runOn { host := h }).2.events,
          (p.getAffinity.runOn { host := h }).2.host.mask⟩,
        (p.getAffinity.runOn { host := h }).2.host) := by
  rw [step, Operation.action, Thread.runOn_bind_pure]

/-- A step that reads answers the list that the read gives. -/
theorem step_get_of_ok (hread : p.read.runOn { host := h } = (.ok cpus, t)) :
    step p h (.perform .get) = (⟨.ok (.cpus cpus), t.calls, t.events, t.host.mask⟩, t.host) := by
  rw [step_get, Platform.getAffinity, Thread.runOn_reporting, hread]
  rfl

/-- A step that reads fails as the read does. -/
theorem step_get_of_error (hread : p.read.runOn { host := h } = (.error e, t)) :
    step p h (.perform .get) =
      (⟨.error e, t.calls, t.events ++ [.readFailed e], t.host.mask⟩, t.host) := by
  rw [step_get, Platform.getAffinity, Thread.runOn_reporting, hread]
  rfl

/-- A step that sets shows the run of the setting. -/
theorem step_set (p : Platform) (h : Host) (cpus : List CpuId) :
    step p h (.perform (.set cpus)) =
      (⟨((p.setAffinity cpus).runOn { host := h }).1.map .cpus,
          ((p.setAffinity cpus).runOn { host := h }).2.calls,
          ((p.setAffinity cpus).runOn { host := h }).2.events,
          ((p.setAffinity cpus).runOn { host := h }).2.host.mask⟩,
        ((p.setAffinity cpus).runOn { host := h }).2.host) := by
  rw [step, Operation.action, Thread.runOn_bind_pure]

/-- A step whose request fails ends there. -/
theorem step_set_of_error (happly : (p.apply cpus).runOn { host := h } = (.error e, t)) :
    step p h (.perform (.set cpus)) =
      (⟨.error e, t.calls, t.events ++ [.applyFailed cpus e], t.host.mask⟩, t.host) := by
  rw [step_set, Platform.setAffinity_of_error happly]
  rfl

/-- A step whose request succeeds goes on as a step that reads. -/
theorem step_set_of_ok (happly : (p.apply cpus).runOn { host := h } = (.ok (), t)) :
    (step p h (.perform (.set cpus))).1.result = (step p t.host (.perform .get)).1.result ∧
      (step p h (.perform (.set cpus))).1.calls =
        t.calls ++ (step p t.host (.perform .get)).1.calls ∧
      (step p h (.perform (.set cpus))).2 = (step p t.host (.perform .get)).2 := by
  rw [step_set, step_get, Platform.setAffinity_of_ok happly]
  rcases p.getAffinity.runOn { host := t.host } with ⟨result, t'⟩
  cases result <;> exact ⟨rfl, rfl, rfl⟩

/-- A step whose request succeeds answers the list that the read behind it gives. -/
theorem step_set_of_read_ok {effective : List CpuId} {t' : Trace}
    (happly : (p.apply cpus).runOn { host := h } = (.ok (), t))
    (hread : p.read.runOn { host := t.host } = (.ok effective, t')) :
    step p h (.perform (.set cpus)) =
      (⟨.ok (.cpus effective), t.calls ++ t'.calls,
          t.events ++ t'.events ++ [.applied cpus effective], t'.host.mask⟩, t'.host) := by
  rw [step_set, Platform.setAffinity_of_ok happly, Platform.getAffinity, Thread.runOn_reporting, hread]
  rfl

/-- A step whose request succeeds fails as the read behind it does. -/
theorem step_set_of_read_error {t' : Trace}
    (happly : (p.apply cpus).runOn { host := h } = (.ok (), t))
    (hread : p.read.runOn { host := t.host } = (.error e, t')) :
    step p h (.perform (.set cpus)) =
      (⟨.error e, t.calls ++ t'.calls, t.events ++ (t'.events ++ [.readFailed e]), t'.host.mask⟩,
        t'.host) := by
  rw [step_set, Platform.setAffinity_of_ok happly, Platform.getAffinity, Thread.runOn_reporting, hread]
  rfl

/-- A step that pins shows the run of the pinning. -/
theorem step_pin (p : Platform) (h : Host) (cpu : CpuId) :
    step p h (.perform (.pin cpu)) =
      (⟨((p.pin cpu).runOn { host := h }).1.map fun _ => .done,
          ((p.pin cpu).runOn { host := h }).2.calls,
          ((p.pin cpu).runOn { host := h }).2.events,
          ((p.pin cpu).runOn { host := h }).2.host.mask⟩,
        ((p.pin cpu).runOn { host := h }).2.host) := by
  rw [step, Operation.action, Thread.runOn_bind_pure]

/-- A step that pins fails as its request does. -/
theorem step_pin_of_error (happly : (p.apply [cpu]).runOn { host := h } = (.error e, t)) :
    step p h (.perform (.pin cpu)) =
      (⟨.error e, t.calls, t.events ++ [.pinFailed cpu e], t.host.mask⟩, t.host) := by
  rw [step_pin, Platform.pin_of_error happly]
  rfl

/-- A step that pins is done when its request is. -/
theorem step_pin_of_ok (happly : (p.apply [cpu]).runOn { host := h } = (.ok (), t)) :
    step p h (.perform (.pin cpu)) =
      (⟨.ok .done, t.calls, t.events ++ [.pinned cpu], t.host.mask⟩, t.host) := by
  rw [step_pin, Platform.pin_of_ok happly]
  rfl

/-- A step that counts shows the run of the count. -/
theorem step_count (p : Platform) (h : Host) :
    step p h (.perform .count) =
      (⟨(p.processorCount.runOn { host := h }).1.map .number,
          (p.processorCount.runOn { host := h }).2.calls,
          (p.processorCount.runOn { host := h }).2.events,
          (p.processorCount.runOn { host := h }).2.host.mask⟩,
        (p.processorCount.runOn { host := h }).2.host) := by
  rw [step, Operation.action, Thread.runOn_bind_pure]

end ThreadSession

end CpuAffinity
