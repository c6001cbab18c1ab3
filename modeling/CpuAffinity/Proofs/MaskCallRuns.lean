import CpuAffinity.Proofs.MaskScans
import CpuAffinity.Proofs.ThreadRuns

/-!
# What mask calls do to a host

Both families of mask calls read and request the affinity in the same way; they differ in
the entry points they use and in what a failed call leaves behind. A failure whose code is
zero counts as a success: a read then gives no CPU, and a request changes nothing.
-/

namespace CpuAffinity

namespace MaskCalls

namespace Family

/-- The platform whose calls are of the family. -/
def platform : Family → Platform
  | pthread => .linux
  | sched => .android

/-- The family's call that reads the affinity. -/
def getCall : Family → Call
  | pthread => .pthreadGetAffinity 128
  | sched => .schedGetAffinity 128

/-- The family's call that requests an affinity. -/
def setCall (requested : Words) : Family → Call
  | pthread => .pthreadSetAffinity 128 requested
  | sched => .schedSetAffinity 128 requested

/-- The host that a failed call of the family leaves behind. -/
def failed (code : Int32) (h : Host) : Family → Host
  | pthread => h
  | sched => { h with errno := code }

/-- A failed call keeps the affinity. -/
@[simp]
theorem failed_mask (family : Family) (code : Int32) (h : Host) :
    (family.failed code h).mask = h.mask := by
  cases family <;> rfl

/-- A failed call keeps the CPUs that may be used. -/
@[simp]
theorem failed_possible (family : Family) (code : Int32) (h : Host) :
    (family.failed code h).possible = h.possible := by
  cases family <;> rfl

/-- Of two failed calls, the later one counts. -/
@[simp]
theorem failed_failed (family : Family) (later earlier : Int32) (h : Host) :
    family.failed later (family.failed earlier h) = family.failed later h := by
  cases family <;> rfl

end Family

/-- A platform has mask calls of some family, or group calls, or no calls for the affinity. -/
@[elab_as_elim]
theorem platform_cases {motive : Platform → Prop}
    (family : ∀ family : Family, motive family.platform) (windows : motive .windows)
    (unsupported : motive .unsupported) (p : Platform) : motive p := by
  cases p with
  | linux => exact family .pthread
  | android => exact family .sched
  | windows => exact windows
  | unsupported => exact unsupported

/-- The platform of a family reads by the family's calls. -/
@[simp]
theorem platform_read (family : Family) : family.platform.read = read family := by
  cases family <;> rfl

/-- The platform of a family requests by the family's calls. -/
@[simp]
theorem platform_apply (family : Family) (cpus : List CpuId) :
    family.platform.apply cpus = apply family cpus := by
  cases family <;> rfl

/-- How a call with some code ends: zero stands for success. -/
def status (code : Int32) : Except AffinityError Unit :=
  if code = 0 then .ok () else .error (.errorCode code)

variable (family : Family) {h : Host}

/-- Checking a code fails unless it is zero. -/
@[simp]
theorem check_runOn (code : Int32) (t : Trace) : (check code).runOn t = (status code, t) := by
  unfold check status
  split <;> rfl

/-- A successful read yields the affinity and leaves the host alone. -/
theorem getMask_of_none (hread : h.readError = none) :
    (getMask family).runOn { host := h } =
      (.ok (0, .ofWords h.mask), ⟨h, [family.getCall], []⟩) := by
  cases family with
  | pthread =>
    have hperform (size : ℕ) : h.perform (.pthreadGetAffinity size) = ((0, some h.mask), h) := by
      simp only [Host.perform, Host.read, hread]
    rw [getMask, Thread.runOn_call_bind, hperform]
    rfl
  | sched =>
    have hperform (size : ℕ) : h.perform (.schedGetAffinity size) = ((0, some h.mask), h) := by
      simp only [Host.perform, Host.read, hread]
    rw [getMask, Thread.runOn_call_bind, hperform]
    rfl

/-- A failed read yields its code and writes no mask. -/
theorem getMask_of_some {code : Int32} (hread : h.readError = some code) :
    (getMask family).runOn { host := h } =
      (.ok (code, .empty), ⟨family.failed code h, [family.getCall], []⟩) := by
  cases family with
  | pthread =>
    have hperform (size : ℕ) : h.perform (.pthreadGetAffinity size) = ((code, none), h) := by
      simp only [Host.perform, Host.read, hread]
    rw [getMask, Thread.runOn_call_bind, hperform]
    rfl
  | sched =>
    have hperform (size : ℕ) :
        h.perform (.schedGetAffinity size) = ((-1, none), { h with errno := code }) := by
      simp only [Host.perform, Host.read, hread]
    rw [getMask, Thread.runOn_call_bind, hperform]
    rfl

/-- A granted request has status zero. -/
theorem setMask_of_ok (m : Mask) {granted : Host} (hset : h.restrict m.words = .ok granted) :
    (setMask m family).runOn { host := h } = (.ok 0, ⟨granted, [family.setCall m.words], []⟩) := by
  cases family with
  | pthread =>
    have hperform (size : ℕ) : h.perform (.pthreadSetAffinity size m.words) = (0, granted) := by
      simp only [Host.perform, hset]
    rw [setMask, Thread.runOn_call, hperform]
    rfl
  | sched =>
    have hperform (size : ℕ) : h.perform (.schedSetAffinity size m.words) = (0, granted) := by
      simp only [Host.perform, hset]
    rw [setMask, Thread.runOn_call_bind, hperform]
    rfl

/-- A refused request has the code as its status, wherever the call leaves it. -/
theorem setMask_of_error (m : Mask) {code : Int32} (hset : h.restrict m.words = .error code) :
    (setMask m family).runOn { host := h } =
      (.ok code, ⟨family.failed code h, [family.setCall m.words], []⟩) := by
  cases family with
  | pthread =>
    have hperform (size : ℕ) : h.perform (.pthreadSetAffinity size m.words) = (code, h) := by
      simp only [Host.perform, hset]
    rw [setMask, Thread.runOn_call, hperform]
    rfl
  | sched =>
    have hperform (size : ℕ) :
        h.perform (.schedSetAffinity size m.words) = (-1, { h with errno := code }) := by
      simp only [Host.perform, hset]
    rw [setMask, Thread.runOn_call_bind, hperform]
    rfl

/-- Reading goes by the status and the mask that were asked for. -/
theorem read_of_getMask {t t' : Trace} {code : Int32} {m : Mask}
    (hget : (getMask family).runOn t = (.ok (code, m), t')) :
    (read family).runOn t = ((status code).map fun _ => CpuId.ascending m.words.members, t') := by
  rw [read, Thread.runOn_bind_ok hget]
  change (check code >>= fun _ => pure m.toList).runOn t' = _
  rw [Thread.runOn_bind_pure, check_runOn, Mask.toList_eq_ascending]

/-- Reading gives the members of the host's affinity. -/
theorem read_of_none (hread : h.readError = none) :
    (read family).runOn { host := h } =
      (.ok (CpuId.ascending h.mask.members), ⟨h, [family.getCall], []⟩) :=
  read_of_getMask family (getMask_of_none family hread)

/-- A failed read is a failure unless its code is zero, when it gives no CPU. -/
theorem read_of_some {code : Int32} (hread : h.readError = some code) :
    (read family).runOn { host := h } =
      ((status code).map fun _ => [], ⟨family.failed code h, [family.getCall], []⟩) := by
  rw [read_of_getMask family (getMask_of_some family hread), Mask.empty, Words.members_zero,
    CpuId.ascending_empty]

/-- A list with a CPU that no mask holds is refused for the first such CPU without a call. -/
theorem apply_of_beyond {cpus : List CpuId} {cpu : CpuId}
    (hfind : cpus.find? (CpuId.beyond maskCapacity) = some cpu) (t : Trace) :
    (apply family cpus).runOn t = (.error (.outOfRange cpu.index maskCapacity), t) := by
  rw [apply, Mask.ofCpus, Mask.build_of_refused hfind]
  rfl

/-- Any other list requests exactly its indices, and goes by the status of the request. -/
theorem apply_of_setMask {cpus : List CpuId} {t t' : Trace} {code : Int32}
    (hlt : ∀ cpu ∈ cpus, cpu.index < maskCapacity)
    (hset : (setMask (.ofWords (.ofMembers (CpuId.indices cpus))) family).runOn t = (.ok code, t')) :
    (apply family cpus).runOn t = (status code, t') := by
  rw [apply, Mask.ofCpus, Mask.build_of_forall_lt hlt,
    Thread.runOn_bind_ok (Thread.runOn_ofExcept _ _), Thread.runOn_bind_ok hset, check_runOn]

/-- A granted request succeeds. -/
theorem apply_of_ok {cpus : List CpuId} {granted : Host}
    (hlt : ∀ cpu ∈ cpus, cpu.index < maskCapacity)
    (hset : h.restrict (.ofMembers (CpuId.indices cpus)) = .ok granted) :
    (apply family cpus).runOn { host := h } =
      (.ok (), ⟨granted, [family.setCall (.ofMembers (CpuId.indices cpus))], []⟩) :=
  apply_of_setMask family hlt (setMask_of_ok family (.ofWords _) hset)

/-- A request that the host refuses is a failure unless the code is zero. -/
theorem apply_of_error {cpus : List CpuId} {code : Int32}
    (hlt : ∀ cpu ∈ cpus, cpu.index < maskCapacity)
    (hset : h.restrict (.ofMembers (CpuId.indices cpus)) = .error code) :
    (apply family cpus).runOn { host := h } =
      (status code,
        ⟨family.failed code h, [family.setCall (.ofMembers (CpuId.indices cpus))], []⟩) :=
  apply_of_setMask family hlt (setMask_of_error family (.ofWords _) hset)

/-- Counting answers a positive count, and fails with the error number that it left otherwise. -/
theorem processorCount_runOn (h : Host) :
    processorCount.runOn { host := h } =
      (if 0 < h.processors then .ok h.processors.toInt.toNat else .error (.errorCode h.processorsError),
        ⟨{ h with errno := h.processorsError }, [.sysconf], []⟩) := by
  rw [processorCount, Thread.runOn_call_bind]
  change (if 0 < h.processors then _ else _ : Thread ℕ).runOn _ = _
  split <;> rfl

end MaskCalls

end CpuAffinity
