import CpuAffinity.Proofs.OperationRuns

/-!
# Who decides a failure

An index that the platform's calls cannot name is refused before any call, for the first such
index of the list: the host is left alone, and it cannot change the outcome. Everything else
is decided by the host, and a failure is then a code. Where the platform has no calls, every
operation fails as not supported, whatever it is asked for.
-/

namespace CpuAffinity

/-- The number of CPUs that the platform's calls can name, if it has such calls. -/
def Platform.capacity : Platform → Option ℕ
  | linux | android => some maskCapacity
  | windows => some GroupWord.capacity
  | unsupported => none

/-- The host decides a result that is a success or a failure with a code. -/
def DecidedByHost {α : Type} (result : Except AffinityError α) : Prop :=
  ∀ e, result = .error e → ∃ code, e = .errorCode code

namespace DecidedByHost

variable {α β : Type}

/-- The host may decide for success. -/
theorem ok (a : α) : DecidedByHost (.ok a) := by
  intro e he
  cases he

/-- The host may decide for a failure with a code. -/
theorem errorCode (code : Int32) : DecidedByHost (.error (.errorCode code) : Except _ α) := by
  intro e he
  cases he
  exact ⟨code, rfl⟩

/-- A status is decided by the host. -/
theorem status (code : Int32) : DecidedByHost (MaskCalls.status code) := by
  unfold MaskCalls.status
  split
  · exact ok ()
  · exact errorCode code

/-- Converting its value leaves a result decided by the host. -/
theorem map {result : Except AffinityError α} (hresult : DecidedByHost result) (f : α → β) :
    DecidedByHost (result.map f) := by
  cases result with
  | ok a => exact ok (f a)
  | error e =>
    obtain ⟨code, rfl⟩ := hresult e rfl
    exact errorCode code

/-- A result that the host decides is not a refusal. -/
theorem ne_outOfRange {result : Except AffinityError α} (hresult : DecidedByHost result)
    (cpu capacity : ℕ) : result ≠ .error (.outOfRange cpu capacity) := by
  intro he
  obtain ⟨code, hcode⟩ := hresult _ he
  cases hcode

/-- A result that the host decides does not deny support. -/
theorem ne_platformNotSupported {result : Except AffinityError α} (hresult : DecidedByHost result) :
    result ≠ .error .platformNotSupported := by
  intro he
  obtain ⟨code, hcode⟩ := hresult _ he
  cases hcode

end DecidedByHost

namespace Platform

variable {p : Platform} {capacity : ℕ} {cpus : List CpuId} {cpu : CpuId}

/-- The platforms of mask calls can name as many CPUs as a mask holds. -/
@[simp]
theorem capacity_family (family : MaskCalls.Family) : family.platform.capacity = some maskCapacity := by
  cases family <;> rfl

/-- A platform with a capacity has calls. -/
theorem ne_unsupported (hp : p.capacity = some capacity) : p ≠ .unsupported := by
  rintro rfl
  cases hp

/-- A list with an index that the calls cannot name is refused for the first such index,
without a call. -/
theorem apply_of_beyond (hp : p.capacity = some capacity)
    (hfind : cpus.find? (CpuId.beyond capacity) = some cpu) (t : Trace) :
    (p.apply cpus).runOn t = (.error (.outOfRange cpu.index capacity), t) := by
  induction p using MaskCalls.platform_cases with
  | family family =>
    rw [capacity_family] at hp
    cases hp
    rw [MaskCalls.platform_apply]
    exact MaskCalls.apply_of_beyond family hfind t
  | windows =>
    cases hp
    exact GroupCalls.apply_of_beyond hfind t
  | unsupported => cases hp

/-- Any other request is decided by the host. -/
theorem apply_decidedByHost (hp : p.capacity = some capacity)
    (hcpus : ∀ cpu ∈ cpus, cpu.index < capacity) (h : Host) :
    DecidedByHost ((p.apply cpus).runOn { host := h }).1 := by
  induction p using MaskCalls.platform_cases with
  | family family =>
    rw [capacity_family] at hp
    cases hp
    rw [MaskCalls.platform_apply]
    rcases hset : h.restrict (.ofMembers (CpuId.indices cpus)) with code | granted
    · rw [MaskCalls.apply_of_error family hcpus hset]
      exact .status code
    · rw [MaskCalls.apply_of_ok family hcpus hset]
      exact .ok ()
  | windows =>
    cases hp
    obtain ⟨word, hword, -⟩ := GroupWord.ofCpus_of_forall_lt hcpus
    rcases hset : h.restrictGroup word with code | granted
    · rw [apply, GroupCalls.apply_of_error hword hset]
      exact .errorCode code.toInt32
    · by_cases hprevious : Host.groupWord h.mask = 0#64
      · rw [apply, GroupCalls.apply_of_ok_of_zero hword hset hprevious]
        exact .errorCode granted.lastError.toInt32
      · rw [apply, GroupCalls.apply_of_ok hword hset hprevious]
        exact .ok ()
  | unsupported => cases hp

/-- Without calls there is no request that succeeds. -/
theorem capacity_of_apply_ok {t t' : Trace} (happly : (p.apply cpus).runOn t = (.ok (), t')) :
    ∃ capacity, p.capacity = some capacity := by
  cases p with
  | linux | android | windows => exact ⟨_, rfl⟩
  | unsupported => cases happly

/-- Reads are decided by the host. -/
theorem read_decidedByHost (hp : p.capacity = some capacity) (h : Host) :
    DecidedByHost (p.read.runOn { host := h }).1 := by
  induction p using MaskCalls.platform_cases with
  | family family =>
    rw [MaskCalls.platform_read]
    obtain hread | ⟨code, hread⟩ := h.readError.eq_none_or_eq_some
    · rw [MaskCalls.read_of_none family hread]
      exact .ok _
    · rw [MaskCalls.read_of_some family hread]
      exact (DecidedByHost.status code).map _
  | windows =>
    obtain hread | ⟨code, hread⟩ := h.readError.eq_none_or_eq_some
    · rw [read, GroupCalls.read_of_none hread]
      exact .ok _
    · rw [read, GroupCalls.read_of_some hread]
      exact .errorCode code
  | unsupported => cases hp

/-- Reads with their warnings are decided by the host. -/
theorem getAffinity_decidedByHost (hp : p.capacity = some capacity) (h : Host) :
    DecidedByHost (p.getAffinity.runOn { host := h }).1 := by
  rw [getAffinity, Thread.runOn_reporting_result]
  exact read_decidedByHost hp h

/-- Counts are decided by the host. -/
theorem processorCount_decidedByHost (hp : p.capacity = some capacity) (h : Host) :
    DecidedByHost (p.processorCount.runOn { host := h }).1 := by
  cases p with
  | linux | android =>
    rw [processorCount, MaskCalls.processorCount_runOn]
    simp only
    split
    · exact .ok _
    · exact .errorCode _
  | windows =>
    rw [processorCount, GroupCalls.processorCount_runOn]
    simp only
    split
    · exact .errorCode _
    · exact .ok _
  | unsupported => cases hp

end Platform

namespace ThreadSession

variable {p : Platform} {capacity : ℕ} {h : Host} {operation : Operation} {cpus : List CpuId}
  {cpu : CpuId}

/-- An operation that requests an index beyond the capacity is refused for the first such
index. It makes no call and leaves the host as it was. -/
theorem step_of_beyond (hp : p.capacity = some capacity) (hcpus : operation.requested = some cpus)
    (hfind : cpus.find? (CpuId.beyond capacity) = some cpu) :
    (step p h (.perform operation)).1.result = .error (.outOfRange cpu.index capacity) ∧
      (step p h (.perform operation)).1.calls = [] ∧ (step p h (.perform operation)).2 = h := by
  have happly := Platform.apply_of_beyond hp hfind { host := h }
  cases operation with
  | get | count => cases hcpus
  | set cpus =>
    cases hcpus
    rw [step_set_of_error happly]
    exact ⟨rfl, rfl, rfl⟩
  | pin cpu =>
    cases hcpus
    rw [step_pin_of_error happly]
    exact ⟨rfl, rfl, rfl⟩

/-- Any other operation is decided by the host. -/
theorem step_decidedByHost (hp : p.capacity = some capacity)
    (hcpus : ∀ cpus ∈ operation.requested, ∀ cpu ∈ cpus, cpu.index < capacity) :
    DecidedByHost (step p h (.perform operation)).1.result := by
  have hget (left : Host) : DecidedByHost (step p left (.perform .get)).1.result := by
    rw [step_get]
    exact (Platform.getAffinity_decidedByHost hp left).map _
  cases operation with
  | get => exact hget h
  | set cpus =>
    have hresult := Platform.apply_decidedByHost hp (hcpus cpus rfl) h
    rcases happly : (p.apply cpus).runOn { host := h } with ⟨result, t⟩
    rw [happly] at hresult
    cases result with
    | error e =>
      rw [step_set_of_error happly]
      exact hresult.map fun _ => Answer.done
    | ok =>
      rw [(step_set_of_ok happly).1]
      exact hget t.host
  | pin cpu =>
    have hresult := Platform.apply_decidedByHost hp (hcpus [cpu] rfl) h
    rcases happly : (p.apply [cpu]).runOn { host := h } with ⟨result, t⟩
    rw [happly] at hresult
    cases result with
    | error e =>
      rw [step_pin_of_error happly]
      exact hresult.map fun _ => Answer.done
    | ok =>
      rw [step_pin_of_ok happly]
      exact .ok _
  | count =>
    rw [step_count]
    exact (Platform.processorCount_decidedByHost hp h).map _

/-- How an operation ends where the calls can name so many CPUs: with a refusal exactly when
it requests an index beyond them, and never for want of support. -/
structure RangeFirst (capacity : ℕ) (h : Host) (operation : Operation) (left : Record × Host) :
    Prop where
  outOfRange_iff : (∃ cpu n, left.1.result = .error (.outOfRange cpu n)) ↔
    ∃ cpus ∈ operation.requested, ∃ cpu ∈ cpus, capacity ≤ cpu.index
  first : ∀ cpus ∈ operation.requested, ∀ cpu, cpus.find? (CpuId.beyond capacity) = some cpu →
    left.1.result = .error (.outOfRange cpu.index capacity) ∧ left.1.calls = [] ∧ left.2 = h
  supported : left.1.result ≠ .error .platformNotSupported

/-- Where there are calls, the range of the request is checked first, and the host decides
whatever passes the check. -/
theorem step_rangeFirst (hp : p.capacity = some capacity) (h : Host) (operation : Operation) :
    RangeFirst capacity h operation (step p h (.perform operation)) := by
  by_cases hrange : ∃ cpus ∈ operation.requested, ∃ cpu ∈ cpus, capacity ≤ cpu.index
  · obtain ⟨cpus, hcpus, cpu, hcpu, hbeyond⟩ := hrange
    obtain ⟨first, hfirst⟩ := CpuId.find?_beyond_of_mem hcpu hbeyond
    have hresult := (step_of_beyond (h := h) hp hcpus hfirst).1
    refine ⟨⟨fun _ => ⟨cpus, hcpus, cpu, hcpu, hbeyond⟩, fun _ => ⟨_, _, hresult⟩⟩, ?_, ?_⟩
    · intro cpus' hcpus' cpu' hfind
      exact step_of_beyond hp hcpus' hfind
    · rw [hresult]
      intro he
      cases he
  · have hcpus : ∀ cpus ∈ operation.requested, ∀ cpu ∈ cpus, cpu.index < capacity := by
      intro cpus hcpus cpu hcpu
      by_contra hbeyond
      exact hrange ⟨cpus, hcpus, cpu, hcpu, Nat.le_of_not_lt hbeyond⟩
    have hdecided := step_decidedByHost (h := h) hp hcpus
    refine ⟨⟨?_, fun hbeyond => absurd hbeyond hrange⟩, ?_, hdecided.ne_platformNotSupported⟩
    · rintro ⟨cpu, n, hresult⟩
      exact absurd hresult (hdecided.ne_outOfRange cpu n)
    · intro cpus hmem cpu hfind
      exact step_of_beyond hp hmem hfind

/-- The host as it is left by a step that only changes it from outside. -/
def Step.configured (h : Host) : Step → Host
  | .perform _ => h
  | .configure change => h.change change

/-- The record of an operation that fails as not supported, without a call. -/
def Step.FailsUnsupported : Step → Record → Prop
  | .perform _, r => r.result = .error .platformNotSupported ∧ r.calls = []
  | .configure _, _ => True

/-- Without calls, a step fails as not supported and leaves the host as it was, unless it only
changes the host from outside. -/
theorem step_unsupported (h : Host) (s : Step) :
    s.FailsUnsupported (step .unsupported h s).1 ∧ (step .unsupported h s).2 = s.configured h := by
  cases s with
  | perform operation => cases operation <;> exact ⟨⟨rfl, rfl⟩, rfl⟩
  | configure change => exact ⟨trivial, rfl⟩

/-- So does every step of a session. -/
theorem run_unsupported (h : Host) (steps : List Step) :
    List.Forall₂ Step.FailsUnsupported steps (run .unsupported h steps).1 ∧
      (run .unsupported h steps).2 = steps.foldl Step.configured h := by
  induction steps generalizing h with
  | nil => exact ⟨.nil, rfl⟩
  | cons s rest ih =>
    obtain ⟨hrecord, hhost⟩ := step_unsupported h s
    obtain ⟨hrecords, hrest⟩ := ih (step .unsupported h s).2
    refine ⟨.cons hrecord hrecords, ?_⟩
    rw [List.foldl_cons, ← hhost]
    exact hrest

/-- An operation is refused exactly when it requests an index that the platform's calls cannot
name, for the first such index, before any call, and with the host left as it was; nothing
else is refused so, and no such platform denies support. Where there are no calls, every
operation of every session fails as not supported and changes nothing. -/
theorem range_checked_before_calls :
    (∀ (p : Platform) (capacity : ℕ), p.capacity = some capacity →
      ∀ (h : Host) (operation : Operation),
        RangeFirst capacity h operation (step p h (.perform operation))) ∧
      ∀ (h : Host) (steps : List Step),
        List.Forall₂ Step.FailsUnsupported steps (run .unsupported h steps).1 ∧
          (run .unsupported h steps).2 = steps.foldl Step.configured h := by
  refine ⟨?_, run_unsupported⟩
  intro p capacity hp h operation
  exact step_rangeFirst hp h operation

/-- Of CPUs three, sixty-four and two thousand, a group cannot name sixty-four, whatever the
host would have made of the others. -/
theorem sixty_four_refused_before_calls :
    Platform.windows.capacity = some 64 ∧
      let h : Host := { writeError := some 5, lastError := 7 }
      (step .windows h (.perform (.set [⟨3⟩, ⟨64⟩, ⟨2000⟩]))).1.result = .error (.outOfRange 64 64) ∧
        (step .windows h (.perform (.set [⟨3⟩, ⟨64⟩, ⟨2000⟩]))).1.calls = [] ∧
        (step .windows h (.perform (.set [⟨3⟩, ⟨64⟩, ⟨2000⟩]))).2 = h := by
  have hcapacity : Platform.windows.capacity = some 64 := rfl
  refine ⟨hcapacity, ?_⟩
  intro h
  have hrange := range_checked_before_calls.1 .windows 64 hcapacity h (.set [⟨3⟩, ⟨64⟩, ⟨2000⟩])
  exact hrange.first _ rfl ⟨64⟩ (by decide)

end ThreadSession

end CpuAffinity
