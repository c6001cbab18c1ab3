import CpuAffinity.Proofs.CallEffects
import CpuAffinity.Proofs.SavedAffinity

/-!
# The affinity that is reported

The list that a read or a setting answers is the affinity of the host as the platform's calls
reach it: every CPU of it, no other, each once and in ascending order. This holds wherever a
session has led, after a request that was cut down as well. Where a mask call fails to read with
code zero, no words are written and the list is empty.
-/

namespace CpuAffinity

open ThreadSession (Step Record step run)

namespace Platform

/-- The host that a failed call leaves: the code goes to the error cell of the platform's calls,
if they have one. -/
def failed (code : Int32) (h : Host) : Platform → Host
  | linux | unsupported => h
  | android => { h with errno := code }
  | windows => { h with lastError := code.toUInt32 }

/-- What a list tells of the affinity, where reads fail with a code or do not fail. It has the
CPUs that the platform's calls reach, unless a mask call has failed with code zero. -/
structure Reported (p : Platform) (capacity : ℕ) (error : Option Int32) (mask : Words)
    (cpus : List CpuId) : Prop where
  ascending : cpus.Pairwise (· < ·)
  below : ∀ cpu ∈ cpus, cpu.index < capacity
  members : error ≠ some 0 → ∀ cpu, cpu ∈ cpus ↔ cpu.index ∈ p.visible mask
  unread : error = some 0 → p ≠ .windows ∧ cpus = []

/-- What a read does: it makes the call for it, leaves the host alone but for the error cell of a
failure, and fails when the call does, where mask calls do not count code zero as a failure. -/
structure ReadsOnly (p : Platform) (h : Host) : Prop where
  calls : ∃ call, p.readCall = some call ∧ (step p h (.perform .get)).1.calls = [call]
  success : h.readError = none → (step p h (.perform .get)).2 = h
  failure : ∀ code, h.readError = some code → (step p h (.perform .get)).2 = p.failed code h
  fails_iff : (∃ e, (step p h (.perform .get)).1.result = .error e) ↔
    ∃ code, h.readError = some code ∧ (p = .windows ∨ code ≠ 0)

variable {p : Platform} {capacity : ℕ} {h : Host}

/-- The platform of a family keeps the code of a failure where the family's calls do. -/
@[simp]
theorem failed_family (family : MaskCalls.Family) (code : Int32) (h : Host) :
    family.platform.failed code h = family.failed code h := by
  cases family <;> rfl

/-- The platform of a family has mask calls. -/
@[simp]
theorem family_ne_windows (family : MaskCalls.Family) : family.platform ≠ .windows := by
  cases family <;> simp [MaskCalls.Family.platform]

/-- The platform's calls reach CPUs below the capacity only. -/
theorem lt_of_mem_visible (hp : p.capacity = some capacity) {w : Words} {cpu : ℕ}
    (hcpu : cpu ∈ p.visible w) : cpu < capacity := by
  induction p using MaskCalls.platform_cases with
  | family family =>
    obtain rfl : maskCapacity = capacity := by simpa using hp
    exact Words.lt_of_mem_members (by simpa using hcpu)
  | windows =>
    cases hp
    exact Finset.mem_range.mp (GroupWord.members_subset_range _ hcpu)
  | unsupported => cases hp

/-- The ascending list of the CPUs that the platform's calls reach tells the affinity. -/
theorem reported_ascending (hp : p.capacity = some capacity) (w : Words) :
    p.Reported capacity none w (CpuId.ascending (p.visible w)) where
  ascending := CpuId.ascending_pairwise _
  below cpu hcpu := lt_of_mem_visible hp (by simpa using hcpu)
  members _ := by simp
  unread hzero := by cases hzero

/-- The empty list is reported where mask calls fail to read with code zero. -/
theorem reported_nil (family : MaskCalls.Family) (w : Words) :
    family.platform.Reported capacity (some 0) w [] where
  ascending := .nil
  below := by simp
  members hzero := absurd rfl hzero
  unread _ := ⟨family_ne_windows family, rfl⟩

/-- By mask calls, a read leaves the host alone but for a failure's code, and fails unless the
code is zero. -/
theorem readsOnly_family (family : MaskCalls.Family) (h : Host) : family.platform.ReadsOnly h := by
  obtain ⟨call, hcall, -⟩ := readCall_of_capacity (capacity_family family)
  have hcalls : (step family.platform h (.perform .get)).1.calls = [call] := by
    rw [ThreadSession.step_get_calls, hcall, Option.toList_some]
  obtain hread | ⟨code, hread⟩ := h.readError.eq_none_or_eq_some
  · have hstep := MaskCalls.step_get_of_none family hread
    refine ⟨⟨call, hcall, hcalls⟩, ?_, ?_, ?_⟩ <;> simp [hstep, hread]
  · by_cases hzero : code = 0
    · rw [hzero] at hread
      have hstep := MaskCalls.step_get_of_zero family hread
      refine ⟨⟨call, hcall, hcalls⟩, ?_, ?_, ?_⟩ <;>
        simp [hstep, hread]
    · have hstep := MaskCalls.step_get_of_some family hread hzero
      refine ⟨⟨call, hcall, hcalls⟩, ?_, ?_, ?_⟩ <;> simp [hstep, hread, hzero]

/-- By group calls, a read leaves the host alone but for a failure's code, and fails with any. -/
theorem readsOnly_windows (h : Host) : windows.ReadsOnly h := by
  have hcalls := ThreadSession.step_get_calls .windows h
  obtain hread | ⟨code, hread⟩ := h.readError.eq_none_or_eq_some
  · have hstep := GroupCalls.step_get_of_none hread
    refine ⟨⟨_, rfl, hcalls⟩, ?_, ?_, ?_⟩ <;> simp [hstep, hread]
  · have hstep := GroupCalls.step_get_of_some hread
    refine ⟨⟨_, rfl, hcalls⟩, ?_, ?_, ?_⟩ <;> simp [hstep, hread, failed]

/-- Where there are calls, a read does what it is to do. -/
theorem readsOnly (hp : p.capacity = some capacity) (h : Host) : p.ReadsOnly h := by
  induction p using MaskCalls.platform_cases with
  | family family => exact readsOnly_family family h
  | windows => exact readsOnly_windows h
  | unsupported => cases hp

end Platform

namespace ThreadSession

variable {p : Platform} {capacity : ℕ} {h : Host} {cpus : List CpuId}

/-- The list that a read answers tells the affinity. -/
theorem step_get_reported (hp : p.capacity = some capacity)
    (hresult : (step p h (.perform .get)).1.result = .ok (.cpus cpus)) :
    p.Reported capacity h.readError (step p h (.perform .get)).1.mask cpus := by
  have hmask : (step p h (.perform .get)).1.mask = h.mask :=
    (step_mask p h _).trans (step_get_same p h).mask
  rw [hmask]
  obtain hread | ⟨code, hread⟩ := h.readError.eq_none_or_eq_some
  · rw [step_get_of_none (Platform.ne_unsupported hp) hread] at hresult
    cases hresult
    rw [hread]
    exact Platform.reported_ascending hp h.mask
  · induction p using MaskCalls.platform_cases with
    | family family =>
      by_cases hzero : code = 0
      · rw [hzero] at hread
        rw [MaskCalls.step_get_of_zero family hread] at hresult
        cases hresult
        rw [hread]
        exact Platform.reported_nil family h.mask
      · rw [MaskCalls.step_get_of_some family hread hzero] at hresult
        cases hresult
    | windows =>
      rw [GroupCalls.step_get_of_some hread] at hresult
      cases hresult
    | unsupported => cases hp

/-- The list that a setting answers tells the affinity that the setting has left. -/
theorem step_set_reported (hp : p.capacity = some capacity) {requested : List CpuId}
    (hresult : (step p h (.perform (.set requested))).1.result = .ok (.cpus cpus)) :
    p.Reported capacity h.readError (step p h (.perform (.set requested))).1.mask cpus := by
  rcases happly : (p.apply requested).runOn { host := h } with ⟨e | _, t⟩
  · rw [step_set_of_error happly] at hresult
    cases hresult
  · obtain ⟨hread, -, hhost⟩ := step_set_of_ok happly
    obtain ⟨-, hleft, -⟩ := (p.apply_adds requested).fresh happly
    have herror : t.host.readError = h.readError := by
      rw [hleft, Host.performAll_readError]
    rw [hread] at hresult
    rw [step_mask, hhost, ← step_mask, ← herror]
    exact step_get_reported hp hresult

/-- Only reads and settings answer lists. -/
theorem step_of_answered_cpus {s : Step} (hresult : (step p h s).1.result = .ok (.cpus cpus)) :
    s = .perform .get ∨ ∃ requested, s = .perform (.set requested) := by
  cases s with
  | configure change => cases hresult
  | perform operation =>
    cases operation with
    | get => exact .inl rfl
    | set requested => exact .inr ⟨requested, rfl⟩
    | pin cpu =>
      rw [step_pin] at hresult
      rcases hpin : ((p.pin cpu).runOn { host := h }).1 with e | _ <;> rw [hpin] at hresult <;>
        cases hresult
    | count =>
      rw [step_count] at hresult
      rcases hcount : (p.processorCount.runOn { host := h }).1 with e | n <;>
        rw [hcount] at hresult <;> cases hresult

/-- Wherever a session has led, the list that a step answers is the affinity of the host as the
platform's calls reach it, in ascending order and below the capacity; where a mask call fails
to read with code zero, the list is empty. A read makes one call, changes at most the error
cell, and fails exactly when the call does, code zero of a mask call apart. -/
theorem reported_affinity_is_real (p : Platform) (capacity : ℕ) (hp : p.capacity = some capacity)
    (h : Host) :
    (∀ (steps : List Step) (n : ℕ) (r : Record) (cpus : List CpuId),
      (run p h steps).1[n]? = some r → r.result = .ok (.cpus cpus) →
        p.Reported capacity (run p h (steps.take n)).2.readError r.mask cpus) ∧
      p.ReadsOnly h := by
  refine ⟨fun steps n r cpus hr hresult => ?_, Platform.readsOnly hp h⟩
  rw [run_getElem?, Option.map_eq_some_iff] at hr
  obtain ⟨s, -, rfl⟩ := hr
  obtain rfl | ⟨requested, rfl⟩ := step_of_answered_cpus hresult
  · exact step_get_reported hp hresult
  · exact step_set_reported hp hresult

/-- A request that was cut down is answered with the two CPUs that are left, each once and in
order; a later read that fails with code zero is answered with no CPU. -/
theorem reported_after_partial_grant :
    let h : Host := { possible := ⟨.replicate 16 7#64⟩ }
    let steps : List Step := [.perform (.set [⟨70⟩, ⟨65⟩, ⟨2⟩, ⟨65⟩]),
      .configure { readError := some (some 0) }, .perform .get]
    Platform.linux.capacity = some maskCapacity ∧ Platform.linux.ReadsOnly h ∧
      (∃ r, (run .linux h steps).1[0]? = some r ∧ r.result = .ok (.cpus [⟨2⟩, ⟨65⟩]) ∧
        Platform.linux.Reported maskCapacity none r.mask [⟨2⟩, ⟨65⟩]) ∧
      ∃ r, (run .linux h steps).1[2]? = some r ∧ r.result = .ok (.cpus []) ∧
        Platform.linux.Reported maskCapacity (some 0) r.mask [] := by
  intro h steps
  obtain ⟨hreported, hreads⟩ := reported_affinity_is_real .linux maskCapacity rfl h
  have hset : (step .linux h (.perform (.set [⟨70⟩, ⟨65⟩, ⟨2⟩, ⟨65⟩]))).1.result =
      .ok (.cpus [⟨2⟩, ⟨65⟩]) := by decide +kernel
  have hget : (step .linux (run .linux h (steps.take 2)).2 (.perform .get)).1.result =
      .ok (.cpus []) := by decide +kernel
  exact ⟨rfl, hreads, ⟨_, rfl, hset, hreported steps 0 _ _ rfl hset⟩,
    ⟨_, rfl, hget, hreported steps 2 _ _ rfl hget⟩⟩

end ThreadSession

end CpuAffinity
