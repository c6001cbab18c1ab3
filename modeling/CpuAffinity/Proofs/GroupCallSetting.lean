import CpuAffinity.Proofs.HostRequests
import CpuAffinity.Proofs.Reading

/-!
# Setting the affinity through group calls

Setting requests the word of the list. The host refuses it, or stores it as it is; a
request is never cut down. Since the call answers the previous word, a stored request
still ends as a failure where that word was zero. Otherwise the word is read back, so
what a success answers is the list that was asked for.
-/

namespace CpuAffinity

namespace GroupCalls

open ThreadSession (Record step)

/-- A setting that the host refused: the affinity is kept, and the code is left behind. -/
structure Refused (h : Host) (requested : BitVec 64) (set : Record × Host) (code : Int32) :
    Prop where
  calls : set.1.calls = [.setThreadAffinityMask requested]
  result : set.1.result = .error (.errorCode code)
  host : set.2 = { h with lastError := code.toUInt32 }

/-- A setting that the host stored in the first word, with nothing else changed but the
last error. -/
structure Stored (h : Host) (requested : BitVec 64) (set : Record × Host) : Prop where
  word : Host.groupWord set.2.mask = requested
  others : ∀ i, i ≠ 0 → set.2.mask.word i = h.mask.word i
  host : set.2 = { h with mask := set.2.mask, lastError := set.2.lastError }

/-- A stored setting that counts as a failure without being read back. -/
structure Misreported (h : Host) (requested : BitVec 64) (set : Record × Host) : Prop
    extends Stored h requested set where
  calls : set.1.calls = [.setThreadAffinityMask requested]
  result : set.1.result = .error (.errorCode h.lastError.toInt32)
  lastError : set.2.lastError = h.lastError

/-- A stored setting that is read back. The read fails with the host's code, or gives the
list of the CPUs that were asked for. -/
structure ReadBack (h : Host) (cpus : List CpuId) (requested : BitVec 64) (set : Record × Host) :
    Prop extends Stored h requested set where
  calls : set.1.calls = [.setThreadAffinityMask requested, .getThreadGroupAffinity]
  failure : ∀ code, h.readError = some code →
    set.1.result = .error (.errorCode code) ∧ set.2.lastError = code.toUInt32
  success : h.readError = none →
    ∃ effective : List CpuId, set.1.result = .ok (.cpus effective) ∧
      effective.Pairwise (· < ·) ∧ (∀ cpu, cpu ∈ effective ↔ cpu ∈ cpus) ∧
      set.2.lastError = h.lastError

variable {h : Host} {cpus : List CpuId} {requested : BitVec 64}

/-- A request that the host refuses ends the setting. -/
theorem refused_of_error (hword : GroupWord.ofCpus cpus = .ok requested) {code : Int32}
    (hset : h.restrictGroup requested = .error code.toUInt32) :
    Refused h requested (step .windows h (.perform (.set cpus))) code := by
  have happly : (Platform.windows.apply cpus).runOn { host := h } = _ := apply_of_error hword hset
  rw [ThreadSession.step_set_of_error happly, Int32.toInt32_toUInt32]
  exact ⟨rfl, rfl, rfl⟩

/-- A host whose first word was replaced holds that word, and its other words as before. -/
theorem stored_of_host {set : Record × Host} {lastError : UInt32}
    (hhost : set.2 = { h with mask := h.mask.setWord 0 requested, lastError := lastError }) :
    Stored h requested set := by
  refine ⟨?_, fun i hi => ?_, ?_⟩
  · simp [hhost]
  · simp [hhost, hi]
  · rw [hhost]

/-- A stored request fails with the last error where the previous word was zero. -/
theorem misreported_of_ok (hword : GroupWord.ofCpus cpus = .ok requested)
    (hset : h.restrictGroup requested = .ok { h with mask := h.mask.setWord 0 requested })
    (hprevious : Host.groupWord h.mask = 0#64) :
    Misreported h requested (step .windows h (.perform (.set cpus))) := by
  have happly : (Platform.windows.apply cpus).runOn { host := h } = _ :=
    apply_of_ok_of_zero hword hset hprevious
  rw [ThreadSession.step_set_of_error happly]
  exact ⟨stored_of_host rfl, rfl, rfl, rfl⟩

/-- A stored request is read back where the previous word was not zero. -/
theorem readBack_of_ok (hword : GroupWord.ofCpus cpus = .ok requested)
    (hset : h.restrictGroup requested = .ok { h with mask := h.mask.setWord 0 requested })
    (hmembers : GroupWord.members requested = CpuId.indices cpus)
    (hprevious : Host.groupWord h.mask ≠ 0#64) :
    ReadBack h cpus requested (step .windows h (.perform (.set cpus))) := by
  have happly : (Platform.windows.apply cpus).runOn { host := h } = _ :=
    apply_of_ok hword hset hprevious
  obtain ⟨hresult, hcalls, hhost⟩ := ThreadSession.step_set_of_ok happly
  obtain hread | ⟨code, hread⟩ := h.readError.eq_none_or_eq_some
  · rw [step_get_of_none (h := { h with mask := h.mask.setWord 0 requested }) hread]
      at hresult hcalls hhost
    refine ⟨stored_of_host hhost, hcalls, fun code hsome => ?_, fun _ => ?_⟩
    · rw [hread] at hsome
      cases hsome
    · refine ⟨CpuId.ascending (CpuId.indices cpus), ?_, CpuId.ascending_pairwise _, fun cpu => ?_, ?_⟩
      · simp [hresult, hmembers]
      · simp
      · rw [hhost]
  · rw [step_get_of_some (h := { h with mask := h.mask.setWord 0 requested }) hread]
      at hresult hcalls hhost
    refine ⟨stored_of_host hhost, hcalls, fun other hsome => ?_, fun hnone => ?_⟩
    · rw [hread] at hsome
      cases hsome
      exact ⟨hresult, by rw [hhost]⟩
    · rw [hread] at hnone
      cases hnone

/-- A setting is refused, or stored without being read back, or stored and read back. -/
theorem set_ends (hword : GroupWord.ofCpus cpus = .ok requested)
    (hmembers : GroupWord.members requested = CpuId.indices cpus) :
    (∃ code, Refused h requested (step .windows h (.perform (.set cpus))) code) ∨
      Misreported h requested (step .windows h (.perform (.set cpus))) ∨
      requested ≠ 0#64 ∧ ReadBack h cpus requested (step .windows h (.perform (.set cpus))) := by
  rcases hset : h.restrictGroup requested with code | granted
  · rw [← UInt32.toUInt32_toInt32 code] at hset
    exact .inl ⟨code.toInt32, refused_of_error hword hset⟩
  · obtain ⟨hgranted, hne, -⟩ := Host.restrictGroup_eq_of_ok hset
    rw [hgranted] at hset
    by_cases hprevious : Host.groupWord h.mask = 0#64
    · exact .inr (.inl (misreported_of_ok hword hset hprevious))
    · exact .inr (.inr ⟨hne, readBack_of_ok hword hset hmembers hprevious⟩)

/-- Setting first requests the word of the list. A host that fails refuses with its code,
and a word that is empty or not allowed is an invalid parameter. Any other word is stored;
the setting is then read back, unless the previous word was zero. A success has applied
all that was asked for. -/
theorem set_by_group_calls (h : Host) (cpus : List CpuId)
    (hcpus : ∀ cpu ∈ cpus, cpu.index < GroupWord.capacity) :
    ∃ (requested : BitVec 64) (set : Record × Host),
      (∀ cpu : CpuId, requested.getLsbD cpu.index = true ↔ cpu ∈ cpus) ∧
      set = step .windows h (.perform (.set cpus)) ∧
      set.1.calls.head? = some (.setThreadAffinityMask requested) ∧
      (∀ code, h.writeError = some code → Refused h requested set code) ∧
      (h.writeError = none →
        requested = 0#64 ∨
          ¬ GroupWord.members requested ⊆ GroupWord.members (Host.groupWord h.possible) →
        Refused h requested set 87) ∧
      (h.writeError = none → requested ≠ 0#64 →
        GroupWord.members requested ⊆ GroupWord.members (Host.groupWord h.possible) →
        (Host.groupWord h.mask = 0#64 → Misreported h requested set) ∧
        (Host.groupWord h.mask ≠ 0#64 → ReadBack h cpus requested set)) ∧
      (∀ answer, set.1.result = .ok answer →
        Host.groupWord set.2.mask = requested ∧ requested ≠ 0#64) := by
  obtain ⟨requested, hword, hmembers⟩ := GroupWord.ofCpus_of_forall_lt hcpus
  have hbits (cpu : CpuId) : requested.getLsbD cpu.index = true ↔ cpu ∈ cpus := by
    simp [← GroupWord.mem_members, hmembers]
  have hfail (code : Int32) (hwrite : h.writeError = some code) :
      Refused h requested (step .windows h (.perform (.set cpus))) code :=
    refused_of_error hword (Host.restrictGroup_of_some hwrite requested)
  have hbad (hwrite : h.writeError = none)
      (hrequested : requested = 0#64 ∨
        ¬ GroupWord.members requested ⊆ GroupWord.members (Host.groupWord h.possible)) :
      Refused h requested (step .windows h (.perform (.set cpus))) 87 :=
    refused_of_error hword (Host.restrictGroup_of_not_allowed hwrite hrequested)
  have hgood (hwrite : h.writeError = none) (hne : requested ≠ 0#64)
      (hsubset : GroupWord.members requested ⊆ GroupWord.members (Host.groupWord h.possible)) :
      (Host.groupWord h.mask = 0#64 →
          Misreported h requested (step .windows h (.perform (.set cpus)))) ∧
        (Host.groupWord h.mask ≠ 0#64 →
          ReadBack h cpus requested (step .windows h (.perform (.set cpus)))) := by
    have hset := Host.restrictGroup_of_allowed hwrite hne hsubset
    exact ⟨misreported_of_ok hword hset, readBack_of_ok hword hset hmembers⟩
  have hends := set_ends (h := h) hword hmembers
  refine ⟨requested, _, hbits, rfl, ?_, hfail, hbad, hgood, fun answer hanswer => ?_⟩
  · rcases hends with ⟨code, hrefused⟩ | hmisreported | ⟨_, hread⟩
    · rw [hrefused.calls, List.head?_cons]
    · rw [hmisreported.calls, List.head?_cons]
    · rw [hread.calls, List.head?_cons]
  · rcases hends with ⟨code, hrefused⟩ | hmisreported | ⟨hne, hread⟩
    · rw [hrefused.result] at hanswer
      cases hanswer
    · rw [hmisreported.result] at hanswer
      cases hanswer
    · exact ⟨hread.word, hne⟩

/-- A host that allows CPUs zero to two stores zero and two over an empty affinity, and
reports the last error it had. -/
theorem set_two_and_zero_by_group_calls :
    (∀ cpu ∈ [CpuId.mk 2, ⟨0⟩, ⟨2⟩], cpu.index < GroupWord.capacity) ∧
      ∃ (requested : BitVec 64) (set : Record × Host),
        set = step .windows { possible := ⟨.replicate 16 7#64⟩, lastError := 0xFFFFFFFF }
          (.perform (.set [⟨2⟩, ⟨0⟩, ⟨2⟩])) ∧
        requested = 5#64 ∧ Host.groupWord set.2.mask = 5#64 ∧
        set.1.result = .error (.errorCode (-1)) := by
  have hcpus : ∀ cpu ∈ [CpuId.mk 2, ⟨0⟩, ⟨2⟩], cpu.index < GroupWord.capacity := by decide
  obtain ⟨requested, set, hbits, hset, -, -, -, hstored, -⟩ :=
    set_by_group_calls { possible := ⟨.replicate 16 7#64⟩, lastError := 0xFFFFFFFF } _ hcpus
  have hfive : requested = 5#64 := by
    have hfive_bits : ∀ i < 64, CpuId.mk i ∈ [CpuId.mk 2, ⟨0⟩, ⟨2⟩] ↔ (5#64).getLsbD i = true := by
      decide
    apply BitVec.eq_of_getLsbD_eq
    intro i hi
    rw [Bool.eq_iff_iff]
    exact (hbits ⟨i⟩).trans (hfive_bits i hi)
  subst hfive
  have hmisreported := (hstored rfl (by decide) (by decide)).1 rfl
  exact ⟨hcpus, _, set, hset, rfl, hmisreported.word, hmisreported.result⟩

end GroupCalls

end CpuAffinity
