import CpuAffinity.Proofs.HostRequests
import CpuAffinity.Proofs.Reading

/-!
# Setting the affinity through mask calls

Setting requests exactly the CPUs of the list. What the host makes of the request depends
on its own failures first and on the CPUs that may be used second; the affinity held
before plays no part. A rejected request ends the step. After any other request, a failure
with code zero among them, the step is a read of the host that the request left.
-/

namespace CpuAffinity

namespace MaskCalls

open ThreadSession (Record step)

/-- A setting that ended with its request: nothing is read back, and the code is the result. -/
structure Rejected (family : Family) (requested : Words) (left : Host) (set : Record × Host)
    (code : Int32) : Prop where
  calls : set.1.calls = [family.setCall requested]
  result : set.1.result = .error (.errorCode code)
  host : set.2 = left

/-- A setting that went on as a read of the host that its request left. A read that fails
leaves the affinity applied. -/
structure ReadBack (family : Family) (requested : Words) (left : Host) (set : Record × Host) :
    Prop where
  calls : set.1.calls = [family.setCall requested, family.getCall]
  result : set.1.result = (step family.platform left (.perform .get)).1.result
  host : set.2 = (step family.platform left (.perform .get)).2
  failure : ∀ code, left.readError = some code → code ≠ 0 →
    set.1.result = .error (.errorCode code) ∧ set.2.mask = left.mask

variable {family : Family} {h left : Host} {cpus : List CpuId} {requested : Words}

/-- A setting that was read back was not rejected. -/
theorem ReadBack.not_rejected {set : Record × Host} (hread : ReadBack family requested left set)
    (code : Int32) : ¬ Rejected family requested left set code := by
  intro hrejected
  have hcalls := hread.calls.symm.trans hrejected.calls
  simp at hcalls

/-- A request that fails rejects the setting. -/
theorem rejected_of_apply {code : Int32}
    (happly : (apply family cpus).runOn { host := h } =
      (.error (.errorCode code), ⟨left, [family.setCall requested], []⟩)) :
    Rejected family requested left (step family.platform h (.perform (.set cpus))) code := by
  rw [← platform_apply] at happly
  rw [ThreadSession.step_set_of_error happly]
  exact ⟨rfl, rfl, rfl⟩

/-- After a request that succeeds, the setting is read back. -/
theorem readBack_of_apply
    (happly : (apply family cpus).runOn { host := h } =
      (.ok (), ⟨left, [family.setCall requested], []⟩)) :
    ReadBack family requested left (step family.platform h (.perform (.set cpus))) := by
  rw [← platform_apply] at happly
  obtain ⟨hresult, hcalls, hhost⟩ := ThreadSession.step_set_of_ok happly
  refine ⟨?_, hresult, hhost, fun code hread hcode => ?_⟩
  · rw [hcalls, (step_get_frame family left).1]
    rfl
  · rw [hresult, hhost, step_get_of_some family hread hcode]
    exact ⟨rfl, Family.failed_mask family code left⟩

/-- The host that a set call leaves, where the request is granted. -/
theorem perform_setCall_of_ok (family : Family) {granted : Host}
    (hset : h.restrict requested = .ok granted) :
    (h.perform (family.setCall requested)).2 = granted := by
  cases family <;> simp only [Family.setCall, Host.perform, hset]

/-- The host that a set call leaves, where the request is refused. -/
theorem perform_setCall_of_error (family : Family) {code : Int32}
    (hset : h.restrict requested = .error code) :
    (h.perform (family.setCall requested)).2 = family.failed code h := by
  cases family <;> simp only [Family.setCall, Host.perform, hset, Family.failed]

/-- A host that a set call leaves differs in the affinity and in what a failed call leaves. -/
theorem perform_setCall_frame (family : Family) (h : Host) (requested : Words) :
    ∃ code, (h.perform (family.setCall requested)).2 =
      family.failed code { h with mask := (h.perform (family.setCall requested)).2.mask } := by
  rcases hset : h.restrict requested with code | granted
  · rw [perform_setCall_of_error family hset, Family.failed_mask]
    exact ⟨code, rfl⟩
  · rw [perform_setCall_of_ok family hset, (Host.restrict_eq_of_ok hset).1]
    refine ⟨h.errno, ?_⟩
    cases family <;> rfl

/-- A setting that ended or was read back leaves nothing else behind than its request did. -/
theorem set_frame {set : Record × Host}
    (hset : (∃ code, Rejected family requested left set code) ∨ ReadBack family requested left set)
    (hleft : left = (h.perform (family.setCall requested)).2) :
    ∃ code, set.2 = family.failed code { h with mask := left.mask } := by
  obtain ⟨first, hfirst⟩ := perform_setCall_frame family h requested
  rw [← hleft] at hfirst
  rcases hset with ⟨_, hrejected⟩ | hread
  · exact ⟨first, hrejected.host.trans hfirst⟩
  · obtain ⟨second, hsecond⟩ := (step_get_frame family left).2
    refine ⟨second, ?_⟩
    rw [hread.host, hsecond, hfirst, Family.failed_failed, Family.failed_mask]

/-- A refused setting ends unless the code is zero, and keeps the affinity either way. -/
theorem set_of_refused (family : Family) (hcpus : ∀ cpu ∈ cpus, cpu.index < maskCapacity)
    (hrequested : requested = .ofMembers (CpuId.indices cpus)) {code : Int32}
    (hset : h.restrict requested = .error code) :
    let left := (h.perform (family.setCall requested)).2
    let set := step family.platform h (.perform (.set cpus))
    left.mask = h.mask ∧ (code ≠ 0 → Rejected family requested left set code) ∧
      (code = 0 → ReadBack family requested left set) := by
  intro left set
  have hleft : left = family.failed code h := perform_setCall_of_error family hset
  have happly := apply_of_error family (h := h) hcpus (hrequested ▸ hset)
  rw [← hrequested, ← hleft] at happly
  refine ⟨?_, fun hcode => ?_, fun hcode => ?_⟩
  · rw [hleft, Family.failed_mask]
  · apply rejected_of_apply
    rw [happly, status, if_neg hcode]
  · apply readBack_of_apply
    rw [happly, status, if_pos hcode]

/-- A granted setting is read back. -/
theorem set_of_granted (family : Family) (hcpus : ∀ cpu ∈ cpus, cpu.index < maskCapacity)
    (hrequested : requested = .ofMembers (CpuId.indices cpus))
    (hset : h.restrict requested = .ok left) :
    left = (h.perform (family.setCall requested)).2 ∧
      ReadBack family requested left (step family.platform h (.perform (.set cpus))) := by
  have happly := apply_of_ok family (h := h) hcpus (hrequested ▸ hset)
  rw [← hrequested] at happly
  exact ⟨(perform_setCall_of_ok family hset).symm, readBack_of_apply happly⟩

/-- A setting ends with its request, or is read back. -/
theorem set_ends (family : Family) (hcpus : ∀ cpu ∈ cpus, cpu.index < maskCapacity)
    (hrequested : requested = .ofMembers (CpuId.indices cpus)) :
    let left := (h.perform (family.setCall requested)).2
    let set := step family.platform h (.perform (.set cpus))
    (∃ code, Rejected family requested left set code) ∨ ReadBack family requested left set := by
  intro left set
  rcases hset : h.restrict requested with code | granted
  · obtain ⟨_, hrejected, hread⟩ := set_of_refused family hcpus hrequested hset
    by_cases hcode : code = 0
    · exact .inr (hread hcode)
    · exact .inl ⟨code, hrejected hcode⟩
  · obtain ⟨hleft, hread⟩ := set_of_granted family hcpus hrequested hset
    rw [hleft] at hread
    exact .inr hread

/-- Setting requests the members of the list. A host that fails refuses with its code, and
one that can grant no member refuses as well; neither changes the affinity. Otherwise the
affinity is replaced by the members that may be used, whatever it was. The setting ends
with a refusal whose code is not zero, and is read back after anything else. -/
theorem set_by_mask_calls (family : Family) (h : Host) (cpus : List CpuId)
    (hcpus : ∀ cpu ∈ cpus, cpu.index < maskCapacity) :
    ∃ (requested : Words) (left : Host) (set : Record × Host),
      requested.members = CpuId.indices cpus ∧
      left = (h.perform (family.setCall requested)).2 ∧ left.readError = h.readError ∧
      set = step family.platform h (.perform (.set cpus)) ∧
      ((∃ code, Rejected family requested left set code) ∨ ReadBack family requested left set) ∧
      (∃ code, set.2 = family.failed code { h with mask := left.mask }) ∧
      (∀ code, h.writeError = some code →
        left.mask = h.mask ∧
        (Rejected family requested left set code ↔ code ≠ 0) ∧
        (ReadBack family requested left set ↔ code = 0)) ∧
      (h.writeError = none →
        (Rejected family requested left set 22 ∧ left.mask = h.mask ↔
          Disjoint (CpuId.indices cpus) h.possible.members) ∧
        (¬ Disjoint (CpuId.indices cpus) h.possible.members →
          left.mask.members = CpuId.indices cpus ∩ h.possible.members ∧
          ReadBack family requested left set)) := by
  obtain ⟨requested, hrequested⟩ : ∃ w, w = Words.ofMembers (CpuId.indices cpus) := ⟨_, rfl⟩
  have hmembers : requested.members = CpuId.indices cpus := by
    rw [hrequested, Words.members_ofMembers_indices hcpus]
  refine ⟨requested, _, _, hmembers, rfl, by simp, rfl, ?_⟩
  have hrefused (code : Int32) (hset : h.restrict requested = .error code) :=
    set_of_refused family hcpus hrequested hset
  have hgranted (granted : Host) (hset : h.restrict requested = .ok granted) :=
    set_of_granted family hcpus hrequested hset
  have hend := set_ends family hcpus hrequested (h := h)
  refine ⟨hend, set_frame hend rfl, fun code hwrite => ?_, fun hwrite => ⟨?_, fun hdisjoint => ?_⟩⟩
  · obtain ⟨hmask, hrejected, hread⟩ := hrefused code (Host.restrict_of_some hwrite requested)
    refine ⟨hmask, ⟨fun hended hcode => ?_, hrejected⟩, ⟨fun hafter => ?_, hread⟩⟩
    · exact (hread hcode).not_rejected code hended
    · by_contra hcode
      exact hafter.not_rejected code (hrejected hcode)
  · refine ⟨fun hended => ?_, fun hdisjoint => ?_⟩
    · by_contra hdisjoint
      rw [← hmembers] at hdisjoint
      obtain ⟨hleft, hread⟩ := hgranted _ (Host.restrict_of_not_disjoint hwrite hdisjoint)
      exact (hleft ▸ hread).not_rejected _ hended.1
    · rw [← hmembers] at hdisjoint
      obtain ⟨hmask, hrejected, _⟩ := hrefused _ (Host.restrict_of_disjoint hwrite hdisjoint)
      exact ⟨hrejected (by decide), hmask⟩
  · rw [← hmembers] at hdisjoint ⊢
    obtain ⟨hleft, hread⟩ := hgranted _ (Host.restrict_of_not_disjoint hwrite hdisjoint)
    rw [← hleft]
    exact ⟨Words.members_inter requested h.possible, hread⟩

/-- Of CPUs two and zero, a host that allows zero and one grants zero. -/
theorem set_two_and_zero_by_mask_calls :
    (∀ cpu ∈ [CpuId.mk 2, ⟨0⟩, ⟨2⟩], cpu.index < maskCapacity) ∧
      ∃ (requested : Words) (left : Host) (set : Record × Host),
        set = step .android { possible := .ofMembers {0, 1} } (.perform (.set [⟨2⟩, ⟨0⟩, ⟨2⟩])) ∧
        requested.members = {0, 2} ∧ left.mask.members = {0} ∧
        ReadBack .sched requested left set := by
  have hcpus : ∀ cpu ∈ [CpuId.mk 2, ⟨0⟩, ⟨2⟩], cpu.index < maskCapacity := by decide
  have hindices : CpuId.indices [CpuId.mk 2, ⟨0⟩, ⟨2⟩] = {0, 2} := by decide
  have hpossible : (Words.ofMembers {0, 1}).members = {0, 1} :=
    Words.members_ofMembers (by simp [Finset.insert_subset_iff, maskCapacity])
  obtain ⟨requested, left, set, hmembers, -, -, hset, -, -, -, hgranted⟩ :=
    set_by_mask_calls .sched { possible := .ofMembers {0, 1} } _ hcpus
  rw [hindices, hpossible] at hgranted
  obtain ⟨hmask, hread⟩ := (hgranted rfl).2 (by decide)
  exact ⟨hcpus, requested, left, set, hset, hmembers.trans hindices, hmask, hread⟩

end MaskCalls

end CpuAffinity
