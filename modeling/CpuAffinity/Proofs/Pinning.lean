import CpuAffinity.Proofs.EventMirror
import CpuAffinity.Proofs.SingleGroup

/-!
# Pinning stops before the read

Pinning to a CPU requests what setting the list of this one CPU requests, and it ends where the
setting goes on to read the affinity back. The two therefore fail alike as long as nothing was
read, and a read that follows the pin completes the setting. On a host that does not refuse
requests by itself, it is known which CPUs a thread can be pinned to; a group call that meets an
empty affinity stores the CPU and still counts as a failure.
-/

namespace CpuAffinity

open ThreadSession (Record step)

namespace Platform

/-- A host that does not refuse requests by itself lets the platform's calls pin the thread to a
CPU. The calls can name the CPU and it may be used; group calls also need an affinity to
replace, since they take a previous word of zero for a failure. -/
def CanPin (p : Platform) (h : Host) (cpu : CpuId) : Prop :=
  match p with
  | linux | android => cpu.index < maskCapacity ∧ cpu.index ∈ h.possible.members
  | windows =>
    cpu.index < GroupWord.capacity ∧ cpu.index ∈ h.possible.members ∧ Host.groupWord h.mask ≠ 0#64
  | unsupported => False

/-- The affinity is exactly one CPU, as far as the platform's calls reach. -/
def HoldsOnly (p : Platform) (mask : Words) (cpu : CpuId) : Prop :=
  match p with
  | linux | android | unsupported => mask.members = {cpu.index}
  | windows => Host.groupWord mask = 1#64 <<< cpu.index

variable {p : Platform} {h : Host} {cpu : CpuId}

/-- Mask calls can pin the thread to any CPU that may be used. -/
theorem canPin_family (family : MaskCalls.Family) :
    family.platform.CanPin h cpu ↔ cpu.index < maskCapacity ∧ cpu.index ∈ h.possible.members := by
  cases family <;> rfl

/-- A CPU of the group may be used when its bit in the group's word is one. -/
theorem mem_possible_of_group (hgroup : cpu.index < GroupWord.capacity) :
    cpu.index ∈ GroupWord.members (Host.groupWord h.possible) ↔ cpu.index ∈ h.possible.members := by
  rw [Words.members_groupWord, Finset.mem_inter, Finset.mem_range]
  exact and_iff_left hgroup

/-- The word of one CPU is the CPU's bit. -/
theorem eq_bit_of_members {word : BitVec 64} (hgroup : cpu.index < GroupWord.capacity)
    (hmembers : GroupWord.members word = {cpu.index}) : word = 1#64 <<< cpu.index := by
  apply GroupWord.members_injective
  rw [hmembers]
  exact (GroupWord.members_bit ⟨cpu.index, hgroup⟩).symm

/-- A group word that names one CPU is granted only if this CPU may be used. -/
theorem mem_possible_of_granted {word : BitVec 64} {granted : Host}
    (hgroup : cpu.index < GroupWord.capacity) (hword : GroupWord.ofCpus [cpu] = .ok word)
    (hset : h.restrictGroup word = .ok granted) : cpu.index ∈ h.possible.members := by
  obtain ⟨encoded, hencoded, hmembers⟩ :=
    GroupWord.ofCpus_of_forall_lt (List.forall_mem_singleton.mpr hgroup)
  rw [hword] at hencoded
  cases hencoded
  have hallowed := (Host.restrictGroup_eq_of_ok hset).2.2
  rw [hmembers, CpuId.indices_singleton, Finset.singleton_subset_iff] at hallowed
  exact (mem_possible_of_group hgroup).mp hallowed

/-- Requesting a CPU that the thread can be pinned to makes it the only one. -/
theorem apply_of_canPin (hwrite : h.writeError = none) (hpin : p.CanPin h cpu) :
    ∃ t, (p.apply [cpu]).runOn { host := h } = (.ok (), t) ∧ p.HoldsOnly t.host.mask cpu := by
  have hne : (CpuId.indices [cpu]).Nonempty := Finset.singleton_nonempty _
  induction p using MaskCalls.platform_cases with
  | family family =>
    obtain ⟨hlt, hpossible⟩ := (canPin_family family).mp hpin
    have hallowed : CpuId.indices [cpu] ⊆ h.possible.members :=
      Finset.singleton_subset_iff.mpr hpossible
    have hmembers : (Words.ofMembers (CpuId.indices [cpu])).members = {cpu.index} :=
      Words.members_ofMembers_indices (List.forall_mem_singleton.mpr hlt)
    rw [MaskCalls.platform_apply]
    refine ⟨_, MaskCalls.apply_of_allowed family hwrite hne hallowed, ?_⟩
    cases family <;> exact hmembers
  | windows =>
    obtain ⟨hgroup, hpossible, hprevious⟩ := hpin
    have hallowed : CpuId.indices [cpu] ⊆ GroupWord.members (Host.groupWord h.possible) :=
      Finset.singleton_subset_iff.mpr ((mem_possible_of_group hgroup).mpr hpossible)
    obtain ⟨word, hmembers, happly⟩ := GroupCalls.apply_of_allowed hwrite hne hallowed hprevious
    refine ⟨_, happly, ?_⟩
    change Host.groupWord (h.mask.setWord 0 word) = _
    simp [eq_bit_of_members hgroup hmembers]
  | unsupported => exact hpin.elim

/-- Requesting a CPU that the calls cannot name fails. -/
theorem apply_one_of_beyond {capacity : ℕ} (hp : p.capacity = some capacity)
    (hbeyond : ¬ cpu.index < capacity) :
    ∃ e t, (p.apply [cpu]).runOn { host := h } = (.error e, t) := by
  have hfind : [cpu].find? (CpuId.beyond capacity) = some cpu := by
    simp [CpuId.beyond, Nat.le_of_not_lt hbeyond]
  exact ⟨_, _, apply_of_beyond hp hfind _⟩

/-- Mask calls refuse any other CPU. -/
theorem apply_of_not_canPin_of_family (family : MaskCalls.Family) (hwrite : h.writeError = none)
    (hpin : ¬ family.platform.CanPin h cpu) :
    ∃ e t, (family.platform.apply [cpu]).runOn { host := h } = (.error e, t) := by
  rw [canPin_family] at hpin
  by_cases hlt : cpu.index < maskCapacity
  · have hcpus : ∀ other ∈ [cpu], other.index < maskCapacity := List.forall_mem_singleton.mpr hlt
    have hdisjoint :
        Disjoint (Words.ofMembers (CpuId.indices [cpu])).members h.possible.members := by
      rw [Words.members_ofMembers_indices hcpus, CpuId.indices_singleton,
        Finset.disjoint_singleton_left]
      exact fun hpossible => hpin ⟨hlt, hpossible⟩
    rw [MaskCalls.platform_apply]
    exact ⟨_, _, MaskCalls.apply_of_error family hcpus (Host.restrict_of_disjoint hwrite hdisjoint)⟩
  · exact apply_one_of_beyond (capacity_family family) hlt

/-- Group calls refuse any other CPU, or store it and take the previous word for a failure. -/
theorem apply_of_not_canPin_of_group (hpin : ¬ windows.CanPin h cpu) :
    ∃ e t, (windows.apply [cpu]).runOn { host := h } = (.error e, t) := by
  by_cases hgroup : cpu.index < GroupWord.capacity
  · obtain ⟨word, hword, -⟩ := GroupWord.ofCpus_of_forall_lt (List.forall_mem_singleton.mpr hgroup)
    rcases hset : h.restrictGroup word with code | granted
    · exact ⟨_, _, GroupCalls.apply_of_error hword hset⟩
    · have hpossible : cpu.index ∈ h.possible.members := mem_possible_of_granted hgroup hword hset
      have hprevious : Host.groupWord h.mask = 0#64 := by
        by_contra hprevious
        exact hpin ⟨hgroup, hpossible, hprevious⟩
      exact ⟨_, _, GroupCalls.apply_of_ok_of_zero hword hset hprevious⟩
  · exact apply_one_of_beyond rfl hgroup

/-- Requesting any other CPU fails. -/
theorem apply_of_not_canPin (hwrite : h.writeError = none) (hpin : ¬ p.CanPin h cpu) :
    ∃ e t, (p.apply [cpu]).runOn { host := h } = (.error e, t) := by
  induction p using MaskCalls.platform_cases with
  | family family => exact apply_of_not_canPin_of_family family hwrite hpin
  | windows => exact apply_of_not_canPin_of_group hpin
  | unsupported => exact ⟨_, _, rfl⟩

end Platform

namespace ThreadSession

/-- A pin that goes as far as a setting does before it reads. They make the same calls but for
the read, and leave the same affinity. The pin fails exactly where the setting fails unread, and
a read after a pin that succeeds ends as the setting does. -/
structure StopsBeforeRead (p : Platform) (pin set : Record × Host) : Prop where
  calls : pin.1.calls = set.1.calls.filter fun c => decide (c.kind ≠ .read)
  read : set.1.Reads → ∃ call, p.readCall = some call ∧ set.1.calls = pin.1.calls ++ [call]
  mask : pin.2.mask = set.2.mask
  fails_iff : ∀ e, pin.1.result = .error e ↔ set.1.result = .error e ∧ ¬ set.1.Reads
  succeeds_iff : ∀ answer, pin.1.result = .ok answer ↔ answer = .done ∧ set.1.Reads
  later : ∀ answer, pin.1.result = .ok answer →
    (step p pin.2 (.perform .get)).1.result = set.1.result ∧
      (step p pin.2 (.perform .get)).2 = set.2

variable {p : Platform} {h : Host} {cpu : CpuId} {t : Trace}

/-- Calls that request are none that read. -/
theorem filter_requests {calls : List Call} (hcalls : ∀ c ∈ calls, c.kind = .request) :
    calls.filter (fun c => decide (c.kind ≠ .read)) = calls := by
  apply List.filter_eq_self.mpr
  intro c hc
  rw [hcalls c hc]
  rfl

/-- Pinning and setting that fail by their request fail alike. -/
theorem stopsBeforeRead_of_error {e : AffinityError}
    (happly : (p.apply [cpu]).runOn { host := h } = (.error e, t)) :
    StopsBeforeRead p (step p h (.perform (.pin cpu))) (step p h (.perform (.set [cpu]))) := by
  have hrequests := ((p.apply_adds [cpu]).fresh happly).1
  have hunread : ¬ (step p h (.perform (.set [cpu]))).1.Reads := by
    rw [step_set_of_error happly]
    rintro ⟨c, hc, hread⟩
    rw [hrequests c hc] at hread
    cases hread
  have hpin := step_pin_of_error happly
  have hset := step_set_of_error happly
  refine ⟨?_, fun hread => absurd hread hunread, ?_, fun other => ?_, fun answer => ?_, ?_⟩
  · rw [hpin, hset, filter_requests hrequests]
  · rw [hpin, hset]
  · rw [hpin, hset]
    rw [hset] at hunread
    exact (and_iff_left hunread).symm
  · rw [hpin]
    refine ⟨fun hok => ?_, fun hdone => absurd hdone.2 hunread⟩
    cases hok
  · rw [hpin]
    intro answer hok
    cases hok

/-- Where the request succeeds, the pin is done and the setting goes on to read. -/
theorem stopsBeforeRead_of_ok (happly : (p.apply [cpu]).runOn { host := h } = (.ok (), t)) :
    StopsBeforeRead p (step p h (.perform (.pin cpu))) (step p h (.perform (.set [cpu]))) := by
  have hrequests := ((p.apply_adds [cpu]).fresh happly).1
  obtain ⟨capacity, hp⟩ := Platform.capacity_of_apply_ok happly
  obtain ⟨call, hcall, hkind⟩ := Platform.readCall_of_capacity hp
  obtain ⟨hresult, hcalls, hhost⟩ := step_set_of_ok happly
  rw [step_get_calls, hcall, Option.toList_some] at hcalls
  have hread : (step p h (.perform (.set [cpu]))).1.Reads := by
    refine ⟨call, ?_, hkind⟩
    rw [hcalls]
    exact List.mem_append_right _ List.mem_cons_self
  have hpin := step_pin_of_ok happly
  refine ⟨?_, fun _ => ⟨call, hcall, ?_⟩, ?_, fun e => ?_, fun answer => ?_, fun _ _ => ?_⟩
  · rw [hpin, hcalls, List.filter_append, filter_requests hrequests]
    simp [hkind]
  · rw [hpin, hcalls]
  · rw [hpin, hhost, (step_get_same p t.host).mask]
  · rw [hpin]
    refine ⟨fun he => ?_, fun hunread => absurd hread hunread.2⟩
    cases he
  · rw [hpin]
    refine ⟨fun hok => ?_, fun hdone => ?_⟩
    · cases hok
      exact ⟨rfl, hread⟩
    · rw [hdone.1]
  · rw [hpin]
    exact ⟨hresult.symm, hhost.symm⟩

/-- Pinning stops where setting the list of the one CPU goes on to read. -/
theorem step_pin_stopsBeforeRead (p : Platform) (h : Host) (cpu : CpuId) :
    StopsBeforeRead p (step p h (.perform (.pin cpu))) (step p h (.perform (.set [cpu]))) := by
  rcases happly : (p.apply [cpu]).runOn { host := h } with ⟨e | _, t⟩
  · exact stopsBeforeRead_of_error happly
  · exact stopsBeforeRead_of_ok happly

/-- On a host that does not refuse requests by itself, a pin succeeds exactly for the CPUs that
the thread can be pinned to, and makes them the affinity. -/
theorem step_pin_of_writable (hwrite : h.writeError = none) :
    ((∃ answer, (step p h (.perform (.pin cpu))).1.result = .ok answer) ↔ p.CanPin h cpu) ∧
      ∀ answer, (step p h (.perform (.pin cpu))).1.result = .ok answer →
        p.HoldsOnly (step p h (.perform (.pin cpu))).2.mask cpu := by
  by_cases hpin : p.CanPin h cpu
  · obtain ⟨t, happly, honly⟩ := Platform.apply_of_canPin hwrite hpin
    rw [step_pin_of_ok happly]
    exact ⟨⟨fun _ => hpin, fun _ => ⟨.done, rfl⟩⟩, fun _ _ => honly⟩
  · obtain ⟨e, t, happly⟩ := Platform.apply_of_not_canPin hwrite hpin
    rw [step_pin_of_error happly]
    refine ⟨⟨?_, fun hcan => absurd hcan hpin⟩, ?_⟩
    · rintro ⟨answer, hok⟩
      cases hok
    · intro answer hok
      cases hok

/-- On every host, pinning to a CPU is setting the list of this CPU without the read. Where the
host does not refuse requests by itself, the pin succeeds exactly if the calls can name the CPU,
it may be used, and group calls find an affinity to replace; the affinity is then that CPU. -/
theorem pin_stops_before_read (p : Platform) (h : Host) (cpu : CpuId) :
    StopsBeforeRead p (step p h (.perform (.pin cpu))) (step p h (.perform (.set [cpu]))) ∧
      (h.writeError = none →
        ((∃ answer, (step p h (.perform (.pin cpu))).1.result = .ok answer) ↔ p.CanPin h cpu) ∧
          ∀ answer, (step p h (.perform (.pin cpu))).1.result = .ok answer →
            p.HoldsOnly (step p h (.perform (.pin cpu))).2.mask cpu) :=
  ⟨step_pin_stopsBeforeRead p h cpu, step_pin_of_writable⟩

/-- A thread that holds CPUs zero and one is pinned to CPU one. Setting that list reads the
affinity back and fails there, as a read after the pin does. -/
theorem pin_to_one_stops_before_read :
    let h : Host := {
      possible := ⟨.replicate 16 7#64⟩, mask := ⟨.replicate 16 3#64⟩, readError := some 5 }
    let pin := step .windows h (.perform (.pin ⟨1⟩))
    let set := step .windows h (.perform (.set [⟨1⟩]))
    h.writeError = none ∧ Platform.windows.CanPin h ⟨1⟩ ∧
      Platform.windows.HoldsOnly pin.2.mask ⟨1⟩ ∧ set.1.Reads ∧
      (step .windows pin.2 (.perform .get)).1.result = set.1.result ∧
      set.1.result = .error (.errorCode 5) := by
  intro h pin set
  obtain ⟨hstops, hwritable⟩ := pin_stops_before_read .windows h ⟨1⟩
  obtain ⟨hsucceeds, honly⟩ := hwritable rfl
  have hcan : Platform.windows.CanPin h ⟨1⟩ :=
    ⟨by decide, (Words.mem_members _ _).mpr (by decide), by decide⟩
  obtain ⟨answer, hok⟩ := hsucceeds.mpr hcan
  exact ⟨rfl, hcan, honly answer hok, ((hstops.succeeds_iff answer).mp hok).2,
    (hstops.later answer hok).1, by decide +kernel⟩

end ThreadSession

end CpuAffinity
