import CpuAffinity.Proofs.AllowedAffinity
import CpuAffinity.Proofs.Correspondence
import CpuAffinity.Proofs.GrantedRequests

/-!
# Threads within a single processor group

Mask calls and group calls differ in how much of a mask they reach, in what they make of a
request that is not allowed as a whole, in the code zero, and in a previous word of zero. A
session that stays clear of these differences cannot tell them apart: all CPUs are in the
first group, the affinity is never empty, requests name CPUs that may be used, and no failure
has code zero. Step by step, both kinds of calls then lead to the same results, the same
events and the same affinity, and each call has its counterpart.
-/

namespace CpuAffinity

namespace Words

/-- Words that hold CPUs of the first group only. -/
def WithinGroup (w : Words) : Prop := w.members ⊆ Finset.range GroupWord.capacity

/-- The members of the group's word are the members in the group. -/
theorem members_groupWord (w : Words) :
    GroupWord.members (Host.groupWord w) = w.members ∩ Finset.range GroupWord.capacity := by
  ext cpu
  by_cases hgroup : cpu < 64
  · rw [Host.groupWord, GroupWord.mem_members, ← mem_members_word w 0 hgroup]
    simp [GroupWord.capacity, hgroup]
  · simp [GroupWord.capacity, hgroup, BitVec.getLsbD_of_ge _ _ (Nat.le_of_not_lt hgroup)]

variable {v w : Words}

/-- Within the group, the group's word has all members. -/
theorem WithinGroup.members_groupWord (hw : w.WithinGroup) :
    GroupWord.members (Host.groupWord w) = w.members := by
  rw [Words.members_groupWord, Finset.inter_eq_left.mpr hw]

/-- Within the group, the other words are zero. -/
theorem WithinGroup.word_eq_zero (hw : w.WithinGroup) {i : Fin 16} (hi : i ≠ 0) :
    w.word i = 0#64 := by
  apply BitVec.eq_of_getLsbD_eq
  intro j hj
  have hpos : i.val ≠ 0 := fun hzero => hi (Fin.ext hzero)
  rw [BitVec.getLsbD_zero, ← Bool.not_eq_true, ← mem_members_word w i hj]
  intro hmem
  have hgroup := Finset.mem_range.mp (hw hmem)
  unfold GroupWord.capacity at hgroup
  omega

/-- Within the group, only the first word can differ. -/
theorem WithinGroup.setWord_groupWord (hv : v.WithinGroup) (hw : w.WithinGroup) :
    v.setWord 0 (Host.groupWord w) = w := by
  apply Host.setWord_groupWord
  intro i hi
  rw [hv.word_eq_zero hi, hw.word_eq_zero hi]

/-- The zero words are within the group. -/
theorem zero_withinGroup : zero.WithinGroup := by
  rw [WithinGroup, members_zero]
  exact Finset.empty_subset _

variable {s : Finset ℕ}

/-- A set within the group is the set of its words' members. -/
theorem members_ofMembers_of_group (hs : s ⊆ Finset.range GroupWord.capacity) :
    (ofMembers s).members = s := by
  apply members_ofMembers
  exact hs.trans (Finset.range_subset_range.mpr (by decide))

/-- A set within the group has words within the group. -/
theorem ofMembers_withinGroup (hs : s ⊆ Finset.range GroupWord.capacity) :
    (ofMembers s).WithinGroup := by
  rw [WithinGroup, members_ofMembers_of_group hs]
  exact hs

/-- Within the group, storing the group word of a set makes the words of the set. -/
theorem WithinGroup.setWord_of_members (hv : v.WithinGroup)
    (hs : s ⊆ Finset.range GroupWord.capacity) {word : BitVec 64}
    (hword : GroupWord.members word = s) : v.setWord 0 word = ofMembers s := by
  have hwithin := ofMembers_withinGroup hs
  have hsame : Host.groupWord (ofMembers s) = word := by
    apply GroupWord.members_injective
    rw [hwithin.members_groupWord, members_ofMembers_of_group hs, hword]
  rw [← hsame]
  exact hv.setWord_groupWord hwithin

end Words

/-- A host that keeps to the first group, has an affinity there, fails with no code that is
zero, and counts its processors in half a word. -/
structure Host.WithinGroup (h : Host) : Prop where
  possible : h.possible.WithinGroup
  mask : h.mask.WithinGroup
  nonempty : h.mask.members.Nonempty
  readError : h.readError ≠ some 0
  writeError : h.writeError ≠ some 0
  processors : 0 < h.processors.toInt ∧ h.processors.toInt < 2 ^ 32

/-- A change after which a host within the group is still one. -/
structure Host.Change.WithinGroup (change : Host.Change) : Prop where
  possible : ∀ w ∈ change.possible, w.WithinGroup
  mask : ∀ w ∈ change.mask, w.WithinGroup ∧ w.members.Nonempty
  readError : ∀ error ∈ change.readError, error ≠ some 0
  writeError : ∀ error ∈ change.writeError, error ≠ some 0
  processors : ∀ n ∈ change.processors, 0 < n.toInt ∧ n.toInt < 2 ^ 32

/-- What holds of a value and of its replacement, if there is one, holds of the outcome. -/
theorem getD_of_forall {α : Type} {P : α → Prop} {replacement : Option α} {a : α}
    (hreplacement : ∀ b ∈ replacement, P b) (ha : P a) : P (replacement.getD a) := by
  cases replacement with
  | none => exact ha
  | some b => exact hreplacement b rfl

/-- A change within the group keeps the host within the group. -/
theorem Host.WithinGroup.change {h : Host} {change : Host.Change} (hh : h.WithinGroup)
    (hchange : change.WithinGroup) : (h.change change).WithinGroup where
  possible := getD_of_forall hchange.possible hh.possible
  mask := getD_of_forall (fun w hw => (hchange.mask w hw).1) hh.mask
  nonempty := getD_of_forall (P := fun w => w.members.Nonempty)
    (fun w hw => (hchange.mask w hw).2) hh.nonempty
  readError := getD_of_forall hchange.readError hh.readError
  writeError := getD_of_forall hchange.writeError hh.writeError
  processors := getD_of_forall (P := fun n : Int64 => 0 < n.toInt ∧ n.toInt < 2 ^ 32)
    hchange.processors hh.processors

/-- A host within the group may hold any affinity within the group that is not empty. -/
theorem Host.WithinGroup.withMask {h : Host} (hh : h.WithinGroup) {w : Words}
    (hw : w.WithinGroup) (hne : w.members.Nonempty) : Host.WithinGroup { h with mask := w } :=
  ⟨hh.possible, hw, hne, hh.readError, hh.writeError, hh.processors⟩

/-- A mask call and the group call that takes its place. A request has a single word. -/
inductive Call.Counterpart : Call → Call → Prop where
  | read : Counterpart (.pthreadGetAffinity 128) .getThreadGroupAffinity
  | request (word : BitVec 64) :
    Counterpart (.pthreadSetAffinity 128 (Words.zero.setWord 0 word)) (.setThreadAffinityMask word)
  | count : Counterpart .sysconf (.getActiveProcessorCount allProcessorGroups)

namespace ThreadSession

/-- Records that agree but for the calls, which are counterparts one by one. -/
structure Record.Counterpart (r r' : Record) : Prop where
  result : r'.result = r.result
  calls : List.Forall₂ Call.Counterpart r.calls r'.calls
  events : r'.events = r.events
  mask : r'.mask = r.mask

/-- A step within the group requests CPUs that may be used, and at least one if it requests
any, or makes a change within the group. -/
def Step.WithinGroup (possible : Words) : Step → Prop
  | .perform operation =>
    ∀ cpus ∈ operation.requested, cpus ≠ [] ∧ CpuId.indices cpus ⊆ possible.members
  | .configure change => change.WithinGroup

/-- The CPUs that may be used after a step. -/
def Step.possibleAfter (possible : Words) : Step → Words
  | .perform _ => possible
  | .configure change => change.possible.getD possible

/-- A session within the group: each step is, with the CPUs that may be used by then. -/
def WithinGroup (possible : Words) : List Step → Prop
  | [] => True
  | s :: rest => s.WithinGroup possible ∧ WithinGroup (s.possibleAfter possible) rest

/-- The CPUs that may be used after a step are those that the host then has. -/
theorem step_possible (p : Platform) (h : Host) (s : Step) :
    (step p h s).2.possible = s.possibleAfter h.possible := by
  cases s with
  | perform operation => exact (step_keeps p h (s := .perform operation) trivial).possible
  | configure change => rfl

end ThreadSession

namespace GroupCalls

open ThreadSession (Step Record step run)

/-- Runs within the group: the hosts agree but for their error cells, and the calls are
counterparts. -/
def singleGroup : Correspondence where
  hosts h h' := h.WithinGroup ∧ h.SameButErrors h'
  calls := Call.Counterpart
  events := Eq
  mask_eq := by
    rintro h h' ⟨-, errno, lastError, rfl⟩
    rfl
  events_refl _ := rfl

variable {h h' : Host}

/-- Within the group, reads by either kind of calls correspond. -/
theorem singleGroup_read (hhosts : singleGroup.hosts h h') :
    singleGroup.Actions (MaskCalls.read .pthread) read h h' := by
  obtain ⟨hgroup, errno, lastError, rfl⟩ := hhosts
  obtain hread | ⟨code, hread⟩ := h.readError.eq_none_or_eq_some
  · have hwords := MaskCalls.read_of_none .pthread hread
    rw [← hgroup.mask.members_groupWord] at hwords
    exact ⟨_, _, _, hwords, read_of_none hread, ⟨hgroup, errno, lastError, rfl⟩,
      .cons .read .nil, .nil⟩
  · have hcode : code ≠ 0 := fun hzero => hgroup.readError (hread.trans (congrArg some hzero))
    have hwords := MaskCalls.read_of_some .pthread hread
    rw [MaskCalls.status, if_neg hcode] at hwords
    exact ⟨_, _, _, hwords, read_of_some hread, ⟨hgroup, errno, code.toUInt32, rfl⟩,
      .cons .read .nil, .nil⟩

section Request

variable {cpus : List CpuId} (hhosts : singleGroup.hosts h h') (hne : cpus ≠ [])
  (hallowed : CpuId.indices cpus ⊆ h.possible.members)
include hhosts hallowed

/-- Within the group, either kind of calls asks for the same refusal. -/
theorem singleGroup_apply_of_some {code : Int32} (hwrite : h.writeError = some code) :
    singleGroup.Actions (MaskCalls.apply .pthread cpus) (apply cpus) h h' := by
  obtain ⟨hgroup, errno, lastError, rfl⟩ := hhosts
  have hindices := hallowed.trans hgroup.possible
  have hcode : code ≠ 0 := fun hzero => hgroup.writeError (hwrite.trans (congrArg some hzero))
  have hlt : ∀ cpu ∈ cpus, cpu.index < GroupWord.capacity :=
    CpuId.indices_subset_range.mp hindices
  have hlt' : ∀ cpu ∈ cpus, cpu.index < maskCapacity := by
    intro cpu hcpu
    exact (hlt cpu hcpu).trans (by decide)
  obtain ⟨word, hword, hmembers⟩ := GroupWord.ofCpus_of_forall_lt hlt
  have hwords := MaskCalls.apply_of_error .pthread hlt' (Host.restrict_of_some hwrite _)
  rw [MaskCalls.status, if_neg hcode,
    ← Words.zero_withinGroup.setWord_of_members hindices hmembers] at hwords
  have hrefused := Host.restrictGroup_of_some (h := { h with errno, lastError }) hwrite word
  have hstored := apply_of_error hword hrefused
  rw [Int32.toInt32_toUInt32] at hstored
  exact ⟨_, _, _, hwords, hstored, ⟨hgroup, errno, code.toUInt32, rfl⟩,
    .cons (.request word) .nil, .nil⟩

include hne

/-- Within the group, either kind of calls grants the whole request. -/
theorem singleGroup_apply_of_none (hwrite : h.writeError = none) :
    singleGroup.Actions (MaskCalls.apply .pthread cpus) (apply cpus) h h' := by
  obtain ⟨hgroup, errno, lastError, rfl⟩ := hhosts
  have hindices := hallowed.trans hgroup.possible
  have hnonempty : (CpuId.indices cpus).Nonempty := by
    obtain ⟨cpu, hcpu⟩ := List.exists_mem_of_ne_nil cpus hne
    exact ⟨cpu.index, (CpuId.mem_indices cpus cpu).mpr hcpu⟩
  have hprevious : Host.groupWord h.mask ≠ 0#64 := by
    rw [← GroupWord.members_nonempty, hgroup.mask.members_groupWord]
    exact hgroup.nonempty
  have hallowed' : CpuId.indices cpus ⊆ GroupWord.members (Host.groupWord h.possible) := by
    rw [hgroup.possible.members_groupWord]
    exact hallowed
  have hwords := MaskCalls.apply_of_allowed .pthread hwrite hnonempty hallowed
  obtain ⟨word, hmembers, hstored⟩ := apply_of_allowed (h := { h with errno, lastError })
    hwrite hnonempty hallowed' hprevious
  -- Both affinities are written as the single word that the group call stores.
  have hrequested := Words.zero_withinGroup.setWord_of_members hindices hmembers
  have hkept := (hgroup.mask.setWord_of_members hindices hmembers).trans hrequested.symm
  rw [← hrequested] at hwords
  rw [hkept] at hstored
  have hleft : Host.WithinGroup { h with mask := Words.zero.setWord 0 word } := by
    rw [hrequested]
    apply hgroup.withMask (Words.ofMembers_withinGroup hindices)
    rw [Words.members_ofMembers_of_group hindices]
    exact hnonempty
  exact ⟨_, _, _, hwords, hstored, ⟨hleft, errno, lastError, rfl⟩, .cons (.request word) .nil, .nil⟩

/-- Within the group, requests by either kind of calls correspond. -/
theorem singleGroup_apply :
    singleGroup.Actions (MaskCalls.apply .pthread cpus) (apply cpus) h h' := by
  obtain hwrite | ⟨code, hwrite⟩ := h.writeError.eq_none_or_eq_some
  · exact singleGroup_apply_of_none hhosts hne hallowed hwrite
  · exact singleGroup_apply_of_some hhosts hallowed hwrite

end Request

/-- A positive count below half a word is read the same from the low half of the count. -/
theorem toNat_toUInt32_of_pos {n : Int64} (hpos : 0 < n.toInt) (hlt : n.toInt < 2 ^ 32) :
    n.toUInt64.toUInt32.toNat = n.toInt.toNat := by
  rw [← Int.emod_eq_of_lt hpos.le hlt, ← toNat_toUInt32_eq_emod, Int.toNat_natCast]

/-- Within the group, counts by either kind of calls correspond. -/
theorem singleGroup_processorCount (hhosts : singleGroup.hosts h h') :
    singleGroup.Actions MaskCalls.processorCount processorCount h h' := by
  obtain ⟨hgroup, errno, lastError, rfl⟩ := hhosts
  obtain ⟨hpos, hlt⟩ := hgroup.processors
  have hnat := toNat_toUInt32_of_pos hpos hlt
  have hzero : h.processors.toUInt64.toUInt32 ≠ 0 := by
    intro hzero
    rw [hzero, UInt32.toNat_zero] at hnat
    omega
  have hpositive : 0 < h.processors := Int64.lt_iff_toInt_lt.mpr hpos
  have hwords := MaskCalls.processorCount_runOn h
  rw [if_pos hpositive] at hwords
  have hcounted := processorCount_runOn { h with errno, lastError }
  rw [if_neg hzero, hnat] at hcounted
  have hleft : Host.WithinGroup { h with errno := h.processorsError } :=
    ⟨hgroup.possible, hgroup.mask, hgroup.nonempty, hgroup.readError, hgroup.writeError,
      hgroup.processors⟩
  exact ⟨_, _, _, hwords, hcounted, ⟨hleft, errno, h.processorsError.toUInt32, rfl⟩,
    .cons .count .nil, .nil⟩

/-- The platforms of the two kinds of calls correspond within the group. -/
theorem singleGroup_platforms : singleGroup.Platforms .linux .windows :=
  ⟨singleGroup_read, singleGroup_processorCount⟩

/-- A step within the group corresponds to itself over the other kind of calls. -/
theorem singleGroup_step (hhosts : singleGroup.hosts h h') {s : Step}
    (hs : s.WithinGroup h.possible) : singleGroup.Steps (step .linux h s) (step .windows h' s) := by
  cases s with
  | perform operation =>
    apply singleGroup_platforms.step_perform hhosts
    intro cpus hcpus
    obtain ⟨hne, hallowed⟩ := hs cpus hcpus
    exact singleGroup_apply hhosts hne hallowed
  | configure change =>
    obtain ⟨hgroup, errno, lastError, rfl⟩ := hhosts
    exact ⟨⟨rfl, .nil, .nil, rfl⟩, hgroup.change hs, errno, lastError, rfl⟩

/-- Corresponding records agree but for the calls. -/
theorem singleGroup_records {r r' : Record} (hrecords : singleGroup.Records r r') :
    r.Counterpart r' :=
  ⟨hrecords.result, hrecords.calls, hrecords.events_eq rfl, hrecords.mask⟩

/-- A session within a single processor group is the same over mask calls and over group
calls: step by step the same results, events and affinities, and as many calls, which are
counterparts in order. Each requests over mask calls the single word that it requests over
group calls. -/
theorem run_windows_counterpart_run_linux (h : Host) (steps : List Step) (hstart : h.WithinGroup)
    (hsteps : ThreadSession.WithinGroup h.possible steps) :
    List.Forall₂ Record.Counterpart (run .linux h steps).1 (run .windows h steps).1 := by
  have hhosts : singleGroup.hosts h h := ⟨hstart, h.errno, h.lastError, rfl⟩
  have hrun : List.Forall₂ singleGroup.Records (run .linux h steps).1 (run .windows h steps).1 := by
    refine Correspondence.run_of_steps (fun h steps => ThreadSession.WithinGroup h.possible steps)
      ?_ hhosts hsteps
    intro h h' s rest hcurrent hgood
    refine ⟨singleGroup_step hcurrent hgood.1, ?_⟩
    rw [ThreadSession.step_possible]
    exact hgood.2
  exact hrun.imp fun _ _ => singleGroup_records

/-- A thread that may use CPUs zero to two sets two of them, fails to read the affinity back
after setting a third, and is refused a pin after it has lost a CPU. -/
theorem run_windows_counterpart_run_linux_of_failures :
    let h : Host := { possible := .ofMembers {0, 1, 2}, mask := .ofMembers {1}, processors := 8 }
    let steps : List Step := [.perform (.set [⟨2⟩, ⟨0⟩, ⟨2⟩]), .perform .count,
      .configure { readError := some (some (-5)) }, .perform (.set [⟨1⟩]), .perform .get,
      .configure { possible := some (.ofMembers {1, 63}), writeError := some (some 22) },
      .perform (.pin ⟨63⟩)]
    h.WithinGroup ∧ ThreadSession.WithinGroup h.possible steps ∧
      List.Forall₂ Record.Counterpart (run .linux h steps).1 (run .windows h steps).1 := by
  intro h steps
  have hstart : h.WithinGroup := by
    refine ⟨Words.ofMembers_withinGroup (by decide), Words.ofMembers_withinGroup (by decide), ?_,
      by decide, by decide, by decide⟩
    rw [Words.members_ofMembers_of_group (by decide)]
    exact Finset.singleton_nonempty 1
  have hfail : Host.Change.WithinGroup { readError := some (some (-5)) } :=
    ⟨by simp, by simp, by simp, by simp, by simp⟩
  have hloss : Host.Change.WithinGroup
      { possible := some (.ofMembers {1, 63}), writeError := some (some 22) } :=
    ⟨by simpa using Words.ofMembers_withinGroup (by decide), by simp, by simp, by simp, by simp⟩
  have hsteps : ThreadSession.WithinGroup h.possible steps := by
    have hbefore : h.possible.members = {0, 1, 2} := Words.members_ofMembers_of_group (by decide)
    have hafter : (Words.ofMembers {1, 63}).members = {1, 63} :=
      Words.members_ofMembers_of_group (by decide)
    simp only [steps, ThreadSession.WithinGroup, Step.WithinGroup, Operation.requested,
      Step.possibleAfter, Option.getD_none, Option.getD_some, Option.mem_def, Option.some.injEq,
      forall_eq', reduceCtorEq, IsEmpty.forall_iff, implies_true, hbefore, hafter, hfail, hloss,
      true_and, and_true]
    decide
  exact ⟨hstart, hsteps, run_windows_counterpart_run_linux h steps hstart hsteps⟩

end GroupCalls

end CpuAffinity
