import CpuAffinity.Proofs.AllowedAffinity
import CpuAffinity.Proofs.GrantedRequests

/-!
# Saving an affinity and setting it again

The list that a read answers stands for the affinity: setting it again brings back all
sixteen words, whatever operations were carried out in between and however they ended. This
rests on three things that every session keeps. The CPUs that may be used stay the same, the
affinity never becomes empty, so that a stored request is not reported as a failure, and the
words that the platform's calls do not reach stay as they were.
-/

namespace CpuAffinity

namespace Platform

variable {h : Host} {w : Words}

/-- Requesting all members of some words by mask calls makes these words the affinity. -/
theorem apply_members (family : MaskCalls.Family) (hwrite : h.writeError = none)
    (hne : w.members.Nonempty) (hallowed : w.members ⊆ h.possible.members) :
    (family.platform.apply (CpuId.ascending w.members)).runOn { host := h } =
      (.ok (), ⟨{ h with mask := w }, [family.setCall w], []⟩) := by
  rw [← CpuId.indices_ascending w.members] at hne hallowed
  have hrequest := MaskCalls.apply_of_allowed family hwrite hne hallowed
  simpa using hrequest

/-- Requesting all members of a group word by group calls makes this word the affinity within
the group. -/
theorem apply_groupWord (hwrite : h.writeError = none)
    (hne : (windows.visible w).Nonempty) (hallowed : windows.visible w ⊆ windows.visible h.possible)
    (hprevious : (windows.visible h.mask).Nonempty)
    (hothers : ∀ i, i ≠ 0 → h.mask.word i = w.word i) :
    (windows.apply (CpuId.ascending (windows.visible w))).runOn { host := h } =
      (.ok (), ⟨{ h with mask := w }, [.setThreadAffinityMask (Host.groupWord w)], []⟩) := by
  rw [← CpuId.indices_ascending (windows.visible w)] at hne hallowed
  obtain ⟨word, hmembers, hrequest⟩ := GroupCalls.apply_of_allowed hwrite hne hallowed
    ((GroupWord.members_nonempty _).mp hprevious)
  rw [CpuId.indices_ascending] at hmembers
  rw [GroupWord.members_injective hmembers, Host.setWord_groupWord hothers] at hrequest
  exact hrequest

/-- An affinity is brought back by requesting the CPUs of it that the platform's calls reach.
They must still be allowed, and the words that the calls do not reach must still be there. -/
theorem apply_visible {p : Platform} (hp : p ≠ unsupported) (hwrite : h.writeError = none)
    (hne : (p.visible w).Nonempty) (hallowed : p.visible w ⊆ p.visible h.possible)
    (hprevious : (p.visible h.mask).Nonempty)
    (hothers : p = windows → ∀ i, i ≠ 0 → h.mask.word i = w.word i) :
    ∃ call, (p.apply (CpuId.ascending (p.visible w))).runOn { host := h } =
      (.ok (), ⟨{ h with mask := w }, [call], []⟩) := by
  induction p using MaskCalls.platform_cases with
  | family family =>
    simp only [visible_family] at hne hallowed ⊢
    exact ⟨_, apply_members family hwrite hne hallowed⟩
  | windows => exact ⟨_, apply_groupWord hwrite hne hallowed hprevious (hothers rfl)⟩
  | unsupported => exact absurd rfl hp

end Platform

namespace ThreadSession

variable {p : Platform} {h : Host} {w : Words}

/-- A read on a host that does not fail answers the CPUs that the platform's calls reach, and
leaves the host alone. -/
theorem step_get_of_none (hp : p ≠ .unsupported) (hread : h.readError = none) :
    step p h (.perform .get) =
      (⟨.ok (.cpus (CpuId.ascending (p.visible h.mask))), p.readCall.toList, [], h.mask⟩, h) := by
  induction p using MaskCalls.platform_cases with
  | family family =>
    rw [MaskCalls.step_get_of_none family hread, Platform.visible_family]
    cases family <;> rfl
  | windows => exact GroupCalls.step_get_of_none hread
  | unsupported => exact absurd rfl hp

/-- Where neither requests nor reads fail, setting an affinity that is still allowed brings it
back and answers it. -/
theorem step_set_visible (hp : p ≠ .unsupported) (hread : h.readError = none)
    (hwrite : h.writeError = none) (hne : (p.visible w).Nonempty)
    (hallowed : p.visible w ⊆ p.visible h.possible) (hprevious : (p.visible h.mask).Nonempty)
    (hothers : p = .windows → ∀ i, i ≠ 0 → h.mask.word i = w.word i) :
    (step p h (.perform (.set (CpuId.ascending (p.visible w))))).1.result =
        .ok (.cpus (CpuId.ascending (p.visible w))) ∧
      (step p h (.perform (.set (CpuId.ascending (p.visible w))))).2 = { h with mask := w } := by
  obtain ⟨call, happly⟩ := Platform.apply_visible hp hwrite hne hallowed hprevious hothers
  obtain ⟨hresult, -, hhost⟩ := step_set_of_ok happly
  have hget := step_get_of_none (h := { h with mask := w }) hp hread
  rw [hget] at hresult hhost
  exact ⟨hresult, hhost⟩

/-- From an allowed affinity, the list that a first read answers can be saved. Whatever is
done afterwards, setting the saved list is answered with the same list and leaves every word
of the affinity as it was at the start, if neither requests nor reads fail by then. -/
theorem set_restores_saved (p : Platform) (h : Host) (steps : List Step) (hp : p ≠ .unsupported)
    (hstart : p.Settled h) (hread : h.readError = none) (hsteps : ∀ s ∈ steps, s.KeepsAffinity) :
    ∃ saved, (step p h (.perform .get)).1.result = .ok (.cpus saved) ∧
      ∀ reached, reached = (run p h (.perform .get :: steps)).2 →
        reached.readError = none → reached.writeError = none →
        (step p reached (.perform (.set saved))).1.result = .ok (.cpus saved) ∧
          (step p reached (.perform (.set saved))).1.mask = h.mask := by
  refine ⟨CpuId.ascending (p.visible h.mask), ?_, ?_⟩
  · rw [step_get_of_none hp hread]
  · intro reached hreached hreadable hwritable
    have hkeeps : p.Keeps h reached := by
      rw [hreached]
      apply run_keeps
      simpa only [List.forall_mem_cons] using ⟨trivial, hsteps⟩
    have hallowed : p.visible h.mask ⊆ p.visible reached.possible := by
      rw [hkeeps.possible]
      exact hstart.allowed
    obtain ⟨hresult, hhost⟩ := step_set_visible hp hreadable hwritable hstart.nonempty hallowed
      (hkeeps.settled hstart).nonempty hkeeps.others
    refine ⟨hresult, ?_⟩
    rw [step_mask, hhost]

/-- A thread that holds CPUs zero and one of three gets them back after a setting, a refused
list, a pin that fails and a read that fails with code zero. -/
theorem set_restores_saved_after_failures :
    let h : Host := { possible := ⟨.replicate 16 7#64⟩, mask := ⟨.replicate 16 3#64⟩ }
    let steps : List Step := [.perform (.set [⟨2⟩]), .perform (.set [⟨1⟩, ⟨64⟩]),
      .configure { readError := some (some 0), writeError := some (some (-1)) },
      .perform (.pin ⟨1⟩), .perform .get, .perform .count,
      .configure { readError := some none, writeError := some none }]
    let reached := (run .windows h (.perform .get :: steps)).2
    Platform.windows.Settled h ∧ (∀ s ∈ steps, s.KeepsAffinity) ∧
      reached.readError = none ∧ reached.writeError = none ∧
      ∃ saved, (step .windows h (.perform .get)).1.result = .ok (.cpus saved) ∧
        (step .windows reached (.perform (.set saved))).1.result = .ok (.cpus saved) ∧
          (step .windows reached (.perform (.set saved))).1.mask = h.mask := by
  intro h steps reached
  have hstart : Platform.windows.Settled h := ⟨by decide, by decide⟩
  have hsteps : ∀ s ∈ steps, s.KeepsAffinity := by decide
  have hreadable : reached.readError = none := by rfl
  have hwritable : reached.writeError = none := by rfl
  obtain ⟨saved, hsaved, hrestored⟩ :=
    set_restores_saved .windows h steps (by decide) hstart rfl hsteps
  exact ⟨hstart, hsteps, hreadable, hwritable, saved, hsaved,
    hrestored reached rfl hreadable hwritable⟩

end ThreadSession

end CpuAffinity
