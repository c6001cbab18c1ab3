import CpuAffinity.Proofs.CallEffects
import CpuAffinity.Proofs.Correspondence

/-!
# Counts of processors, up to their limits

A count answers the number of processors that the host is set to, as far as the platform's call
shows it: the whole signed number, or its lower half as an unsigned one. Where nothing positive
is shown, the count fails with the code that the host is set to; on its way through the error
cell the code keeps its sign. The cell is written by the count's own call, so what a session has
done before makes no difference, and the count itself leaves nothing but the code behind.
-/

namespace CpuAffinity

open ThreadSession (Step Record step run)

/-- The number of processors as the call of a platform shows it, if there is such a call. -/
def Platform.shownCount (processors : Int64) : Platform → Option ℤ
  | linux | android => some processors.toInt
  | windows => some (processors.toInt % 2 ^ 32)
  | unsupported => none

/-- Two hosts that are set to the same number of processors, and to the same code for it. -/
structure Host.SameProcessors (h h' : Host) : Prop where
  processors : h'.processors = h.processors
  code : h'.processorsError = h.processorsError

/-- What a count leaves on a platform, on a host: the number that the call shows if it is
positive, and the code otherwise, after a single call. -/
structure Platform.CountsExactly (p : Platform) (h : Host) (r : Record) : Prop where
  ok_iff : ∀ shown ∈ p.shownCount h.processors, ∀ n : ℕ,
    r.result = .ok (.number n) ↔ (n : ℤ) = shown ∧ 0 < n
  error : ∀ shown ∈ p.shownCount h.processors, shown ≤ 0 →
    r.result = .error (.errorCode h.processorsError)
  lt_half : p = .windows → ∀ n : ℕ, r.result = .ok (.number n) → n < 2 ^ 32
  calls : p ≠ .unsupported → ∃ call, r.calls = [call] ∧ call.kind = .count
  ne_zero : r.result ≠ .ok (.number 0)

namespace Platform

variable {p q : Platform} {h h' : Host} {shown : ℤ}

/-- A count makes one call and goes by what that call shows: a positive number is answered, and
anything else is the failure that the call has left in an error cell. -/
theorem processorCount_of_shown (hshown : p.shownCount h.processors = some shown) :
    ∃ call errno lastError, call.kind = .count ∧ p.processorCount.runOn { host := h } =
      (if 0 < shown then .ok shown.toNat else .error (.errorCode h.processorsError),
        ⟨{ h with errno := errno, lastError := lastError }, [call], []⟩) := by
  cases p with
  | linux | android =>
    obtain rfl : h.processors.toInt = shown := Option.some.inj hshown
    have hpos : 0 < h.processors ↔ 0 < h.processors.toInt := Int64.lt_iff_toInt_lt
    refine ⟨.sysconf, h.processorsError, h.lastError, rfl, ?_⟩
    rw [processorCount, MaskCalls.processorCount_runOn]
    simp only [hpos]
  | windows =>
    have hshown := Option.some.inj hshown
    rw [← GroupCalls.toNat_toUInt32_eq_emod] at hshown
    obtain rfl := hshown
    have hpos : 0 < (h.processors.toUInt64.toUInt32.toNat : ℤ) ↔
        ¬ h.processors.toUInt64.toUInt32 = 0 := by
      rw [← UInt32.toNat_inj, UInt32.toNat_zero]
      omega
    refine ⟨.getActiveProcessorCount allProcessorGroups, h.errno, h.processorsError.toUInt32, rfl, ?_⟩
    rw [processorCount, GroupCalls.processorCount_runOn]
    simp only [hpos, ite_not, Int.toNat_natCast]
  | unsupported => cases hshown

/-- A step that counts shows the run of the count. -/
theorem step_count_of_shown (hshown : p.shownCount h.processors = some shown) :
    ∃ call errno lastError, call.kind = .count ∧ step p h (.perform .count) =
      (⟨if 0 < shown then .ok (.number shown.toNat) else .error (.errorCode h.processorsError),
          [call], [], h.mask⟩, { h with errno := errno, lastError := lastError }) := by
  obtain ⟨call, errno, lastError, hkind, hrun⟩ := processorCount_of_shown hshown
  refine ⟨call, errno, lastError, hkind, ?_⟩
  rw [ThreadSession.step_count, hrun]
  split <;> rfl

/-- A platform with calls shows some count. -/
theorem exists_shownCount (hp : p ≠ .unsupported) (processors : Int64) :
    ∃ shown, p.shownCount processors = some shown := by
  cases p with
  | linux | android | windows => exact ⟨_, rfl⟩
  | unsupported => exact absurd rfl hp

/-- A number that fits the half is shown alike by all calls. -/
theorem shownCount_of_lt (hp : p ≠ .unsupported) {processors : Int64} (hnonneg : 0 ≤ processors.toInt)
    (hlt : processors.toInt < 2 ^ 32) : p.shownCount processors = some processors.toInt := by
  cases p with
  | linux | android => rfl
  | windows => rw [shownCount, Int.emod_eq_of_lt hnonneg hlt]
  | unsupported => exact absurd rfl hp

/-- A count answers the number that is shown, if it is positive, and fails otherwise. -/
theorem step_countsExactly (p : Platform) (h : Host) :
    p.CountsExactly h (step p h (.perform .count)).1 := by
  by_cases hp : p = .unsupported
  · subst hp
    refine ⟨?_, ?_, nofun, fun hp => absurd rfl hp, nofun⟩
    · rintro shown ⟨⟩
    · rintro shown ⟨⟩
  · obtain ⟨shown, hshown⟩ := exists_shownCount hp h.processors
    obtain ⟨call, errno, lastError, hkind, hstep⟩ := step_count_of_shown hshown
    have hok (n : ℕ) : (step p h (.perform .count)).1.result = .ok (.number n) ↔
        (n : ℤ) = shown ∧ 0 < n := by
      rw [hstep]
      simp only
      split
      · simp only [Except.ok.injEq, Answer.number.injEq]
        omega
      · simp only [reduceCtorEq, false_iff]
        omega
    refine ⟨?_, ?_, ?_, fun _ => ⟨call, by rw [hstep], hkind⟩, ?_⟩
    · intro other hother
      obtain rfl := Option.some.inj (hshown.symm.trans hother)
      exact hok
    · intro other hother hle
      obtain rfl := Option.some.inj (hshown.symm.trans hother)
      rw [hstep]
      exact if_neg (not_lt.mpr hle)
    · rintro rfl n hn
      have hmod := Option.some.inj hshown
      have heq := ((hok n).mp hn).1
      omega
    · intro hzero
      exact absurd ((hok 0).mp hzero).2 (lt_irrefl 0)

/-- A count changes nothing but what a failed call leaves behind. -/
theorem step_count_sameButErrors (p : Platform) (h : Host) :
    h.SameButErrors (step p h (.perform .count)).2 := by
  by_cases hp : p = .unsupported
  · subst hp
    exact ⟨h.errno, h.lastError, rfl⟩
  · obtain ⟨shown, hshown⟩ := exists_shownCount hp h.processors
    obtain ⟨call, errno, lastError, -, hstep⟩ := step_count_of_shown hshown
    exact ⟨errno, lastError, congrArg Prod.snd hstep⟩

/-- Hosts that are set alike are counted alike, by all calls that show the same. -/
theorem step_count_congr (hhosts : h.SameProcessors h')
    (hshown : q.shownCount h.processors = p.shownCount h.processors) :
    (step q h' (.perform .count)).1.result = (step p h (.perform .count)).1.result := by
  cases hp : p.shownCount h.processors with
  | none =>
    -- only a platform without calls shows nothing, so both refuse
    have hnone {p : Platform} (hnone : p.shownCount h.processors = none) : p = .unsupported := by
      by_contra hp
      obtain ⟨shown, hshown⟩ := exists_shownCount hp h.processors
      rw [hnone] at hshown
      cases hshown
    rw [hnone hp, hnone (hshown.trans hp)]
    rfl
  | some shown =>
    have hq : q.shownCount h'.processors = some shown := by rw [hhosts.processors, hshown, hp]
    obtain ⟨_, _, _, -, hstep⟩ := step_count_of_shown hp
    obtain ⟨_, _, _, -, hstep'⟩ := step_count_of_shown hq
    rw [hstep, hstep', hhosts.code]

end Platform

namespace Host.SameProcessors

variable {h h' h'' : Host}

/-- Being set alike is passed on. -/
theorem trans (hfirst : h.SameProcessors h') (hsecond : h'.SameProcessors h'') :
    h.SameProcessors h'' :=
  ⟨hsecond.processors.trans hfirst.processors, hsecond.code.trans hfirst.code⟩

/-- Being set alike goes both ways. -/
theorem symm (hhosts : h.SameProcessors h') : h'.SameProcessors h :=
  ⟨hhosts.processors.symm, hhosts.code.symm⟩

/-- Hosts that are set alike are still so after the same change. -/
theorem change (hhosts : h.SameProcessors h') (c : Host.Change) :
    (h.change c).SameProcessors (h'.change c) :=
  ⟨congrArg c.processors.getD hhosts.processors, congrArg c.processorsError.getD hhosts.code⟩

/-- Calls leave the number of processors and its code as they are set. -/
theorem performAll (h : Host) (calls : List Call) : h.SameProcessors (h.performAll calls) := by
  induction calls generalizing h with
  | nil => exact ⟨rfl, rfl⟩
  | cons c rest ih =>
    have hfirst : h.SameProcessors (h.perform c).2 := ⟨by simp, by simp⟩
    exact hfirst.trans (ih (h.perform c).2)

/-- A step sets a host as it is set from outside by this step. -/
theorem step (hhosts : h.SameProcessors h') (p : Platform) (s : Step) :
    (s.configured h).SameProcessors (ThreadSession.step p h' s).2 := by
  cases s with
  | perform operation =>
    rw [ThreadSession.step_perform_host]
    exact hhosts.trans (performAll h' _)
  | configure c => exact hhosts.change c

/-- A session leaves a host set as it was set from outside, whatever was done in between. -/
theorem run (hhosts : h.SameProcessors h') (p : Platform) (steps : List Step) :
    (steps.foldl Step.configured h).SameProcessors (ThreadSession.run p h' steps).2 := by
  induction steps generalizing h h' with
  | nil => exact hhosts
  | cons s rest ih => exact ih (hhosts.step p s)

end Host.SameProcessors

namespace ThreadSession

/-- After every session, a count answers exactly the number that is shown, and fails exactly with
the code that is set, both as they were last set from outside: what the session has done has no
influence. It makes a single call and leaves nothing behind but an error. Two counts, after
whatever sessions, end alike if the same was set, on the same platform or, for a number that fits
the half, on any two with calls. -/
theorem counts_exact_after_session (p : Platform) (h : Host) (steps : List Step) :
    let reached := (run p h steps).2
    let settings := steps.foldl Step.configured h
    let counted := step p reached (.perform .count)
    settings.SameProcessors reached ∧ p.CountsExactly reached counted.1 ∧
      reached.SameButErrors counted.2 ∧
      ∀ (q : Platform) (h' : Host) (steps' : List Step),
        settings.SameProcessors (steps'.foldl Step.configured h') →
        (q = p ∨ q ≠ .unsupported ∧ p ≠ .unsupported ∧
          0 ≤ settings.processors.toInt ∧ settings.processors.toInt < 2 ^ 32) →
        (step q (run q h' steps').2 (.perform .count)).1.result = counted.1.result := by
  intro reached settings counted
  have hreached : settings.SameProcessors reached := Host.SameProcessors.run ⟨rfl, rfl⟩ p steps
  refine ⟨hreached, p.step_countsExactly reached, p.step_count_sameButErrors reached, ?_⟩
  intro q h' steps' hsettings hplatforms
  have hreached' := hsettings.trans (Host.SameProcessors.run ⟨rfl, rfl⟩ q steps')
  apply Platform.step_count_congr (hreached.symm.trans hreached')
  rcases hplatforms with rfl | ⟨hq, hp, hnonneg, hlt⟩
  · rfl
  · rw [hreached.processors, Platform.shownCount_of_lt hq hnonneg hlt,
      Platform.shownCount_of_lt hp hnonneg hlt]

/-- By group calls, a negative number is shown as the one processor of its lower half, and a
number with an empty lower half fails with its negative code, after a read that has failed with
another. A number that fits the half is counted by mask calls as well. -/
theorem counts_exact_after_failed_read :
    let h : Host := { processors := -4294967295, processorsError := -7, readError := some 5 }
    let set (n : Int64) : List Step := [.perform .get, .configure { processors := some n }]
    let counted (steps : List Step) := (step .windows (run .windows h steps).2 (.perform .count)).1
    (counted [.perform .get]).result = .ok (.number 1) ∧
      (counted (set 4294967296)).result = .error (.errorCode (-7)) ∧
      (step .linux (run .linux h (set 8)).2 (.perform .count)).1.result =
        (counted (set 8)).result := by
  intro h set counted
  obtain ⟨hone, hexact, -, -⟩ := counts_exact_after_session .windows h [.perform .get]
  obtain ⟨hempty, hexact', -, -⟩ := counts_exact_after_session .windows h (set 4294967296)
  obtain ⟨-, -, -, hplatforms⟩ := counts_exact_after_session .windows h (set 8)
  refine ⟨(hexact.ok_iff 1 ?_ 1).mpr (by decide), hexact'.error 0 ?_ le_rfl, ?_⟩
  · rw [hone.processors]
    decide
  · rw [hempty.processors]
    decide
  · exact hplatforms .linux h (set 8) ⟨rfl, rfl⟩ (.inr (by decide))

end ThreadSession

end CpuAffinity
