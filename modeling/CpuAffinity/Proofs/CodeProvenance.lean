import CpuAffinity.Proofs.LastError

/-!
# Where the code of a failure comes from

An operation that fails with a code has made a call, and the code is that of its last call. Mask
calls may leave their codes in the error number, but it is read right after it was written. One
failure alone shows a code of the past: a group word stored over a zero one has left no code,
and what is reported is the last error as the latest call before has written it.
-/

namespace CpuAffinity

open ThreadSession (Step Record step run history)

/-- A code that is explained by a call: it is the call's own code, or what the last error held
before a group word was stored over a zero one. -/
inductive Made.Explains (p : Platform) (last : Made) (code : Int32) : Prop where
  | own (hcode : last.code = some code)
  | past (hp : p = .windows) (word : BitVec 64) (hstored : last.StoredOverZero word)
    (hcode : code = last.host.lastError.toInt32)

/-- What is left by an action that failed with a code: a single call, which explains the code.
By mask calls, the code is not zero. -/
structure FailedByCall (p : Platform) (h : Host) (code : Int32) (t : Trace) : Prop where
  call : ∃ call, t.calls = [call] ∧ Made.Explains p ⟨h, call⟩ code
  code_ne_zero : p ≠ .windows → code ≠ 0

namespace MaskCalls

variable {h : Host} {t : Trace} {code : Int32}

/-- A status that is a failure is its code, which is not zero. -/
theorem status_eq_error {status' : Int32}
    (hstatus : status status' = .error (.errorCode code)) : status' = code ∧ code ≠ 0 := by
  unfold status at hstatus
  split at hstatus
  · cases hstatus
  · next hne => cases hstatus; exact ⟨rfl, hne⟩

/-- A request by mask calls that fails with a code fails by its call. -/
theorem apply_failedByCall (family : Family) {cpus : List CpuId}
    (hrun : (apply family cpus).runOn { host := h } = (.error (.errorCode code), t)) :
    FailedByCall family.platform h code t := by
  rcases hfind : cpus.find? (CpuId.beyond maskCapacity) with _ | cpu
  · have hcpus := (CpuId.find?_beyond_eq_none maskCapacity cpus).mp hfind
    have hown := Host.codeOf_setCall (h := h) family (.ofMembers (CpuId.indices cpus))
    rcases hset : h.restrict (.ofMembers (CpuId.indices cpus)) with refused | granted
    · rw [apply_of_error family hcpus hset, Prod.mk.injEq] at hrun
      obtain ⟨hstatus, rfl⟩ := hrun
      obtain ⟨rfl, hne⟩ := status_eq_error hstatus
      rw [hset] at hown
      exact ⟨⟨_, rfl, .own hown⟩, fun _ => hne⟩
    · rw [apply_of_ok family hcpus hset] at hrun
      cases hrun
  · rw [apply_of_beyond family hfind] at hrun
    cases hrun

/-- A read by mask calls that fails with a code fails by its call. -/
theorem read_failedByCall (family : Family)
    (hrun : (read family).runOn { host := h } = (.error (.errorCode code), t)) :
    FailedByCall family.platform h code t := by
  obtain hread | ⟨own, hread⟩ := h.readError.eq_none_or_eq_some
  · rw [read_of_none family hread] at hrun
    cases hrun
  · rw [read_of_some family hread, Prod.mk.injEq] at hrun
    obtain ⟨hstatus, rfl⟩ := hrun
    unfold status at hstatus
    split at hstatus
    · cases hstatus
    · next hne =>
      cases hstatus
      refine ⟨⟨_, rfl, .own ?_⟩, fun _ => hne⟩
      cases family <;> exact hread

end MaskCalls

namespace GroupCalls

variable {h : Host} {t : Trace} {code : Int32}

/-- A request by group calls that fails with a code fails by its call, but the code may be that
of an earlier one. -/
theorem apply_failedByCall {cpus : List CpuId}
    (hrun : (apply cpus).runOn { host := h } = (.error (.errorCode code), t)) :
    FailedByCall .windows h code t := by
  rcases hfind : cpus.find? (CpuId.beyond GroupWord.capacity) with _ | cpu
  · have hcpus := (CpuId.find?_beyond_eq_none GroupWord.capacity cpus).mp hfind
    obtain ⟨word, hword, -⟩ := GroupWord.ofCpus_of_forall_lt hcpus
    have hown := Host.codeOf_setThreadAffinityMask (h := h) word
    rcases hset : h.restrictGroup word with refused | granted
    · rw [apply_of_error hword hset] at hrun
      cases hrun
      rw [hset] at hown
      exact ⟨⟨_, rfl, .own hown⟩, fun hp => absurd rfl hp⟩
    · by_cases hprevious : Host.groupWord h.mask = 0#64
      · rw [apply_of_ok_of_zero hword hset hprevious] at hrun
        cases hrun
        have hstored := Made.storedOverZero_of_ok hset hprevious
        rw [(Host.restrictGroup_eq_of_ok hset).1]
        exact ⟨⟨_, rfl, .past rfl word hstored rfl⟩, fun hp => absurd rfl hp⟩
      · rw [apply_of_ok hword hset hprevious] at hrun
        cases hrun
  · rw [apply_of_beyond hfind] at hrun
    cases hrun

/-- A read by group calls that fails with a code fails by its call. -/
theorem read_failedByCall
    (hrun : read.runOn { host := h } = (.error (.errorCode code), t)) :
    FailedByCall .windows h code t := by
  obtain hread | ⟨own, hread⟩ := h.readError.eq_none_or_eq_some
  · rw [read_of_none hread] at hrun
    cases hrun
  · rw [read_of_some hread] at hrun
    cases hrun
    exact ⟨⟨_, rfl, .own hread⟩, fun hp => absurd rfl hp⟩

end GroupCalls

namespace Platform

variable {p : Platform} {h : Host} {t : Trace} {code : Int32}

/-- A request that fails with a code fails by its call. -/
theorem apply_failedByCall {cpus : List CpuId}
    (hrun : (p.apply cpus).runOn { host := h } = (.error (.errorCode code), t)) :
    FailedByCall p h code t := by
  induction p using MaskCalls.platform_cases with
  | family family =>
    rw [MaskCalls.platform_apply] at hrun
    exact MaskCalls.apply_failedByCall family hrun
  | windows => exact GroupCalls.apply_failedByCall hrun
  | unsupported => cases hrun

/-- A read that fails with a code fails by its call. -/
theorem read_failedByCall (hrun : p.read.runOn { host := h } = (.error (.errorCode code), t)) :
    FailedByCall p h code t := by
  induction p using MaskCalls.platform_cases with
  | family family =>
    rw [MaskCalls.platform_read] at hrun
    exact MaskCalls.read_failedByCall family hrun
  | windows => exact GroupCalls.read_failedByCall hrun
  | unsupported => cases hrun

/-- A count that fails with a code makes a single call, which has that code. -/
theorem processorCount_code
    (hrun : p.processorCount.runOn { host := h } = (.error (.errorCode code), t)) :
    ∃ call, t.calls = [call] ∧ h.codeOf call = some code := by
  cases p with
  | linux | android =>
    rw [processorCount, MaskCalls.processorCount_runOn, Prod.mk.injEq] at hrun
    obtain ⟨hresult, rfl⟩ := hrun
    split at hresult <;> cases hresult
    exact ⟨_, rfl, rfl⟩
  | windows =>
    rw [processorCount, GroupCalls.processorCount_runOn, Prod.mk.injEq] at hrun
    obtain ⟨hresult, rfl⟩ := hrun
    split at hresult <;> cases hresult
    exact ⟨_, rfl, rfl⟩
  | unsupported => cases hrun

end Platform

namespace ThreadSession

/-- The code that an operation fails with is explained by the last of its calls, on the host that
the others have left. By mask calls, only a count fails with code zero. -/
structure Explained (p : Platform) (h : Host) (operation : Operation) (code : Int32)
    (calls : List Call) : Prop where
  last : ∃ earlier call, calls = earlier ++ [call] ∧
    Made.Explains p ⟨h.performAll earlier, call⟩ code
  code_zero : p ≠ .windows → code = 0 → operation = .count

/-- A failure by a single call is explained by it. -/
theorem explained_of_failedByCall {p : Platform} {h : Host} {code : Int32} {t : Trace}
    (hfailed : FailedByCall p h code t) (operation : Operation) :
    Explained p h operation code t.calls := by
  obtain ⟨⟨call, hcalls, hcode⟩, hne⟩ := hfailed
  exact ⟨⟨[], call, hcalls, hcode⟩, fun hp hzero => absurd hzero (hne hp)⟩

/-- What is explained on the host that some calls leave is explained behind these calls. -/
theorem Explained.after {p : Platform} {h : Host} {operation : Operation} {code : Int32}
    {earlier calls : List Call}
    (hexplained : Explained p (h.performAll earlier) operation code calls) :
    Explained p h operation code (earlier ++ calls) := by
  obtain ⟨⟨between, call, hcalls, hcode⟩, hzero⟩ := hexplained
  refine ⟨⟨earlier ++ between, call, ?_, ?_⟩, hzero⟩
  · rw [hcalls, List.append_assoc]
  · rw [Host.performAll_append]
    exact hcode

/-- A step that fails with a code is explained by its last call. -/
theorem step_errorCode {p : Platform} {h : Host} {operation : Operation} {code : Int32}
    (herror : (step p h (.perform operation)).1.result = .error (.errorCode code)) :
    Explained p h operation code (step p h (.perform operation)).1.calls := by
  cases operation with
  | get =>
    rcases hread : p.read.runOn { host := h } with ⟨e | cpus, t⟩
    · rw [step_get_of_error hread] at herror ⊢
      cases herror
      exact explained_of_failedByCall (Platform.read_failedByCall hread) .get
    · rw [step_get_of_ok hread] at herror
      cases herror
  | set cpus =>
    rcases happly : (p.apply cpus).runOn { host := h } with ⟨e | _, t⟩
    · rw [step_set_of_error happly] at herror ⊢
      cases herror
      exact explained_of_failedByCall (Platform.apply_failedByCall happly) (.set cpus)
    · rcases hread : p.read.runOn { host := t.host } with ⟨e | effective, t'⟩
      · rw [step_set_of_read_error happly hread] at herror ⊢
        cases herror
        have hexplained :=
          explained_of_failedByCall (Platform.read_failedByCall hread) (.set cpus)
        rw [((p.apply_adds cpus).fresh happly).2.1] at hexplained
        exact hexplained.after
      · rw [step_set_of_read_ok happly hread] at herror
        cases herror
  | pin cpu =>
    rcases happly : (p.apply [cpu]).runOn { host := h } with ⟨e | _, t⟩
    · rw [step_pin_of_error happly] at herror ⊢
      cases herror
      exact explained_of_failedByCall (Platform.apply_failedByCall happly) (.pin cpu)
    · rw [step_pin_of_ok happly] at herror
      cases herror
  | count =>
    rcases hcount : p.processorCount.runOn { host := h } with ⟨e | n, t⟩
    · rw [step_count, hcount] at herror ⊢
      cases herror
      obtain ⟨call, hcalls, hcode⟩ := Platform.processorCount_code hcount
      exact ⟨⟨[], call, hcalls, .own hcode⟩, fun _ _ => rfl⟩
    · rw [step_count, hcount] at herror
      cases herror

/-- In every session, the code of a step's failure is that of the step's own last call. There is
one exception: where a group word was stored over a zero one, it is the code that the latest
call before had written into the last error, or what stood there at the start if none had. By
mask calls, only a count fails with code zero. -/
theorem errorCode_of_last_call (p : Platform) (h : Host) (steps : List Step) (n : ℕ) {s : Step}
    {r : Record} {code : Int32} (hs : steps[n]? = some s) (hr : (run p h steps).1[n]? = some r)
    (hresult : r.result = .error (.errorCode code)) :
    ∃ (past : List Made) (last : Made),
      history p h (steps.take (n + 1)) = past ++ [last] ∧ r.calls.getLast? = some last.call ∧
      (p ≠ .windows → last.code = some code ∧ (code = 0 → s = .perform .count)) ∧
      (p = .windows → (∀ word, ¬ last.StoredOverZero word) → last.code = some code) ∧
      (p = .windows → ∀ word, last.StoredOverZero word →
        code = (Made.latestWritten past).getD h.lastError.toInt32) := by
  rw [run_getElem?, hs, Option.map_some, Option.some.injEq] at hr
  have hhistory := history_take_succ p h hs
  rw [hr] at hhistory
  obtain ⟨reached, hreached⟩ : ∃ reached, reached = (run p h (steps.take n)).2 := ⟨_, rfl⟩
  rw [← hreached] at hr hhistory
  cases s with
  | configure change =>
    rw [← hr] at hresult
    cases hresult
  | perform operation =>
    rw [← hr] at hresult
    obtain ⟨⟨earlier, call, hcalls, hexplains⟩, hzero⟩ := step_errorCode hresult
    rw [hr] at hcalls
    rw [hcalls, Host.making_append, ← List.append_assoc] at hhistory
    refine ⟨_, ⟨reached.performAll earlier, call⟩, hhistory, ?_, ?_, ?_, ?_⟩
    · rw [hcalls, List.getLast?_concat]
    · intro hp
      cases hexplains with
      | own hcode => exact ⟨hcode, fun hcodezero => congrArg Step.perform (hzero hp hcodezero)⟩
      | past hwindows => exact absurd hwindows hp
    · intro hp hnot
      cases hexplains with
      | own hcode => exact hcode
      | past _ word hstored => exact absurd hstored (hnot word)
    · intro hp word hstored
      cases hexplains with
      | own hcode =>
        rw [hstored.code_eq_none] at hcode
        cases hcode
      | past _ _ _ hcode =>
        rw [hcode, ← Made.lastErrorAfter_toInt32, Made.lastErrorAfter_append, ← run_lastError,
          ← hreached, ← Host.performAll_lastError]

/-- A count that succeeded has left a negative code in the last error, and a word stored over a
zero one is reported with it. -/
theorem errorCode_of_earlier_count :
    let h : Host := { possible := ⟨.replicate 16 7#64⟩, processors := 8, processorsError := -3 }
    let steps : List Step := [.perform .count, .perform (.set [⟨1⟩])]
    ∃ r, steps[1]? = some (.perform (.set [⟨1⟩])) ∧ (run .windows h steps).1[1]? = some r ∧
      r.result = .error (.errorCode (-3)) ∧
      ∃ past last, history .windows h steps = past ++ [last] ∧ last.StoredOverZero 2#64 ∧
        -3 = (Made.latestWritten past).getD 0 := by
  intro h steps
  have hresult : (step .windows (run .windows h [.perform .count]).2
      (.perform (.set [⟨1⟩]))).1.result = .error (.errorCode (-3)) := by decide
  obtain ⟨past, last, hhistory, -, -, -, hpast⟩ :=
    errorCode_of_last_call .windows h steps 1 rfl rfl hresult
  have hcalls : history .windows h steps =
      [⟨h, .getActiveProcessorCount allProcessorGroups⟩] ++
        [⟨{ h with lastError := (-3 : Int32).toUInt32 }, .setThreadAffinityMask 2#64⟩] := by decide
  have hlast := List.singleton_inj.mp (List.append_inj' (hhistory.symm.trans hcalls) rfl).2
  have hstored : last.StoredOverZero 2#64 := by
    rw [hlast]
    exact ⟨rfl, rfl, by decide, by decide, by decide, by decide⟩
  exact ⟨_, rfl, rfl, hresult, past, last, hhistory, hstored, hpast rfl 2#64 hstored⟩

end ThreadSession

end CpuAffinity
