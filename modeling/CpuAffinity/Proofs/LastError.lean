import CpuAffinity.Proofs.CallEffects
import CpuAffinity.Proofs.HostRequests

/-!
# What calls leave in the last error

A call has a code where it fails, and counting the processors has one in any case. Group calls
write their codes into the last error, and nothing else does. After a session, the last error
therefore holds the code that the latest of its calls to write one has written.
-/

namespace CpuAffinity

open ThreadSession (Step step run)

namespace Host

/-- The code of a call on a host: the one that the call fails with, if it fails. Counting the
processors has a code in any case. -/
def codeOf (h : Host) : Call → Option Int32
  | .pthreadGetAffinity _ | .schedGetAffinity _ | .getThreadGroupAffinity => h.readError
  | .pthreadSetAffinity _ requested | .schedSetAffinity _ requested =>
    h.writeError <|> if Disjoint requested.members h.possible.members then some 22 else none
  | .setThreadAffinityMask requested =>
    h.writeError <|>
      if requested = 0#64 ∨ ¬ GroupWord.members requested ⊆ GroupWord.members (groupWord h.possible)
      then some 87 else none
  | .sysconf | .getActiveProcessorCount _ => some h.processorsError

/-- The code that a call writes into the last error, if it writes one: group calls write theirs. -/
def writtenCode (h : Host) : Call → Option Int32
  | .getThreadGroupAffinity => h.codeOf .getThreadGroupAffinity
  | .setThreadAffinityMask requested => h.codeOf (.setThreadAffinityMask requested)
  | .getActiveProcessorCount group => h.codeOf (.getActiveProcessorCount group)
  | _ => none

variable {h : Host}

/-- A request for words has the code that the host refuses it with. -/
theorem codeOf_setCall (family : MaskCalls.Family) (requested : Words) :
    h.codeOf (family.setCall requested) =
      match h.restrict requested with
      | .ok _ => none
      | .error code => some code := by
  have hfamily : h.codeOf (family.setCall requested) =
      (h.writeError <|> if Disjoint requested.members h.possible.members then some 22 else none) := by
    cases family <;> rfl
  rw [hfamily]
  obtain hwrite | ⟨code, hwrite⟩ := h.writeError.eq_none_or_eq_some
  · by_cases hdisjoint : Disjoint requested.members h.possible.members
    · simp [restrict_of_disjoint hwrite hdisjoint, hwrite, hdisjoint, invalidArgument]
    · simp [restrict_of_not_disjoint hwrite hdisjoint, hwrite, hdisjoint]
  · simp [restrict_of_some hwrite, hwrite]

/-- A request for a group word has the code that the host refuses it with. -/
theorem codeOf_setThreadAffinityMask (requested : BitVec 64) :
    h.codeOf (.setThreadAffinityMask requested) =
      match h.restrictGroup requested with
      | .ok _ => none
      | .error code => some code.toInt32 := by
  rw [codeOf]
  obtain hwrite | ⟨code, hwrite⟩ := h.writeError.eq_none_or_eq_some
  · by_cases hbad : requested = 0#64 ∨
        ¬ GroupWord.members requested ⊆ GroupWord.members (groupWord h.possible)
    · rw [restrictGroup_of_not_allowed hwrite hbad, hwrite, if_pos hbad]
      rfl
    · rw [if_neg hbad, hwrite]
      rw [not_or, not_not] at hbad
      rw [restrictGroup_of_allowed hwrite hbad.1 hbad.2]
      rfl
  · simp [restrictGroup_of_some hwrite, hwrite]

/-- The last error holds the code that a call has written there, or what it held before. -/
theorem perform_lastError (h : Host) (c : Call) :
    (h.perform c).2.lastError = ((h.writtenCode c).map Int32.toUInt32).getD h.lastError := by
  cases c with
  | pthreadGetAffinity | schedGetAffinity | getThreadGroupAffinity =>
    cases hread : h.readError <;> simp [perform, read, writtenCode, codeOf, hread]
  | pthreadSetAffinity size requested | schedSetAffinity size requested =>
    cases hset : h.restrict requested with
    | ok granted => simp [perform, hset, writtenCode, (restrict_eq_of_ok hset).1]
    | error code => simp [perform, hset, writtenCode]
  | sysconf => rfl
  | setThreadAffinityMask requested =>
    rw [writtenCode, codeOf_setThreadAffinityMask]
    cases hset : h.restrictGroup requested with
    | ok granted => simp [perform, hset, (restrictGroup_eq_of_ok hset).1]
    | error code => simp [perform, hset]
  | getActiveProcessorCount => rfl

end Host

/-- A call, with the host that it met. -/
structure Made where
  host : Host
  call : Call
  deriving DecidableEq

namespace Made

/-- The code of the call on the host that it met. -/
def code (made : Made) : Option Int32 := made.host.codeOf made.call

/-- The code that the call wrote into the last error. -/
def written (made : Made) : Option Int32 := made.host.writtenCode made.call

/-- The code that the latest call to write the last error wrote there. -/
def latestWritten (past : List Made) : Option Int32 := (past.filterMap written).getLast?

/-- What the last error holds after some calls, when it held `start` before them. -/
def lastErrorAfter (past : List Made) (start : UInt32) : UInt32 :=
  ((latestWritten past).map Int32.toUInt32).getD start

/-- A call that stored a group word, which is not zero and has no CPU that may not be used, where
the previous word was zero. It left no code. -/
structure StoredOverZero (made : Made) (word : BitVec 64) : Prop where
  call : made.call = .setThreadAffinityMask word
  writeError : made.host.writeError = none
  nonzero : word ≠ 0#64
  allowed : GroupWord.members word ⊆ GroupWord.members (Host.groupWord made.host.possible)
  previous : Host.groupWord made.host.mask = 0#64
  stored : (made.host.perform made.call).2 = { made.host with mask := made.host.mask.setWord 0 word }

/-- Later calls that write the last error go before earlier ones. -/
theorem latestWritten_append (earlier later : List Made) :
    latestWritten (earlier ++ later) = (latestWritten later).or (latestWritten earlier) := by
  rw [latestWritten, List.filterMap_append, List.getLast?_append]
  rfl

/-- Of a single call, the latest code is its own. -/
theorem latestWritten_singleton (made : Made) : latestWritten [made] = made.written := by
  cases hwritten : made.written <;> simp [latestWritten, hwritten]

/-- Later calls find what earlier ones have left in the last error. -/
theorem lastErrorAfter_append (earlier later : List Made) (start : UInt32) :
    lastErrorAfter (earlier ++ later) start = lastErrorAfter later (lastErrorAfter earlier start) := by
  simp only [lastErrorAfter, latestWritten_append]
  cases latestWritten later <;> rfl

/-- The last error is read back as the code that was written there. -/
theorem lastErrorAfter_toInt32 (past : List Made) (start : UInt32) :
    (lastErrorAfter past start).toInt32 = (latestWritten past).getD start.toInt32 := by
  rw [lastErrorAfter]
  cases latestWritten past with
  | none => rfl
  | some code => exact Int32.toInt32_toUInt32 code

/-- Over a zero word, a request that the host grants was stored. -/
theorem storedOverZero_of_ok {h granted : Host} {word : BitVec 64}
    (hset : h.restrictGroup word = .ok granted) (hprevious : Host.groupWord h.mask = 0#64) :
    StoredOverZero ⟨h, .setThreadAffinityMask word⟩ word := by
  obtain ⟨hgranted, hne, hallowed⟩ := Host.restrictGroup_eq_of_ok hset
  have hwrite : h.writeError = none := (Host.restrictGroup_eq_ok_iff.mp hset).1
  refine ⟨rfl, hwrite, hne, hallowed, hprevious, ?_⟩
  simp only [Host.perform, hset, hgranted]

/-- A word that was stored left no code. -/
theorem StoredOverZero.code_eq_none {made : Made} {word : BitVec 64}
    (hstored : made.StoredOverZero word) : made.code = none := by
  rw [code, hstored.call, Host.codeOf_setThreadAffinityMask,
    Host.restrictGroup_of_allowed hstored.writeError hstored.nonzero hstored.allowed]

end Made

/-- Calls in order, each with the host that it meets. -/
def Host.making (h : Host) : List Call → List Made
  | [] => []
  | c :: rest => ⟨h, c⟩ :: (h.perform c).2.making rest

/-- The calls of a second part meet what the first part leaves. -/
theorem Host.making_append (h : Host) (first second : List Call) :
    h.making (first ++ second) = h.making first ++ (h.performAll first).making second := by
  induction first generalizing h with
  | nil => rfl
  | cons c rest ih =>
    rw [List.cons_append, making, making, ih]
    rfl

/-- Calls leave in the last error what they write there. -/
theorem Host.performAll_lastError (h : Host) (calls : List Call) :
    (h.performAll calls).lastError = Made.lastErrorAfter (h.making calls) h.lastError := by
  induction calls generalizing h with
  | nil => rfl
  | cons c rest ih =>
    have hfirst : (h.perform c).2.lastError = Made.lastErrorAfter [⟨h, c⟩] h.lastError := by
      rw [perform_lastError, Made.lastErrorAfter, Made.latestWritten_singleton, Made.written]
    have hmaking : h.making (c :: rest) = [⟨h, c⟩] ++ (h.perform c).2.making rest := rfl
    rw [hmaking, Made.lastErrorAfter_append, ← hfirst]
    exact ih (h.perform c).2

namespace ThreadSession

/-- The calls of a session in order, each with the host that it met. -/
def history (p : Platform) (h : Host) : List Step → List Made
  | [] => []
  | s :: rest => h.making (step p h s).1.calls ++ history p (step p h s).2 rest

/-- The history of a session goes on with the steps that are added to it. -/
theorem history_append (p : Platform) (h : Host) (first second : List Step) :
    history p h (first ++ second) = history p h first ++ history p (run p h first).2 second := by
  induction first generalizing h with
  | nil => rfl
  | cons s rest ih => simp only [List.cons_append, history, run, ih, List.append_assoc]

/-- A step leaves in the last error what its calls write there. -/
theorem step_lastError (p : Platform) (h : Host) (s : Step) :
    (step p h s).2.lastError =
      Made.lastErrorAfter (h.making (step p h s).1.calls) h.lastError := by
  cases s with
  | perform operation => rw [step_perform_host, Host.performAll_lastError]
  | configure change => rfl

/-- A session leaves in the last error what its calls write there. -/
theorem run_lastError (p : Platform) (h : Host) (steps : List Step) :
    (run p h steps).2.lastError = Made.lastErrorAfter (history p h steps) h.lastError := by
  induction steps generalizing h with
  | nil => rfl
  | cons s rest ih =>
    rw [history, Made.lastErrorAfter_append, ← step_lastError]
    exact ih (step p h s).2

/-- A step's calls are the last ones of the history up to it. -/
theorem history_take_succ (p : Platform) (h : Host) {steps : List Step} {n : ℕ} {s : Step}
    (hs : steps[n]? = some s) :
    history p h (steps.take (n + 1)) = history p h (steps.take n) ++
      (run p h (steps.take n)).2.making (step p (run p h (steps.take n)).2 s).1.calls := by
  rw [List.take_add_one, hs, Option.toList_some, history_append, history, history, List.append_nil]

end ThreadSession

end CpuAffinity
