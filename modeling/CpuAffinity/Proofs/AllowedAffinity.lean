import CpuAffinity.Proofs.HostRequests
import CpuAffinity.Proofs.Reading

/-!
# The affinity stays allowed

An affinity that holds a CPU, and only CPUs that may be used, is never lost: the host
grants nothing else, whatever it is asked for and however its calls fail. From such an
affinity a granted request is never reported as a failure, so an operation that fails has
changed nothing, except for a setting whose last call was its read.
-/

namespace CpuAffinity

namespace Platform

/-- The CPUs of some words that the platform's calls reach. -/
def visible : Platform → Words → Finset ℕ
  | windows, w => GroupWord.members (Host.groupWord w)
  | linux, w | android, w | unsupported, w => w.members

/-- The affinity holds a CPU, and only CPUs that may be used. -/
structure Settled (p : Platform) (h : Host) : Prop where
  nonempty : (p.visible h.mask).Nonempty
  allowed : p.visible h.mask ⊆ p.visible h.possible

/-- What an operation keeps: the CPUs that may be used, an allowed affinity as one that is
allowed, and the words that the platform's calls do not reach. -/
structure Keeps (p : Platform) (h h' : Host) : Prop where
  possible : h'.possible = h.possible
  settled : p.Settled h → p.Settled h'
  others : p = .windows → ∀ i, i ≠ 0 → h'.mask.word i = h.mask.word i

/-- The outcomes of a request. Either the affinity stays, or it is replaced within what an
operation keeps; then the request has succeeded, unless there was no affinity before. -/
structure Requested (p : Platform) (h : Host) (result : Except AffinityError Unit) (t : Trace) :
    Prop where
  keeps : p.Keeps h t.host
  mask : t.host.mask = h.mask ∨ ((p.visible h.mask).Nonempty → result = .ok ())

variable {p : Platform} {h h' h'' : Host}

/-- The same affinity is kept. -/
theorem Keeps.of_same (hsame : h.SameAffinity h') : p.Keeps h h' := by
  refine ⟨hsame.possible, fun hsettled => ⟨?_, ?_⟩, fun _ i _ => ?_⟩
  · rw [hsame.mask]
    exact hsettled.nonempty
  · rw [hsame.mask, hsame.possible]
    exact hsettled.allowed
  · rw [hsame.mask]

/-- What two operations keep, both together keep. -/
theorem Keeps.trans (hfirst : p.Keeps h h') (hsecond : p.Keeps h' h'') : p.Keeps h h'' := by
  refine ⟨hsecond.possible.trans hfirst.possible, fun hsettled => ?_, fun hp i hi => ?_⟩
  · exact hsecond.settled (hfirst.settled hsettled)
  · exact (hsecond.others hp i hi).trans (hfirst.others hp i hi)

/-- A request that leaves the affinity alone. -/
theorem Requested.of_same {result : Except AffinityError Unit} {t : Trace}
    (hsame : h.SameAffinity t.host) : p.Requested h result t :=
  ⟨.of_same hsame, .inl hsame.mask⟩

/-- Mask calls reach every word. -/
@[simp]
theorem visible_family (family : MaskCalls.Family) (w : Words) :
    family.platform.visible w = w.members := by
  cases family <;> rfl

/-- Words that were granted are allowed. -/
theorem keeps_of_restrict (family : MaskCalls.Family) {requested : Words}
    (hset : h.restrict requested = .ok h') : family.platform.Keeps h h' := by
  obtain ⟨rfl, hdisjoint⟩ := Host.restrict_eq_of_ok hset
  refine ⟨rfl, fun _ => ⟨?_, ?_⟩, fun hp => ?_⟩
  · simpa using Finset.not_disjoint_iff_nonempty_inter.mp hdisjoint
  · simp
  · cases family <;> cases hp

/-- A group word that was granted is allowed, and stands in the first word. -/
theorem keeps_of_restrictGroup {requested : BitVec 64} (hset : h.restrictGroup requested = .ok h') :
    windows.Keeps h h' := by
  obtain ⟨rfl, hne, hsubset⟩ := Host.restrictGroup_eq_of_ok hset
  refine ⟨rfl, fun _ => ⟨?_, ?_⟩, fun _ i hi => ?_⟩
  · simpa [visible] using hne
  · simpa [visible] using hsubset
  · simp [hi]

/-- A request by mask calls is refused without a call, refused by the host, or granted. -/
theorem apply_requested_of_family (family : MaskCalls.Family) (h : Host) (cpus : List CpuId) :
    ∃ result t, (MaskCalls.apply family cpus).runOn { host := h } = (result, t) ∧
      family.platform.Requested h result t := by
  rcases hfind : cpus.find? (CpuId.beyond maskCapacity) with _ | cpu
  · have hcpus := (CpuId.find?_beyond_eq_none maskCapacity cpus).mp hfind
    rcases hset : h.restrict (.ofMembers (CpuId.indices cpus)) with code | granted
    · refine ⟨_, _, MaskCalls.apply_of_error family hcpus hset, .of_same ⟨?_, ?_⟩⟩
      · exact family.failed_mask code h
      · exact family.failed_possible code h
    · refine ⟨_, _, MaskCalls.apply_of_ok family hcpus hset, ?_, .inr fun _ => rfl⟩
      exact keeps_of_restrict family hset
  · exact ⟨_, _, MaskCalls.apply_of_beyond family hfind _, .of_same ⟨rfl, rfl⟩⟩

/-- A request by group calls may also be granted and reported as a failure, but not where
there was an affinity before. -/
theorem apply_requested_of_group (h : Host) (cpus : List CpuId) :
    ∃ result t, (GroupCalls.apply cpus).runOn { host := h } = (result, t) ∧
      windows.Requested h result t := by
  rcases hfind : cpus.find? (CpuId.beyond GroupWord.capacity) with _ | cpu
  · have hcpus := (CpuId.find?_beyond_eq_none GroupWord.capacity cpus).mp hfind
    obtain ⟨requested, hword, -⟩ := GroupWord.ofCpus_of_forall_lt hcpus
    rcases hset : h.restrictGroup requested with code | granted
    · exact ⟨_, _, GroupCalls.apply_of_error hword hset, .of_same ⟨rfl, rfl⟩⟩
    · have hkeeps := keeps_of_restrictGroup hset
      -- The answer is the previous word, so only an empty one makes a stored request a failure.
      by_cases hprevious : Host.groupWord h.mask = 0#64
      · refine ⟨_, _, GroupCalls.apply_of_ok_of_zero hword hset hprevious, hkeeps, .inr ?_⟩
        intro hnonempty
        exact absurd hprevious ((GroupWord.members_nonempty _).mp hnonempty)
      · exact ⟨_, _, GroupCalls.apply_of_ok hword hset hprevious, hkeeps, .inr fun _ => rfl⟩
  · exact ⟨_, _, GroupCalls.apply_of_beyond hfind _, .of_same ⟨rfl, rfl⟩⟩

/-- Every request has one of the outcomes. -/
theorem apply_requested (p : Platform) (h : Host) (cpus : List CpuId) :
    ∃ result t, (p.apply cpus).runOn { host := h } = (result, t) ∧ p.Requested h result t := by
  cases p with
  | linux => exact apply_requested_of_family .pthread h cpus
  | android => exact apply_requested_of_family .sched h cpus
  | windows => exact apply_requested_of_group h cpus
  | unsupported => exact ⟨_, _, rfl, .of_same ⟨rfl, rfl⟩⟩

/-- From an allowed affinity, a request that fails leaves the affinity alone. -/
theorem Requested.mask_of_error {e : AffinityError} {t : Trace}
    (hrequested : p.Requested h (.error e) t) (hsettled : p.Settled h) : t.host.mask = h.mask := by
  rcases hrequested.mask with hmask | hok
  · exact hmask
  · cases hok hsettled.nonempty

end Platform

namespace ThreadSession

/-- Steps that leave the affinity and the CPUs that may be used to the operations. -/
def Step.KeepsAffinity : Step → Prop
  | .perform _ => True
  | .configure change => change.mask = none ∧ change.possible = none

instance : DecidablePred Step.KeepsAffinity
  | .perform _ => .isTrue trivial
  | .configure change => inferInstanceAs (Decidable (change.mask = none ∧ change.possible = none))

variable {p : Platform} {h : Host}

/-- Setting keeps an allowed affinity. -/
theorem step_set_keeps (p : Platform) (h : Host) (cpus : List CpuId) :
    p.Keeps h (step p h (.perform (.set cpus))).2 := by
  obtain ⟨result, t, happly, hrequested⟩ := p.apply_requested h cpus
  cases result with
  | error e =>
    rw [step_set_of_error happly]
    exact hrequested.keeps
  | ok =>
    rw [(step_set_of_ok happly).2.2]
    exact hrequested.keeps.trans (.of_same (step_get_same p t.host))

/-- Pinning keeps an allowed affinity. -/
theorem step_pin_keeps (p : Platform) (h : Host) (cpu : CpuId) :
    p.Keeps h (step p h (.perform (.pin cpu))).2 := by
  obtain ⟨result, t, happly, hrequested⟩ := p.apply_requested h [cpu]
  cases result with
  | error e =>
    rw [step_pin_of_error happly]
    exact hrequested.keeps
  | ok =>
    rw [step_pin_of_ok happly]
    exact hrequested.keeps

/-- Every step that leaves the affinity to the operations keeps an allowed one. -/
theorem step_keeps (p : Platform) (h : Host) {s : Step} (hs : s.KeepsAffinity) :
    p.Keeps h (step p h s).2 := by
  cases s with
  | perform operation =>
    cases operation with
    | get => exact .of_same (step_get_same p h)
    | set cpus => exact step_set_keeps p h cpus
    | pin cpu => exact step_pin_keeps p h cpu
    | count => exact .of_same (step_count_same p h)
  | configure change =>
    obtain ⟨hmask, hpossible⟩ := hs
    refine .of_same ⟨?_, ?_⟩
    · change change.mask.getD h.mask = h.mask
      rw [hmask, Option.getD_none]
    · change change.possible.getD h.possible = h.possible
      rw [hpossible, Option.getD_none]

/-- So does every run of such steps. -/
theorem run_keeps (p : Platform) (h : Host) {steps : List Step}
    (hsteps : ∀ s ∈ steps, s.KeepsAffinity) : p.Keeps h (run p h steps).2 := by
  induction steps generalizing h with
  | nil => exact .of_same ⟨rfl, rfl⟩
  | cons s rest ih =>
    have hfirst := step_keeps p h (hsteps s List.mem_cons_self)
    exact hfirst.trans (ih _ fun later hlater => hsteps later (List.mem_cons_of_mem _ hlater))

/-- Operations that fail have changed nothing. Reading and counting change nothing at all.
A setting that fails may have changed the affinity, if its last call was the read. -/
structure FailsAtomically (p : Platform) (h : Host) : Prop where
  get : (step p h (.perform .get)).2.mask = h.mask
  count : (step p h (.perform .count)).2.mask = h.mask
  pin : ∀ cpu e, (step p h (.perform (.pin cpu))).1.result = .error e →
    (step p h (.perform (.pin cpu))).2.mask = h.mask
  set : ∀ cpus e, (step p h (.perform (.set cpus))).1.result = .error e →
    (step p h (.perform (.set cpus))).2.mask = h.mask ∨
      ∃ call, p.readCall = some call ∧
        (step p h (.perform (.set cpus))).1.calls.getLast? = some call

/-- A pin that fails on an allowed affinity has changed nothing. -/
theorem step_pin_mask_of_error (hsettled : p.Settled h) {cpu : CpuId} {e : AffinityError}
    (herror : (step p h (.perform (.pin cpu))).1.result = .error e) :
    (step p h (.perform (.pin cpu))).2.mask = h.mask := by
  obtain ⟨result, t, happly, hrequested⟩ := p.apply_requested h [cpu]
  cases result with
  | error e =>
    rw [step_pin_of_error happly]
    exact hrequested.mask_of_error hsettled
  | ok =>
    rw [step_pin_of_ok happly] at herror
    cases herror

/-- A setting that fails on an allowed affinity has changed nothing or ended with a read. -/
theorem step_set_mask_of_error (hsettled : p.Settled h) {cpus : List CpuId} {e : AffinityError}
    (herror : (step p h (.perform (.set cpus))).1.result = .error e) :
    (step p h (.perform (.set cpus))).2.mask = h.mask ∨
      ∃ call, p.readCall = some call ∧
        (step p h (.perform (.set cpus))).1.calls.getLast? = some call := by
  obtain ⟨result, t, happly, hrequested⟩ := p.apply_requested h cpus
  cases result with
  | error e =>
    rw [step_set_of_error happly]
    exact .inl (hrequested.mask_of_error hsettled)
  | ok =>
    obtain ⟨-, hcalls, -⟩ := step_set_of_ok happly
    rw [hcalls, step_get_calls]
    rcases hread : p.readCall with _ | call
    -- A platform without a call that reads has no request that succeeds either.
    · cases p with
      | linux | android | windows => cases hread
      | unsupported => cases happly
    · exact .inr ⟨call, rfl, List.getLast?_concat⟩

/-- From an allowed affinity, operations fail atomically. -/
theorem failsAtomically_of_settled (hsettled : p.Settled h) : FailsAtomically p h where
  get := (step_get_same p h).mask
  count := (step_count_same p h).mask
  pin _ _ herror := step_pin_mask_of_error hsettled herror
  set _ _ herror := step_set_mask_of_error hsettled herror

/-- From an allowed affinity, every state that a session reaches has an allowed affinity,
and operations fail atomically in it. The words that group calls do not reach stay as they
were. -/
theorem settled_and_atomic_of_reached (p : Platform) (h : Host) (steps : List Step)
    (hstart : p.Settled h) (hsteps : ∀ s ∈ steps, s.KeepsAffinity) :
    ∀ before, before <+: steps →
      p.Settled (run p h before).2 ∧
      (p = .windows → ∀ i, i ≠ 0 → (run p h before).2.mask.word i = h.mask.word i) ∧
      FailsAtomically p (run p h before).2 := by
  intro before hbefore
  have hkeeps : p.Keeps h (run p h before).2 := run_keeps p h fun s hs => hsteps s (hbefore.subset hs)
  have hsettled := hkeeps.settled hstart
  exact ⟨hsettled, hkeeps.others, failsAtomically_of_settled hsettled⟩

/-- A thread that holds CPUs zero and one of three still holds an allowed affinity after
settings to zero and to one, the second of which fails to be read back. -/
theorem settled_of_reached_after_failed_read :
    let h : Host := { possible := ⟨.replicate 16 7#64⟩, mask := ⟨.replicate 16 3#64⟩ }
    let steps : List Step := [.perform (.set [⟨0⟩]),
      .configure { readError := some (some 5) }, .perform (.set [⟨1⟩])]
    Platform.windows.Settled h ∧ (∀ s ∈ steps, s.KeepsAffinity) ∧
      Platform.windows.Settled (run .windows h steps).2 := by
  intro h steps
  have hstart : Platform.windows.Settled h := ⟨by decide, by decide⟩
  have hsteps : ∀ s ∈ steps, s.KeepsAffinity := by decide
  exact ⟨hstart, hsteps,
    (settled_and_atomic_of_reached .windows h steps hstart hsteps steps List.prefix_rfl).1⟩

end ThreadSession

end CpuAffinity
