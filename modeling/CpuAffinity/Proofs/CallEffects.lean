import CpuAffinity.Proofs.Reading
import CpuAffinity.Proofs.Refusals

/-!
# What actions do to a host

An action changes the host by its calls and by nothing else, and every call is noted: carrying
out the noted calls again, from the host at the start, gives the host at the end. Reads,
requests and counts each make calls of their own kind only, and report nothing themselves.
-/

namespace CpuAffinity

namespace Call

/-- What a call is for. -/
inductive Kind where
  | read
  | request
  | count
  deriving DecidableEq, Repr

/-- A call reads the affinity, requests another one, or counts the processors. -/
def kind : Call → Kind
  | pthreadGetAffinity _ | schedGetAffinity _ | getThreadGroupAffinity => .read
  | pthreadSetAffinity _ _ | schedSetAffinity _ _ | setThreadAffinityMask _ => .request
  | sysconf | getActiveProcessorCount _ => .count

end Call

/-- The host after some calls, carried out in order. -/
def Host.performAll (h : Host) (calls : List Call) : Host :=
  calls.foldl (fun h c => (h.perform c).2) h

/-- No calls leave the host alone. -/
@[simp]
theorem Host.performAll_nil (h : Host) : h.performAll [] = h := rfl

/-- The calls behind the first one meet the host that it leaves. -/
@[simp]
theorem Host.performAll_cons (h : Host) (c : Call) (calls : List Call) :
    h.performAll (c :: calls) = (h.perform c).2.performAll calls := rfl

/-- Calls carried out in two parts leave what the whole leaves. -/
@[simp]
theorem Host.performAll_append (h : Host) (first second : List Call) :
    h.performAll (first ++ second) = (h.performAll first).performAll second :=
  List.foldl_append

/-- Calls leave the failures of reads to come as they are. -/
@[simp]
theorem Host.performAll_readError (h : Host) (calls : List Call) :
    (h.performAll calls).readError = h.readError := by
  induction calls generalizing h with
  | nil => rfl
  | cons c rest ih => simp [ih]

namespace Thread

variable {α β : Type}

/-- An action adds calls and events of some kinds to a trace, and changes the host by these
calls alone. -/
def Adds (calls : Call → Prop) (events : Event → Prop) (action : Thread α) : Prop :=
  ∀ t, ∃ cs es, (∀ c ∈ cs, calls c) ∧ (∀ e ∈ es, events e) ∧
    (action.runOn t).2 = ⟨t.host.performAll cs, t.calls ++ cs, t.events ++ es⟩

/-- Any event at all. -/
abbrev anyEvent : Event → Prop := fun _ => True

/-- No event at all. -/
abbrev noEvent : Event → Prop := fun _ => False

namespace Adds

variable {calls calls' : Call → Prop} {events events' : Event → Prop}

/-- What adds to a trace only some calls and events adds no others. -/
theorem mono {action : Thread α} (hadds : Adds calls events action)
    (hcalls : ∀ c, calls c → calls' c) (hevents : ∀ e, events e → events' e) :
    Adds calls' events' action := by
  intro t
  obtain ⟨cs, es, hcs, hes, htrace⟩ := hadds t
  exact ⟨cs, es, fun c hc => hcalls c (hcs c hc), fun e he => hevents e (hes e he), htrace⟩

/-- An action that leaves every trace alone adds nothing. -/
theorem of_same {action : Thread α} (hsame : ∀ t, (action.runOn t).2 = t) :
    Adds calls events action := by
  intro t
  exact ⟨[], [], by simp, by simp, by simp [hsame]⟩

/-- Returning a value adds nothing. -/
theorem pure (a : α) : Adds calls events (Pure.pure a) := of_same fun _ => rfl

/-- Failing adds nothing. -/
theorem fail (e : AffinityError) : Adds calls events (Thread.fail e : Thread α) :=
  of_same fun _ => rfl

/-- Going on with a result adds nothing. -/
theorem ofExcept (result : Except AffinityError α) : Adds calls events (Thread.ofExcept result) :=
  of_same fun _ => rfl

/-- Reading the error number adds nothing. -/
theorem errno : Adds calls events Thread.errno := of_same fun _ => rfl

/-- Reading the last error adds nothing. -/
theorem lastError : Adds calls events Thread.lastError := of_same fun _ => rfl

/-- A call adds itself. -/
theorem call {c : Call} (hc : calls c) : Adds calls events (Thread.call c) := by
  intro t
  exact ⟨[c], [], by simp [hc], by simp, by simp⟩

/-- A report adds its event. -/
theorem report {e : Event} (he : events e) : Adds calls events (Thread.report e) := by
  intro t
  exact ⟨[], [e], by simp, by simp [he], by simp⟩

/-- Two actions in sequence add what either adds. -/
theorem bind {action : Thread α} {next : α → Thread β} (haction : Adds calls events action)
    (hnext : ∀ a, Adds calls events (next a)) : Adds calls events (action >>= next) := by
  intro t
  obtain ⟨cs, es, hcs, hes, hfirst⟩ := haction t
  rw [runOn_bind]
  rcases hrun : action.runOn t with ⟨result, t'⟩
  rw [hrun] at hfirst
  cases result with
  | error e => exact ⟨cs, es, hcs, hes, hfirst⟩
  | ok a =>
    obtain ⟨cs', es', hcs', hes', hsecond⟩ := hnext a t'
    refine ⟨cs ++ cs', es ++ es', ?_, ?_, ?_⟩
    · simpa only [List.forall_mem_append] using ⟨hcs, hcs'⟩
    · simpa only [List.forall_mem_append] using ⟨hes, hes'⟩
    · simp only at hfirst ⊢
      rw [hsecond, hfirst, Host.performAll_append, List.append_assoc, List.append_assoc]

/-- Reporting the failures of an action adds the reports. -/
theorem reporting {action : Thread α} (haction : Adds calls events action)
    {event : AffinityError → Event} (hevent : ∀ e, events (event e)) :
    Adds calls events (action.reporting event) := by
  intro t
  obtain ⟨cs, es, hcs, hes, htrace⟩ := haction t
  rw [runOn_reporting]
  rcases hrun : action.runOn t with ⟨result, t'⟩
  rw [hrun] at htrace
  cases result with
  | ok a => exact ⟨cs, es, hcs, hes, htrace⟩
  | error e =>
    refine ⟨cs, es ++ [event e], hcs, ?_, ?_⟩
    · simpa only [List.forall_mem_append, List.forall_mem_singleton] using ⟨hes, hevent e⟩
    · simp only at htrace ⊢
      rw [htrace, List.append_assoc]

/-- On a fresh trace, an action that reports nothing leaves its calls and their effects. -/
theorem fresh {action : Thread α} (hadds : Adds calls noEvent action) {h : Host}
    {result : Except AffinityError α} {t : Trace}
    (hrun : action.runOn { host := h } = (result, t)) :
    (∀ c ∈ t.calls, calls c) ∧ t.host = h.performAll t.calls ∧ t.events = [] := by
  obtain ⟨cs, es, hcs, hes, htrace⟩ := hadds { host := h }
  rw [hrun] at htrace
  simp only [List.nil_append] at htrace
  rw [htrace]
  exact ⟨hcs, rfl, List.eq_nil_iff_forall_not_mem.mpr hes⟩

end Adds

end Thread

open Thread (Adds anyEvent noEvent)

/-- The calls of a kind. -/
abbrev Call.OfKind (kind : Call.Kind) : Call → Prop := fun c => c.kind = kind

/-- All calls. -/
abbrev Call.Any : Call → Prop := fun _ => True

namespace MaskCalls

/-- Checking a status adds nothing. -/
theorem check_adds {calls : Call → Prop} (code : Int32) : Adds calls noEvent (check code) :=
  .of_same fun t => by rw [check_runOn]

/-- Reading by mask calls makes calls that read. -/
theorem read_adds (family : Family) : Adds (Call.OfKind .read) noEvent (read family) := by
  have hget : Adds (Call.OfKind .read) noEvent (getMask family) := by
    cases family with
    | pthread => exact .bind (.call rfl) fun _ => .pure _
    | sched =>
      refine .bind (.call rfl) ?_
      rintro ⟨code, written⟩
      change Adds _ _ (if code = 0 then _ else _)
      split
      · exact .pure _
      · exact Adds.errno.bind fun _ => .pure _
  exact hget.bind fun _ => (check_adds _).bind fun _ => .pure _

/-- Requesting by mask calls makes calls that request. -/
theorem apply_adds (family : Family) (cpus : List CpuId) :
    Adds (Call.OfKind .request) noEvent (apply family cpus) := by
  have hset (mask : Mask) : Adds (Call.OfKind .request) noEvent (setMask mask family) := by
    cases family with
    | pthread => exact .call rfl
    | sched =>
      refine .bind (.call rfl) ?_
      intro code
      split
      · exact .pure _
      · exact .errno
  exact (Adds.ofExcept _).bind fun mask => (hset mask).bind check_adds

/-- Counting by mask calls makes calls that count. -/
theorem processorCount_adds : Adds (Call.OfKind .count) noEvent processorCount := by
  refine .bind (.call rfl) ?_
  intro count
  split
  · exact .pure _
  · exact Adds.errno.bind fun _ => .fail _

end MaskCalls

namespace GroupCalls

/-- Failing with the last error adds nothing. -/
theorem failWithLastError_adds {α : Type} {calls : Call → Prop} :
    Adds calls noEvent (failWithLastError : Thread α) :=
  Adds.lastError.bind fun _ => .fail _

/-- Reading by group calls makes calls that read. -/
theorem read_adds : Adds (Call.OfKind .read) noEvent read := by
  refine .bind (.call rfl) ?_
  intro word
  cases word with
  | some word => exact .pure _
  | none => exact failWithLastError_adds

/-- Requesting by group calls makes calls that request. -/
theorem apply_adds (cpus : List CpuId) : Adds (Call.OfKind .request) noEvent (apply cpus) := by
  apply (Adds.ofExcept _).bind
  intro word
  refine .bind (.call rfl) ?_
  intro previous
  split
  · exact failWithLastError_adds
  · exact .pure _

/-- Counting by group calls makes calls that count. -/
theorem processorCount_adds : Adds (Call.OfKind .count) noEvent processorCount := by
  refine .bind (.call rfl) ?_
  intro count
  split
  · exact failWithLastError_adds
  · exact .pure _

end GroupCalls

namespace Platform

/-- Reading makes calls that read. -/
theorem read_adds (p : Platform) : Adds (Call.OfKind .read) noEvent p.read := by
  cases p with
  | linux => exact MaskCalls.read_adds .pthread
  | android => exact MaskCalls.read_adds .sched
  | windows => exact GroupCalls.read_adds
  | unsupported => exact .fail _

/-- Requesting makes calls that request. -/
theorem apply_adds (p : Platform) (cpus : List CpuId) :
    Adds (Call.OfKind .request) noEvent (p.apply cpus) := by
  cases p with
  | linux => exact MaskCalls.apply_adds .pthread cpus
  | android => exact MaskCalls.apply_adds .sched cpus
  | windows => exact GroupCalls.apply_adds cpus
  | unsupported => exact .fail _

/-- Counting makes calls that count. -/
theorem processorCount_adds (p : Platform) :
    Adds (Call.OfKind .count) noEvent p.processorCount := by
  cases p with
  | linux | android => exact MaskCalls.processorCount_adds
  | windows => exact GroupCalls.processorCount_adds
  | unsupported => exact .fail _

/-- Where there are calls, one of them reads the affinity. -/
theorem readCall_of_capacity {p : Platform} {capacity : ℕ} (hp : p.capacity = some capacity) :
    ∃ call, p.readCall = some call ∧ call.kind = .read := by
  cases p with
  | linux | android | windows => exact ⟨_, rfl, rfl⟩
  | unsupported => cases hp

end Platform

/-- What adds to a trace at all changes the host by its calls alone. -/
theorem Thread.Adds.any {α : Type} {calls : Call → Prop} {events : Event → Prop}
    {action : Thread α} (hadds : Adds calls events action) : Adds Call.Any anyEvent action :=
  hadds.mono (fun _ _ => trivial) fun _ _ => trivial

/-- Every operation changes the host by its calls alone. -/
theorem Operation.action_adds (p : Platform) (operation : Operation) :
    Adds Call.Any anyEvent (operation.action p) := by
  have hget : Adds Call.Any anyEvent p.getAffinity := p.read_adds.any.reporting fun _ => trivial
  cases operation with
  | get => exact hget.bind fun _ => .pure _
  | set cpus =>
    apply Adds.bind _ fun _ => .pure _
    apply ((p.apply_adds cpus).any.reporting fun _ => trivial).bind
    intro
    exact hget.bind fun _ => (Adds.report trivial).bind fun _ => .pure _
  | pin cpu =>
    apply Adds.bind _ fun _ => .pure _
    exact ((p.apply_adds [cpu]).any.reporting fun _ => trivial).bind fun _ => .report trivial
  | count => exact p.processorCount_adds.any.bind fun _ => .pure _

/-- The host after an operation is the host after the calls that the step notes. -/
theorem ThreadSession.step_perform_host (p : Platform) (h : Host) (operation : Operation) :
    (step p h (.perform operation)).2 = h.performAll (step p h (.perform operation)).1.calls := by
  obtain ⟨cs, es, -, -, htrace⟩ := operation.action_adds p { host := h }
  simp [step, htrace]

end CpuAffinity
