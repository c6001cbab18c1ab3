import CpuAffinity.Thread.Session

/-!
# Running actions of a thread

An action sees nothing of a trace but the host, and what it adds to the calls and events
stands behind those of before. Actions built from the primitive ones by sequencing and
reporting keep this, so a run on any trace is known from the run on a fresh one.
-/

namespace CpuAffinity

/-- A trace behind the calls and events of an earlier one. -/
def Trace.after (earlier t : Trace) : Trace :=
  ⟨t.host, earlier.calls ++ t.calls, earlier.events ++ t.events⟩

namespace Thread

variable {α β : Type}

/-- Returning a value leaves the trace alone. -/
@[simp]
theorem runOn_pure (a : α) (t : Trace) : (pure a : Thread α).runOn t = (.ok a, t) := rfl

/-- Failing leaves the trace alone. -/
@[simp]
theorem runOn_fail (e : AffinityError) (t : Trace) : (fail e : Thread α).runOn t = (.error e, t) := rfl

/-- Going on with a result leaves the trace alone. -/
@[simp]
theorem runOn_ofExcept (result : Except AffinityError α) (t : Trace) :
    (ofExcept result).runOn t = (result, t) := rfl

/-- The error number is that of the host. -/
@[simp]
theorem runOn_errno (t : Trace) : errno.runOn t = (.ok t.host.errno, t) := rfl

/-- The last error is that of the host. -/
@[simp]
theorem runOn_lastError (t : Trace) : lastError.runOn t = (.ok t.host.lastError.toInt32, t) := rfl

/-- After a success, the next action runs on the trace that was reached. -/
theorem runOn_bind_ok {action : Thread α} {t t' : Trace} {a : α} (h : action.runOn t = (.ok a, t'))
    (next : α → Thread β) : (action >>= next).runOn t = (next a).runOn t' := by
  rw [runOn_bind, h]

/-- After a call, the next action runs on the answer and the host of the call. -/
theorem runOn_call_bind (c : Call) (next : c.Answer → Thread β) (t : Trace) :
    (call c >>= next).runOn t =
      (next (t.host.perform c).1).runOn ⟨(t.host.perform c).2, t.calls ++ [c], t.events⟩ := rfl

/-- After a failure, there is no next action. -/
theorem runOn_bind_error {action : Thread α} {t t' : Trace} {e : AffinityError}
    (h : action.runOn t = (.error e, t')) (next : α → Thread β) :
    (action >>= next).runOn t = (.error e, t') := by
  rw [runOn_bind, h]

/-- Converting the value of an action changes neither its failures nor its trace. -/
theorem runOn_bind_pure (action : Thread α) (f : α → β) (t : Trace) :
    (action >>= fun a => pure (f a)).runOn t = ((action.runOn t).1.map f, (action.runOn t).2) := by
  rw [runOn_bind]
  rcases action.runOn t with ⟨result, t'⟩
  cases result <;> rfl

/-- Reporting the failures of an action leaves its result alone. -/
theorem runOn_reporting_result (action : Thread α) (event : AffinityError → Event) (t : Trace) :
    ((action.reporting event).runOn t).1 = (action.runOn t).1 := by
  rw [runOn_reporting]
  rcases action.runOn t with ⟨result, t'⟩
  cases result <;> rfl

/-- An action is local when it depends on the host alone and only adds to the trace. -/
def Local (action : Thread α) : Prop :=
  ∀ t, action.runOn t = ((action.runOn { host := t.host }).1, t.after (action.runOn { host := t.host }).2)

namespace Local

/-- Returning a value is local. -/
theorem pure (a : α) : Local (Pure.pure a) := by
  intro t
  simp [Trace.after]

/-- Failing is local. -/
theorem fail (e : AffinityError) : Local (Thread.fail e : Thread α) := by
  intro t
  simp [Trace.after]

/-- Reading the error number is local. -/
theorem errno : Local Thread.errno := by
  intro t
  simp [Trace.after]

/-- Reading the last error is local. -/
theorem lastError : Local Thread.lastError := by
  intro t
  simp [Trace.after]

/-- A call is local. -/
theorem call (c : Call) : Local (Thread.call c) := by
  intro t
  simp [Trace.after]

/-- Two local actions in sequence are local. -/
theorem bind {action : Thread α} {next : α → Thread β} (haction : Local action)
    (hnext : ∀ a, Local (next a)) : Local (action >>= next) := by
  intro t
  rw [runOn_bind, runOn_bind, haction t]
  rcases action.runOn { host := t.host } with ⟨result, first⟩
  cases result with
  | error e => rfl
  | ok a =>
    simp only
    rw [hnext a (t.after first), hnext a first]
    simp only [Trace.after, List.append_assoc]

/-- Reporting the failures of a local action is local. -/
theorem reporting {action : Thread α} (haction : Local action) (event : AffinityError → Event) :
    Local (action.reporting event) := by
  intro t
  rw [runOn_reporting, runOn_reporting, haction t]
  rcases action.runOn { host := t.host } with ⟨result, first⟩
  cases result with
  | error e => simp only [Trace.after, List.append_assoc]
  | ok a => rfl

end Local

end Thread

end CpuAffinity
