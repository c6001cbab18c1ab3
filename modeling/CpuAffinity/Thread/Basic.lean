import CpuAffinity.Host.Call
import CpuAffinity.Thread.Event

/-!
# Actions of a thread

An action of the calling thread may call the host, report events, and fail. It runs on a
trace, which holds the host as it stands and the calls and events so far. A failed action
keeps the trace it reached.
-/

namespace CpuAffinity

/-- A host, the calls made to it and the events reported, oldest first. -/
structure Trace where
  host : Host
  calls : List Call := []
  events : List Event := []
  deriving DecidableEq

/-- An action of the calling thread: on a trace, its result and the trace afterwards. -/
def Thread (α : Type) : Type := Trace → Except AffinityError α × Trace

namespace Thread

/-- Run an action on a trace. -/
def runOn {α : Type} (action : Thread α) (t : Trace) : Except AffinityError α × Trace := action t

/-- A later action runs on the trace of the earlier one, unless that failed. -/
instance : Monad Thread where
  pure a := fun t => (.ok a, t)
  bind action next := fun t =>
    match action t with
    | (.ok a, t) => next a t
    | (.error e, t) => (.error e, t)

/-- Sequencing obeys the monad laws. -/
instance : LawfulMonad Thread :=
  LawfulMonad.mk' Thread
    (fun action => funext fun t => by
      simp only [Functor.map]
      rcases action t with ⟨result, t⟩
      cases result <;> rfl)
    (fun _ _ => rfl)
    (fun action _ _ => funext fun t => by
      simp only [bind]
      rcases action t with ⟨result, t⟩
      cases result <;> rfl)

/-- Fail with an error. -/
def fail {α : Type} (e : AffinityError) : Thread α := fun t => (.error e, t)

/-- Go on with a result, or fail with its error. -/
def ofExcept {α : Type} (result : Except AffinityError α) : Thread α := fun t => (result, t)

/-- Call the host and note the call. -/
def call (c : Call) : Thread c.Answer := fun t =>
  let (answer, host) := t.host.perform c
  (.ok answer, { t with host, calls := t.calls ++ [c] })

/-- Report an event. -/
def report (e : Event) : Thread Unit := fun t => (.ok (), { t with events := t.events ++ [e] })

/-- Report an action's failure, and fail all the same. -/
def reporting {α : Type} (action : Thread α) (event : AffinityError → Event) : Thread α := fun t =>
  match action t with
  | (.ok a, t) => (.ok a, t)
  | (.error e, t) => (.error e, { t with events := t.events ++ [event e] })

/-- The thread's error number. -/
def errno : Thread Int32 := fun t => (.ok t.host.errno, t)

/-- The thread's last error, read as a signed number. -/
def lastError : Thread Int32 := fun t => (.ok t.host.lastError.toInt32, t)

/-- One action after another on a trace. -/
theorem runOn_bind {α β : Type} (action : Thread α) (next : α → Thread β) (t : Trace) :
    (action >>= next).runOn t =
      match action.runOn t with
      | (.ok a, t) => (next a).runOn t
      | (.error e, t) => (.error e, t) := rfl

/-- A call changes the host as the host prescribes, and is noted. -/
@[simp]
theorem runOn_call (c : Call) (t : Trace) :
    (call c).runOn t =
      (.ok (t.host.perform c).1, ⟨(t.host.perform c).2, t.calls ++ [c], t.events⟩) := rfl

/-- A report adds an event and does nothing else. -/
@[simp]
theorem runOn_report (e : Event) (t : Trace) :
    (report e).runOn t = (.ok (), ⟨t.host, t.calls, t.events ++ [e]⟩) := rfl

/-- Only a failed action is reported. -/
theorem runOn_reporting {α : Type} (action : Thread α) (event : AffinityError → Event) (t : Trace) :
    (action.reporting event).runOn t =
      match action.runOn t with
      | (.ok a, t) => (.ok a, t)
      | (.error e, t) => (.error e, ⟨t.host, t.calls, t.events ++ [event e]⟩) := rfl

end Thread

end CpuAffinity
