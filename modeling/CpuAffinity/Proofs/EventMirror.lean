import CpuAffinity.Proofs.CallEffects
import CpuAffinity.Proofs.EventTexts

/-!
# Events mirror results

Every setting and every pin reports one event, which tells how it ended, and a read reports its
failure only. A setting reads the affinity by the operation that also stands alone, and that
operation reports its own failure; so a setting that fails has either failed to be applied or
failed to be read, and is reported as the one that it was, once. The texts that are seen of an
event determine it, so settings and pins that are seen alike have ended alike.
-/

namespace CpuAffinity

namespace Event

/-- An event as a subscriber sees it. -/
structure Shown where
  level : Level
  message : String
  fields : List (String × String)
  deriving DecidableEq, Repr

/-- A subscriber sees the level, the message and the fields. -/
def shown (e : Event) : Shown := ⟨e.level, e.message, e.fields⟩

/-- An event is known from what a subscriber sees of it. -/
theorem shown_injective : Function.Injective shown := by
  intro e e' hshown
  obtain ⟨-, hmessage, hfields⟩ := Shown.mk.inj hshown
  exact eq_of_texts hmessage hfields

end Event

namespace ThreadSession

/-- The step has made a call that reads the affinity. -/
def Record.Reads (r : Record) : Prop := ∃ c ∈ r.calls, c.kind = .read

/-- A step's record whose events tell how the step ended. A setting that fails is reported as a
failed read exactly where it has read the affinity; then there are calls, and it has failed with
a code. -/
inductive Mirrored (p : Platform) : Step → Record → Prop where
  | configure {change : Host.Change} {r : Record} (hevents : r.events = []) :
    Mirrored p (.configure change) r
  | count {r : Record} (hevents : r.events = []) : Mirrored p (.perform .count) r
  | get {r : Record} {cpus : List CpuId} (hresult : r.result = .ok (.cpus cpus))
    (hevents : r.events = []) : Mirrored p (.perform .get) r
  | getFailed {r : Record} {e : AffinityError} (hresult : r.result = .error e)
    (hevents : r.events.map Event.shown =
      [⟨.warn, "failed to get the processor affinity", [("error", e.message)]⟩]) :
    Mirrored p (.perform .get) r
  | set {r : Record} {cpus effective : List CpuId} (hresult : r.result = .ok (.cpus effective))
    (hevents : r.events.map Event.shown =
      [⟨.debug, "processor affinity applied",
        [("requested", (CpuId.listOutline cpus).oneLine),
          ("effective", (CpuId.listOutline effective).oneLine)]⟩]) :
    Mirrored p (.perform (.set cpus)) r
  | setFailed {r : Record} {cpus : List CpuId} {e : AffinityError} (hresult : r.result = .error e)
    (hunread : ¬ r.Reads)
    (hevents : r.events.map Event.shown =
      [⟨.warn, "failed to set the processor affinity",
        [("cpus", (CpuId.listOutline cpus).oneLine), ("error", e.message)]⟩]) :
    Mirrored p (.perform (.set cpus)) r
  | readBackFailed {r : Record} {cpus : List CpuId} {code : Int32} (hp : p ≠ .unsupported)
    (hresult : r.result = .error (.errorCode code)) (hread : r.Reads)
    (hevents : r.events.map Event.shown =
      [⟨.warn, "failed to get the processor affinity",
        [("error", (AffinityError.errorCode code).message)]⟩]) :
    Mirrored p (.perform (.set cpus)) r
  | pin {r : Record} {cpu : CpuId} (hresult : r.result = .ok .done)
    (hevents : r.events.map Event.shown =
      [⟨.debug, "current thread pinned", [("cpu", cpu.display)]⟩]) :
    Mirrored p (.perform (.pin cpu)) r
  | pinFailed {r : Record} {cpu : CpuId} {e : AffinityError} (hresult : r.result = .error e)
    (hevents : r.events.map Event.shown =
      [⟨.warn, "failed to pin the current thread",
        [("cpu", cpu.display), ("error", e.message)]⟩]) :
    Mirrored p (.perform (.pin cpu)) r

variable {p : Platform} {h : Host} {cpus : List CpuId} {t : Trace}

section Seen

variable {r r' : Record} {cpus' : List CpuId} {cpu cpu' : CpuId}

/-- What is seen of a setting tells how it ended: settings that are seen alike have the same result.
They also had the same request, if it is not that the affinity could not be read. -/
theorem Mirrored.set_inj (hr : Mirrored p (.perform (.set cpus)) r)
    (hr' : Mirrored p (.perform (.set cpus')) r')
    (hseen : r.events.map Event.shown = r'.events.map Event.shown) :
    r.result = r'.result ∧
      (cpus = cpus' ∨ r.Reads ∧ ∃ code, r.result = .error (.errorCode code)) := by
  cases hr with
  | set hresult hevents =>
    cases hr' with
    | set hresult' hevents' =>
      obtain ⟨hrequested, rfl⟩ : cpus = cpus' ∧ _ := by simpa [hevents, hevents'] using hseen
      exact ⟨by rw [hresult, hresult'], .inl hrequested⟩
    | setFailed _ _ hevents' | readBackFailed _ _ _ hevents' => simp [hevents, hevents'] at hseen
  | setFailed hresult _ hevents =>
    cases hr' with
    | setFailed hresult' _ hevents' =>
      obtain ⟨hrequested, rfl⟩ : cpus = cpus' ∧ _ := by simpa [hevents, hevents'] using hseen
      exact ⟨by rw [hresult, hresult'], .inl hrequested⟩
    | set _ hevents' | readBackFailed _ _ _ hevents' => simp [hevents, hevents'] at hseen
  | readBackFailed _ hresult hread hevents =>
    cases hr' with
    | readBackFailed _ hresult' _ hevents' =>
      obtain rfl : _ = _ := by simpa [hevents, hevents'] using hseen
      exact ⟨by rw [hresult, hresult'], .inr ⟨hread, _, hresult⟩⟩
    | set _ hevents' | setFailed _ _ hevents' => simp [hevents, hevents'] at hseen

/-- What is seen of a pin tells the CPU and how the pin ended. -/
theorem Mirrored.pin_inj (hr : Mirrored p (.perform (.pin cpu)) r)
    (hr' : Mirrored p (.perform (.pin cpu')) r')
    (hseen : r.events.map Event.shown = r'.events.map Event.shown) :
    cpu = cpu' ∧ r.result = r'.result := by
  cases hr with
  | pin hresult hevents =>
    cases hr' with
    | pin hresult' hevents' =>
      have hcpu : cpu = cpu' := by simpa [hevents, hevents'] using hseen
      exact ⟨hcpu, by rw [hresult, hresult']⟩
    | pinFailed _ hevents' => simp [hevents, hevents'] at hseen
  | pinFailed hresult hevents =>
    cases hr' with
    | pin _ hevents' => simp [hevents, hevents'] at hseen
    | pinFailed hresult' hevents' =>
      obtain ⟨hcpu, rfl⟩ : cpu = cpu' ∧ _ := by simpa [hevents, hevents'] using hseen
      exact ⟨hcpu, by rw [hresult, hresult']⟩

end Seen

/-- What holds of every step and its record holds along every session. -/
theorem run_forall₂ {related : Step → Record → Prop}
    (hstep : ∀ h s, related s (step p h s).1) (h : Host) (steps : List Step) :
    List.Forall₂ related steps (run p h steps).1 := by
  induction steps generalizing h with
  | nil => exact .nil
  | cons s rest ih => exact .cons (hstep h s) (ih (step p h s).2)

/-- A read that ran makes the platform's call for it and no other. -/
theorem read_calls {result : Except AffinityError (List CpuId)}
    (hread : p.read.runOn { host := h } = (result, t)) : t.calls = p.readCall.toList := by
  have hcalls := step_get_calls p h
  cases result with
  | ok cpus =>
    rw [step_get_of_ok hread] at hcalls
    exact hcalls
  | error e =>
    rw [step_get_of_error hread] at hcalls
    exact hcalls

/-- The event of a step that reads tells how it ended. -/
theorem step_get_mirrored (p : Platform) (h : Host) :
    Mirrored p (.perform .get) (step p h (.perform .get)).1 := by
  rcases hread : p.read.runOn { host := h } with ⟨result, t⟩
  obtain ⟨-, -, hevents⟩ := p.read_adds.fresh hread
  cases result with
  | ok cpus =>
    rw [step_get_of_ok hread, hevents]
    exact .get rfl rfl
  | error e =>
    rw [step_get_of_error hread, hevents]
    exact .getFailed rfl rfl

/-- A setting whose request fails is reported as not applied, and has read nothing. -/
theorem step_set_mirrored_of_error {e : AffinityError}
    (happly : (p.apply cpus).runOn { host := h } = (.error e, t)) :
    Mirrored p (.perform (.set cpus)) (step p h (.perform (.set cpus))).1 := by
  obtain ⟨hkind, -, hevents⟩ := (p.apply_adds cpus).fresh happly
  rw [step_set_of_error happly, hevents]
  refine .setFailed rfl ?_ rfl
  rintro ⟨c, hc, hread⟩
  rw [hkind c hc] at hread
  cases hread

/-- A setting whose request succeeds is reported as applied, or as failed to be read. -/
theorem step_set_mirrored_of_ok (happly : (p.apply cpus).runOn { host := h } = (.ok (), t)) :
    Mirrored p (.perform (.set cpus)) (step p h (.perform (.set cpus))).1 := by
  obtain ⟨-, -, hevents⟩ := (p.apply_adds cpus).fresh happly
  rcases hread : p.read.runOn { host := t.host } with ⟨result, t'⟩
  obtain ⟨-, -, hevents'⟩ := p.read_adds.fresh hread
  cases result with
  | ok effective =>
    rw [step_set_of_read_ok happly hread, hevents, hevents']
    exact .set rfl rfl
  | error e =>
    obtain ⟨capacity, hp⟩ := Platform.capacity_of_apply_ok happly
    have hdecided := Platform.read_decidedByHost hp t.host
    rw [hread] at hdecided
    obtain ⟨code, rfl⟩ := hdecided e rfl
    rw [step_set_of_read_error happly hread, hevents, hevents']
    obtain ⟨call, hcall, hkind⟩ := Platform.readCall_of_capacity hp
    refine .readBackFailed (Platform.ne_unsupported hp) rfl ⟨call, ?_, hkind⟩ rfl
    simp [read_calls hread, hcall]

/-- The event of a step that pins tells how it ended. -/
theorem step_pin_mirrored (p : Platform) (h : Host) (cpu : CpuId) :
    Mirrored p (.perform (.pin cpu)) (step p h (.perform (.pin cpu))).1 := by
  rcases happly : (p.apply [cpu]).runOn { host := h } with ⟨result, t⟩
  obtain ⟨-, -, hevents⟩ := (p.apply_adds [cpu]).fresh happly
  cases result with
  | ok =>
    rw [step_pin_of_ok happly, hevents]
    exact .pin rfl rfl
  | error e =>
    rw [step_pin_of_error happly, hevents]
    exact .pinFailed rfl rfl

/-- The events of every step tell how it ended. -/
theorem step_mirrored (p : Platform) (h : Host) (s : Step) : Mirrored p s (step p h s).1 := by
  cases s with
  | configure change => exact .configure rfl
  | perform operation =>
    cases operation with
    | get => exact step_get_mirrored p h
    | set cpus =>
      rcases happly : (p.apply cpus).runOn { host := h } with ⟨e | _, t⟩
      · exact step_set_mirrored_of_error happly
      · exact step_set_mirrored_of_ok happly
    | pin cpu => exact step_pin_mirrored p h cpu
    | count =>
      rw [step_count]
      rcases hcount : p.processorCount.runOn { host := h } with ⟨result, t⟩
      exact .count (p.processorCount_adds.fresh hcount).2.2

/-- In every session, the events of each step tell how it ended. A count reports nothing, and a
read its failure only. A setting or a pin reports one event: a debugging note if it succeeded,
with the list that it answers, and a warning if it failed, with the very error that it answers.
The warning of a setting names the stage that failed: the read where a call to read was made,
and otherwise the request, with the list just as it was given. -/
theorem events_mirror_results (p : Platform) (h : Host) (steps : List Step) :
    List.Forall₂ (Mirrored p) steps (run p h steps).1 :=
  run_forall₂ (step_mirrored p) h steps

end ThreadSession

end CpuAffinity
