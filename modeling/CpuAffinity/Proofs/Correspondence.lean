import CpuAffinity.Proofs.OperationRuns

/-!
# Corresponding runs

Two sessions are compared step by step through a relation on their hosts, one on single calls
and one on single events; results and affinities are to be the same. Operations are put
together from reads, requests and counts alike on every platform, so they correspond when
these do. What steps keep, runs keep.
-/

namespace CpuAffinity

/-- Two hosts that differ at most in what failed calls leave behind. -/
def Host.SameButErrors (h h' : Host) : Prop :=
  ∃ errno lastError, h' = { h with errno := errno, lastError := lastError }

/-- What the hosts, the calls and the events of two runs are to have in common. -/
structure Correspondence where
  hosts : Host → Host → Prop
  calls : Call → Call → Prop
  events : Event → Event → Prop
  /-- Corresponding hosts hold the same affinity. -/
  mask_eq : ∀ {h h' : Host}, hosts h h' → h'.mask = h.mask
  /-- An event corresponds to itself. -/
  events_refl : ∀ e, events e e

namespace Correspondence

open ThreadSession (Step Record step run)

/-- Traces with corresponding hosts, calls one by one, and events one by one. -/
structure Traces (c : Correspondence) (t t' : Trace) : Prop where
  hosts : c.hosts t.host t'.host
  calls : List.Forall₂ c.calls t.calls t'.calls
  events : List.Forall₂ c.events t.events t'.events

/-- Actions that have the same result on two hosts, and leave corresponding traces. -/
def Actions {α : Type} (c : Correspondence) (a b : Thread α) (h h' : Host) : Prop :=
  ∃ result t t', a.runOn { host := h } = (result, t) ∧ b.runOn { host := h' } = (result, t') ∧
    c.Traces t t'

/-- Platforms whose reads and counts correspond on all corresponding hosts. -/
structure Platforms (c : Correspondence) (p q : Platform) : Prop where
  read : ∀ {h h' : Host}, c.hosts h h' → c.Actions p.read q.read h h'
  processorCount : ∀ {h h' : Host}, c.hosts h h' → c.Actions p.processorCount q.processorCount h h'

/-- Records with the same result and the same affinity, and with corresponding calls and
events. -/
structure Records (c : Correspondence) (r r' : Record) : Prop where
  result : r'.result = r.result
  calls : List.Forall₂ c.calls r.calls r'.calls
  events : List.Forall₂ c.events r.events r'.events
  mask : r'.mask = r.mask

/-- Steps that leave corresponding records and hosts. -/
structure Steps (c : Correspondence) (left right : Record × Host) : Prop where
  records : c.Records left.1 right.1
  hosts : c.hosts left.2 right.2

variable {c : Correspondence} {p q : Platform} {h h' : Host} {t t' u u' : Trace}

/-- Corresponding reports keep traces corresponding. -/
theorem Traces.report {e e' : Event} (ht : c.Traces t t') (he : c.events e e') :
    c.Traces ⟨t.host, t.calls, t.events ++ [e]⟩ ⟨t'.host, t'.calls, t'.events ++ [e']⟩ :=
  ⟨ht.hosts, ht.calls, List.rel_append ht.events (.cons he .nil)⟩

/-- Corresponding traces behind corresponding ones correspond. -/
theorem Traces.after (ht : c.Traces t t') (hu : c.Traces u u') : c.Traces (t.after u) (t'.after u') :=
  ⟨hu.hosts, List.rel_append ht.calls hu.calls, List.rel_append ht.events hu.events⟩

/-- Converting the values of corresponding actions keeps them corresponding. -/
theorem Actions.map {α β : Type} {a b : Thread α} (hab : c.Actions a b h h') (f : α → β) :
    c.Actions (a >>= fun v => pure (f v)) (b >>= fun v => pure (f v)) h h' := by
  obtain ⟨result, t, t', ha, hb, htraces⟩ := hab
  refine ⟨result.map f, t, t', ?_, ?_, htraces⟩
  · rw [Thread.runOn_bind_pure, ha]
  · rw [Thread.runOn_bind_pure, hb]

/-- Reads with their warnings correspond when the reads do. -/
theorem Actions.getAffinity (hread : c.Actions p.read q.read h h') :
    c.Actions p.getAffinity q.getAffinity h h' := by
  obtain ⟨result, t, t', hp, hq, htraces⟩ := hread
  cases result with
  | ok cpus =>
    refine ⟨.ok cpus, t, t', ?_, ?_, htraces⟩
    · rw [Platform.getAffinity, Thread.runOn_reporting, hp]
    · rw [Platform.getAffinity, Thread.runOn_reporting, hq]
  | error e =>
    refine ⟨.error e, _, _, ?_, ?_, htraces.report (c.events_refl (.readFailed e))⟩
    · rw [Platform.getAffinity, Thread.runOn_reporting, hp]
    · rw [Platform.getAffinity, Thread.runOn_reporting, hq]

/-- Settings correspond when their requests and their events do, and the reads on whatever
hosts the requests leave. -/
theorem Actions.setAffinity {cpus cpus' : List CpuId}
    (happly : c.Actions (p.apply cpus) (q.apply cpus') h h')
    (hread : ∀ {h h' : Host}, c.hosts h h' → c.Actions p.read q.read h h')
    (hfailed : ∀ e, c.events (.applyFailed cpus e) (.applyFailed cpus' e))
    (happlied : ∀ effective, c.events (.applied cpus effective) (.applied cpus' effective)) :
    c.Actions (p.setAffinity cpus) (q.setAffinity cpus') h h' := by
  obtain ⟨result, t, t', hp, hq, htraces⟩ := happly
  cases result with
  | error e =>
    exact ⟨.error e, _, _, Platform.setAffinity_of_error hp, Platform.setAffinity_of_error hq,
      htraces.report (hfailed e)⟩
  | ok =>
    obtain ⟨effective, u, u', hget, hget', hlater⟩ := (hread htraces.hosts).getAffinity
    have hset := Platform.setAffinity_of_ok hp
    have hset' := Platform.setAffinity_of_ok hq
    rw [hget] at hset
    rw [hget'] at hset'
    cases effective with
    | ok effective =>
      exact ⟨_, _, _, hset, hset', (htraces.after hlater).report (happlied effective)⟩
    | error e => exact ⟨_, _, _, hset, hset', htraces.after hlater⟩

/-- Pinnings correspond when their requests do. -/
theorem Actions.pin {cpu : CpuId} (happly : c.Actions (p.apply [cpu]) (q.apply [cpu]) h h') :
    c.Actions (p.pin cpu) (q.pin cpu) h h' := by
  obtain ⟨result, t, t', hp, hq, htraces⟩ := happly
  cases result with
  | error e =>
    exact ⟨.error e, _, _, Platform.pin_of_error hp, Platform.pin_of_error hq,
      htraces.report (c.events_refl _)⟩
  | ok =>
    exact ⟨.ok (), _, _, Platform.pin_of_ok hp, Platform.pin_of_ok hq,
      htraces.report (c.events_refl _)⟩

/-- Steps that carry out corresponding actions correspond. -/
theorem Steps.of_actions {operation operation' : Operation}
    (hactions : c.Actions (operation.action p) (operation'.action q) h h') :
    c.Steps (step p h (.perform operation)) (step q h' (.perform operation')) := by
  obtain ⟨result, t, t', hp, hq, htraces⟩ := hactions
  simp only [step, hp, hq]
  exact ⟨⟨rfl, htraces.calls, htraces.events, c.mask_eq htraces.hosts⟩, htraces.hosts⟩

/-- On corresponding platforms, an operation corresponds to itself if its request does. -/
theorem Platforms.step_perform (hplatforms : c.Platforms p q) (hhosts : c.hosts h h')
    (operation : Operation)
    (happly : ∀ cpus ∈ operation.requested, c.Actions (p.apply cpus) (q.apply cpus) h h') :
    c.Steps (step p h (.perform operation)) (step q h' (.perform operation)) := by
  apply Steps.of_actions
  cases operation with
  | get => exact (hplatforms.read hhosts).getAffinity.map Answer.cpus
  | set cpus =>
    have hset := (happly cpus rfl).setAffinity hplatforms.read (fun _ => c.events_refl _)
      fun _ => c.events_refl _
    exact hset.map Answer.cpus
  | pin cpu => exact (happly [cpu] rfl).pin.map fun _ => Answer.done
  | count => exact (hplatforms.processorCount hhosts).map Answer.number

/-- Where an event corresponds to nothing but itself, corresponding records have the same events. -/
theorem Records.events_eq {r r' : Record} (hrecords : c.Records r r') (hc : c.events = Eq) :
    r'.events = r.events := by
  have hevents := hrecords.events
  rw [hc, List.forall₂_eq_eq_eq] at hevents
  exact hevents.symm

/-- Runs correspond when each of their steps does on the corresponding hosts it meets. What
makes a step correspond may depend on the host and on the steps that are left. -/
theorem run_of_steps (good : Host → List Step → Prop)
    (hstep : ∀ {h h' : Host} {s : Step} {rest : List Step}, c.hosts h h' → good h (s :: rest) →
      c.Steps (step p h s) (step q h' s) ∧ good (step p h s).2 rest)
    (hhosts : c.hosts h h') {steps : List Step} (hgood : good h steps) :
    List.Forall₂ c.Records (run p h steps).1 (run q h' steps).1 := by
  induction steps generalizing h h' with
  | nil => exact .nil
  | cons s rest ih =>
    obtain ⟨hsteps, hrest⟩ := hstep hhosts hgood
    exact .cons hsteps.records (ih hsteps.hosts hrest)

/-- Runs of different steps correspond when the steps do one by one, and leave corresponding
hosts. -/
theorem run_of_forall₂ {related : Step → Step → Prop}
    (hstep : ∀ {h h' : Host} {s s' : Step}, c.hosts h h' → related s s' →
      c.Steps (step p h s) (step q h' s'))
    (hhosts : c.hosts h h') {steps steps' : List Step} (hsteps : List.Forall₂ related steps steps') :
    List.Forall₂ c.Records (run p h steps).1 (run q h' steps').1 ∧
      c.hosts (run p h steps).2 (run q h' steps').2 := by
  induction hsteps generalizing h h' with
  | nil => exact ⟨.nil, hhosts⟩
  | cons hrelated _ ih =>
    have hfirst := hstep hhosts hrelated
    obtain ⟨hrecords, hlast⟩ := ih hfirst.hosts
    exact ⟨.cons hfirst.records hrecords, hlast⟩

end Correspondence

end CpuAffinity
