import CpuAffinity.Proofs.Correspondence
import CpuAffinity.Proofs.Refusals

/-!
# Only the set of requested CPUs matters

A request is encoded by setting the bits of its CPUs one after another, so neither their order
nor repetitions show in what the host is asked for; and a list that is refused is refused for
its first index beyond the capacity. Two sessions that list the CPUs of their settings
differently, but ask for the same ones, go alike step by step. Only the events tell them apart,
which show a list as it was given.
-/

namespace CpuAffinity

/-- Two lists of the same CPUs that are refused, if they are, for the same one. -/
structure CpuId.SameRequest (capacity : ℕ) (cpus cpus' : List CpuId) : Prop where
  members : CpuId.indices cpus' = CpuId.indices cpus
  first : cpus'.find? (CpuId.beyond capacity) = cpus.find? (CpuId.beyond capacity)

/-- Two events with the same texts, but for the list that was asked for. -/
structure Event.SameButRequest (e e' : Event) : Prop where
  level : e'.level = e.level
  message : e'.message = e.message
  fields : List.Forall₂ (fun field field' => field'.1 = field.1 ∧
    (field.1 ≠ "cpus" → field.1 ≠ "requested" → field'.2 = field.2)) e.fields e'.fields

namespace ThreadSession

/-- The same step, or two settings with the same request where the platform has requests. -/
inductive Step.SameRequest (p : Platform) : Step → Step → Prop where
  | same (s : Step) : SameRequest p s s
  | set {cpus cpus' : List CpuId}
    (hcpus : ∀ capacity, p.capacity = some capacity → CpuId.SameRequest capacity cpus cpus') :
    SameRequest p (.perform (.set cpus)) (.perform (.set cpus'))

/-- Two records with the same result, calls and affinity, and with the same events but for the
lists that were asked for. -/
structure Record.SameButRequest (r r' : Record) : Prop where
  result : r'.result = r.result
  calls : r'.calls = r.calls
  events : List.Forall₂ Event.SameButRequest r.events r'.events
  mask : r'.mask = r.mask

end ThreadSession

/-- A list that asks for the same as one that is not refused is not refused. -/
theorem CpuId.SameRequest.forall_lt {capacity : ℕ} {cpus cpus' : List CpuId}
    (hsame : CpuId.SameRequest capacity cpus cpus') (hcpus : ∀ cpu ∈ cpus, cpu.index < capacity) :
    ∀ cpu ∈ cpus', cpu.index < capacity := by
  rw [← CpuId.find?_beyond_eq_none] at hcpus ⊢
  exact hsame.first.trans hcpus

/-- Lists that ask for the same are built into the same mask, or refused alike. -/
theorem Mask.ofCpus_congr {cpus cpus' : List CpuId}
    (hsame : CpuId.SameRequest maskCapacity cpus cpus') : ofCpus cpus' = ofCpus cpus := by
  rcases hfind : cpus.find? (CpuId.beyond maskCapacity) with _ | cpu
  · have hcpus := (CpuId.find?_beyond_eq_none maskCapacity cpus).mp hfind
    rw [ofCpus, ofCpus, build_of_forall_lt hcpus, build_of_forall_lt (hsame.forall_lt hcpus),
      hsame.members]
  · rw [ofCpus, ofCpus, build_of_refused hfind, build_of_refused (hsame.first.trans hfind)]

/-- Lists that ask for the same are encoded as the same word, or refused alike. -/
theorem GroupWord.ofCpus_congr {cpus cpus' : List CpuId}
    (hsame : CpuId.SameRequest capacity cpus cpus') : ofCpus cpus' = ofCpus cpus := by
  rcases hfind : cpus.find? (CpuId.beyond capacity) with _ | cpu
  · have hcpus := (CpuId.find?_beyond_eq_none capacity cpus).mp hfind
    obtain ⟨word, hword, hmembers⟩ := ofCpus_of_forall_lt hcpus
    obtain ⟨word', hword', hmembers'⟩ := ofCpus_of_forall_lt (hsame.forall_lt hcpus)
    have heq : word' = word := by
      apply members_injective
      rw [hmembers', hsame.members, hmembers]
    rw [hword', hword, heq]
  · rw [ofCpus, ofCpus, setAll_of_beyond _ hfind, setAll_of_beyond _ (hsame.first.trans hfind)]

/-- Lists that ask for the same make the same request on every platform. -/
theorem Platform.apply_congr {p : Platform} {cpus cpus' : List CpuId}
    (hsame : ∀ capacity, p.capacity = some capacity → CpuId.SameRequest capacity cpus cpus') :
    p.apply cpus' = p.apply cpus := by
  cases p with
  | linux | android =>
    have hmask := Mask.ofCpus_congr (hsame maskCapacity rfl)
    simp only [apply, MaskCalls.apply, hmask]
  | windows =>
    have hword := GroupWord.ofCpus_congr (hsame GroupWord.capacity rfl)
    simp only [apply, GroupCalls.apply, hword]
  | unsupported => rfl

namespace Event.SameButRequest

/-- An event differs in nothing from itself. -/
theorem refl (e : Event) : SameButRequest e e :=
  ⟨rfl, rfl, List.forall₂_same.mpr fun _ _ => ⟨rfl, fun _ _ => rfl⟩⟩

/-- Reports of a request that failed differ in its list only. -/
theorem applyFailed (cpus cpus' : List CpuId) (e : AffinityError) :
    SameButRequest (.applyFailed cpus e) (.applyFailed cpus' e) := by
  refine ⟨rfl, rfl, .cons ⟨rfl, ?_⟩ (.cons ⟨rfl, fun _ _ => rfl⟩ .nil)⟩
  intro hcpus
  exact absurd rfl hcpus

/-- Reports of a request that took effect differ in its list only. -/
theorem applied (requested requested' effective : List CpuId) :
    SameButRequest (.applied requested effective) (.applied requested' effective) := by
  refine ⟨rfl, rfl, .cons ⟨rfl, ?_⟩ (.cons ⟨rfl, fun _ _ => rfl⟩ .nil)⟩
  intro _ hrequested
  exact absurd rfl hrequested

end Event.SameButRequest

namespace ThreadSession

/-- Runs that differ in the lists that were asked for: the hosts and the calls are the same. -/
def sameRequests : Correspondence where
  hosts := Eq
  calls := Eq
  events := Event.SameButRequest
  mask_eq := by
    rintro h _ rfl
    rfl
  events_refl := Event.SameButRequest.refl

variable {p : Platform}

/-- On one host, an action corresponds to itself. -/
theorem sameRequests_self {α : Type} (action : Thread α) (h : Host) :
    sameRequests.Actions action action h h :=
  ⟨_, _, _, rfl, rfl, rfl, List.forall₂_same.mpr fun _ _ => rfl,
    List.forall₂_same.mpr fun e _ => .refl e⟩

/-- Settings with the same request correspond on one host. -/
theorem sameRequests_set {cpus cpus' : List CpuId}
    (hcpus : ∀ capacity, p.capacity = some capacity → CpuId.SameRequest capacity cpus cpus')
    (h : Host) :
    sameRequests.Steps (step p h (.perform (.set cpus))) (step p h (.perform (.set cpus'))) := by
  have happly : sameRequests.Actions (p.apply cpus) (p.apply cpus') h h := by
    rw [Platform.apply_congr hcpus]
    exact sameRequests_self _ h
  have hread {h h' : Host} (hhosts : h = h') : sameRequests.Actions p.read p.read h h' := by
    rw [← hhosts]
    exact sameRequests_self _ h
  have hset := happly.setAffinity hread (Event.SameButRequest.applyFailed cpus cpus')
    (Event.SameButRequest.applied cpus cpus')
  exact .of_actions (hset.map Answer.cpus)

/-- Steps with the same request correspond on the same host. -/
theorem sameRequests_step {h h' : Host} {s s' : Step} (hhosts : h = h')
    (hsame : s.SameRequest p s') : sameRequests.Steps (step p h s) (step p h' s') := by
  rw [← hhosts]
  cases hsame with
  | same s =>
    exact ⟨⟨rfl, List.forall₂_same.mpr fun _ _ => rfl, List.forall₂_same.mpr fun e _ => .refl e,
      rfl⟩, rfl⟩
  | set hcpus => exact sameRequests_set hcpus h

/-- Where the calls can name so many CPUs, settings whose lists ask for the same have the same
request. -/
theorem Step.SameRequest.of_capacity {capacity : ℕ} {cpus cpus' : List CpuId}
    (hp : p.capacity = some capacity) (hcpus : CpuId.SameRequest capacity cpus cpus') :
    Step.SameRequest p (.perform (.set cpus)) (.perform (.set cpus')) := by
  refine .set fun other hother => ?_
  rw [hp] at hother
  cases hother
  exact hcpus

/-- Records that correspond are the same, but for the lists that were asked for. -/
theorem sameRequests_records {r r' : Record} (hrecords : sameRequests.Records r r') :
    r.SameButRequest r' := by
  have hcalls : List.Forall₂ Eq r.calls r'.calls := hrecords.calls
  rw [List.forall₂_eq_eq_eq] at hcalls
  exact ⟨hrecords.result, hcalls.symm, hrecords.events, hrecords.mask⟩

/-- Runs on one host correspond, and leave the same host, when their steps have the same
requests. -/
theorem sameRequests_run (h : Host) {steps steps' : List Step}
    (hsteps : List.Forall₂ (Step.SameRequest p) steps steps') :
    List.Forall₂ sameRequests.Records (run p h steps).1 (run p h steps').1 ∧
      (run p h steps).2 = (run p h steps').2 :=
  Correspondence.run_of_forall₂ sameRequests_step (rfl : sameRequests.hosts h h) hsteps

/-- Two sessions on the same host that differ only in the lists of their settings, where
corresponding lists have the same members and the same first index beyond the capacity, leave
the same host, and step by step the same results, calls and affinities. Their events are the
same but for the lists that the settings were given, and those of other steps are the same. -/
theorem run_of_same_requests (p : Platform) (h : Host) {steps steps' : List Step}
    (hsteps : List.Forall₂ (Step.SameRequest p) steps steps') :
    List.Forall₂ Record.SameButRequest (run p h steps).1 (run p h steps').1 ∧
      (run p h steps').2 = (run p h steps).2 ∧
      ∀ n : ℕ, steps'[n]? = steps[n]? → (run p h steps').1[n]? = (run p h steps).1[n]? := by
  obtain ⟨hrecords, hhost⟩ := sameRequests_run h hsteps
  refine ⟨hrecords.imp fun _ _ => sameRequests_records, hhost.symm, fun n hn => ?_⟩
  -- The steps before the position have the same requests, so they reach the same host.
  have hreached := (sameRequests_run h (List.forall₂_take n hsteps)).2
  rw [run_getElem?, run_getElem?, hn, hreached]

/-- Reordering a granted list, and repeating a CPU of a refused one, changes nothing but the
lists in the events; the read between them fails alike. -/
theorem run_of_reordered_requests :
    let h : Host := { possible := ⟨.replicate 16 7#64⟩, mask := ⟨.replicate 16 3#64⟩ }
    let failing : Step := .configure { readError := some (some 5) }
    let steps : List Step :=
      [.perform (.set [⟨2⟩, ⟨0⟩, ⟨2⟩]), failing, .perform .get, .perform (.set [⟨1⟩, ⟨65⟩, ⟨64⟩])]
    let steps' : List Step :=
      [.perform (.set [⟨0⟩, ⟨2⟩]), failing, .perform .get, .perform (.set [⟨65⟩, ⟨1⟩, ⟨1⟩, ⟨64⟩])]
    List.Forall₂ (Step.SameRequest .windows) steps steps' ∧
      List.Forall₂ Record.SameButRequest (run .windows h steps).1 (run .windows h steps').1 ∧
      (run .windows h steps').1[2]? = (run .windows h steps).1[2]? := by
  intro h failing steps steps'
  have hgranted : Step.SameRequest .windows (.perform (.set [⟨2⟩, ⟨0⟩, ⟨2⟩]))
      (.perform (.set [⟨0⟩, ⟨2⟩])) := .of_capacity rfl ⟨by decide, by decide⟩
  have hrefused : Step.SameRequest .windows (.perform (.set [⟨1⟩, ⟨65⟩, ⟨64⟩]))
      (.perform (.set [⟨65⟩, ⟨1⟩, ⟨1⟩, ⟨64⟩])) := .of_capacity rfl ⟨by decide, by decide⟩
  have hsteps : List.Forall₂ (Step.SameRequest .windows) steps steps' :=
    .cons hgranted (.cons (.same failing) (.cons (.same _) (.cons hrefused .nil)))
  obtain ⟨hrecords, -, hsame⟩ := run_of_same_requests .windows h hsteps
  exact ⟨hsteps, hrecords, hsame 2 rfl⟩

end ThreadSession

end CpuAffinity
