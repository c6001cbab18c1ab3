import CpuAffinity.Proofs.Correspondence
import CpuAffinity.Proofs.HostRequests

/-!
# The two families of mask calls

A thread cannot tell whether a failed mask call returns its code or leaves it in the error
number. The number is only read right after a call that has written it, so what earlier calls
left there never shows; and where the code is zero, both families report success. Sessions
over the two families leave the same records, up to the names of the calls.
-/

namespace CpuAffinity

/-- The call that leaves its code in the error number, in place of one that returns it. -/
def Call.toSched : Call → Call
  | .pthreadGetAffinity size => .schedGetAffinity size
  | .pthreadSetAffinity size requested => .schedSetAffinity size requested
  | c => c

/-- The same record over calls that leave their codes in the error number. -/
def ThreadSession.Record.toSched (r : Record) : Record := { r with calls := r.calls.map Call.toSched }

/-- What error cells hold has no influence on what a host makes of a request. -/
theorem Host.restrict_errors (h : Host) (errno : Int32) (lastError : UInt32) (requested : Words) :
    Host.restrict { h with errno := errno, lastError := lastError } requested =
      (h.restrict requested).map fun granted =>
        { granted with errno := errno, lastError := lastError } := by
  cases hwrite : h.writeError with
  | none =>
    simp only [restrict, hwrite]
    split <;> rfl
  | some code => simp only [restrict, hwrite, Except.map]

/-- A list whose members are the images of another's is its image. -/
theorem map_eq_of_forall₂ {α β : Type} {f : α → β} {l : List α} {l' : List β}
    (h : List.Forall₂ (fun a b => f a = b) l l') : l.map f = l' := by
  rw [← List.forall₂_eq_eq_eq, List.forall₂_map_left_iff]
  exact h

namespace MaskCalls

open ThreadSession (Step Record step run)

/-- Runs over the two families: the hosts agree but for their error cells, and the calls but
for their names. -/
def families : Correspondence where
  hosts := Host.SameButErrors
  calls c c' := c.toSched = c'
  events := Eq
  mask_eq := by
    rintro h h' ⟨errno, lastError, rfl⟩
    rfl
  events_refl _ := rfl

variable {h h' : Host}

/-- Reads over the two families correspond. -/
theorem families_read (hhosts : h.SameButErrors h') :
    families.Actions (read .pthread) (read .sched) h h' := by
  obtain ⟨errno, lastError, rfl⟩ := hhosts
  obtain hread | ⟨code, hread⟩ := h.readError.eq_none_or_eq_some
  · exact ⟨_, _, _, read_of_none .pthread hread, read_of_none .sched hread,
      ⟨errno, lastError, rfl⟩, .cons rfl .nil, .nil⟩
  · exact ⟨_, _, _, read_of_some .pthread hread, read_of_some .sched hread,
      ⟨code, lastError, rfl⟩, .cons rfl .nil, .nil⟩

/-- Requests over the two families correspond, whatever becomes of them. -/
theorem families_apply (hhosts : h.SameButErrors h') (cpus : List CpuId) :
    families.Actions (apply .pthread cpus) (apply .sched cpus) h h' := by
  obtain ⟨errno, lastError, rfl⟩ := hhosts
  rcases hfind : cpus.find? (CpuId.beyond maskCapacity) with _ | cpu
  · have hcpus := (CpuId.find?_beyond_eq_none maskCapacity cpus).mp hfind
    have hset' := h.restrict_errors errno lastError (.ofMembers (CpuId.indices cpus))
    rcases hset : h.restrict (.ofMembers (CpuId.indices cpus)) with code | granted
    · rw [hset] at hset'
      exact ⟨_, _, _, apply_of_error .pthread hcpus hset, apply_of_error .sched hcpus hset',
        ⟨code, lastError, rfl⟩, .cons rfl .nil, .nil⟩
    · rw [hset] at hset'
      exact ⟨_, _, _, apply_of_ok .pthread hcpus hset, apply_of_ok .sched hcpus hset',
        ⟨errno, lastError, rfl⟩, .cons rfl .nil, .nil⟩
  · exact ⟨_, _, _, apply_of_beyond .pthread hfind _, apply_of_beyond .sched hfind _,
      ⟨errno, lastError, rfl⟩, .nil, .nil⟩

/-- Counts after calls of the two families correspond: each writes the error number it reads. -/
theorem families_processorCount (hhosts : h.SameButErrors h') :
    families.Actions processorCount processorCount h h' := by
  obtain ⟨errno, lastError, rfl⟩ := hhosts
  exact ⟨_, _, _, processorCount_runOn h, processorCount_runOn _,
    ⟨h.processorsError, lastError, rfl⟩, .cons rfl .nil, .nil⟩

/-- The platforms of the two families correspond. -/
theorem families_platforms : families.Platforms .linux .android :=
  ⟨families_read, families_processorCount⟩

/-- Every step corresponds to itself over the other family. -/
theorem families_step (hhosts : h.SameButErrors h') (s : Step) :
    families.Steps (step .linux h s) (step .android h' s) := by
  cases s with
  | perform operation =>
    exact families_platforms.step_perform hhosts operation fun cpus _ => families_apply hhosts cpus
  | configure change =>
    obtain ⟨errno, lastError, rfl⟩ := hhosts
    exact ⟨⟨rfl, .nil, .nil, rfl⟩, errno, lastError, rfl⟩

/-- Records that correspond are the same, up to the names of the calls. -/
theorem families_records {r r' : Record} (hrecords : families.Records r r') : r.toSched = r' := by
  have hcalls : r.calls.map Call.toSched = r'.calls := map_eq_of_forall₂ hrecords.calls
  rw [Record.toSched, hcalls, ← hrecords.result, ← hrecords.events_eq rfl, ← hrecords.mask]

/-- From the same host, whatever its error number, a session over calls that leave their codes
in the error number leaves the records of the session over calls that return them: step by
step the same results, events and affinities, and the same calls by their other names. -/
theorem run_android_eq_run_linux (h : Host) (errno : Int32) (steps : List Step) :
    (run .android { h with errno := errno } steps).1 =
      (run .linux h steps).1.map Record.toSched := by
  have hhosts : families.hosts h { h with errno := errno } := ⟨errno, h.lastError, rfl⟩
  have hrun : List.Forall₂ families.Records (run .linux h steps).1
      (run .android { h with errno := errno } steps).1 :=
    Correspondence.run_of_steps (fun _ _ => True)
      (fun hcurrent _ => ⟨families_step hcurrent _, trivial⟩) hhosts trivial
  exact (map_eq_of_forall₂ (hrun.imp fun _ _ => families_records)).symm

end MaskCalls

end CpuAffinity
