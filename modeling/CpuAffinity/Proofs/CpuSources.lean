import CpuAffinity.Proofs.MaskScans

/-!
# Building stops at the first refused CPU

A mask is built from CPUs that are taken one by one, and building ends with the first of them
that no mask holds. What it answers, and how many CPUs it has taken by then, is therefore known
from these CPUs alone. Whatever would come after them is never asked for: the CPUs may as well
come from a source that never ends.
-/

namespace CpuAffinity

/-- A source of CPUs, which gives the next one and goes on to another state until it ends. It
need not end. -/
abbrev CpuSource (σ : Type) : Type := σ → Option (CpuId × σ)

/-- From one state, the source gives some CPUs in order, and is in another state then. -/
inductive CpuSource.Gives {σ : Type} (source : CpuSource σ) : σ → List CpuId → σ → Prop where
  | nil (s : σ) : Gives source s [] s
  | cons {s s' left : σ} {cpu : CpuId} {rest : List CpuId} (hnext : source s = some (cpu, s'))
    (hrest : Gives source s' rest left) : Gives source s (cpu :: rest) left

namespace Mask

/-- Building on a mask from a source, after some CPUs were taken: insert what the source gives
until it ends or a CPU is refused. From a source that neither ends nor gives such a CPU, no
build ends. -/
inductive BuildsOn {σ : Type} (source : CpuSource σ) : Mask → ℕ → σ → Build → Prop where
  | ended {m : Mask} {taken : ℕ} {s : σ} (hnext : source s = none) :
    BuildsOn source m taken s ⟨.ok m, taken⟩
  | refused {m m' : Mask} {taken : ℕ} {s s' : σ} {cpu : CpuId} {e : AffinityError}
    (hnext : source s = some (cpu, s')) (hinsert : m.insert cpu.index = (.error e, m')) :
    BuildsOn source m taken s ⟨.error e, taken + 1⟩
  | inserted {m m' : Mask} {taken : ℕ} {s s' : σ} {cpu : CpuId} {b : Build}
    (hnext : source s = some (cpu, s')) (hinsert : m.insert cpu.index = (.ok (), m'))
    (hrest : BuildsOn source m' (taken + 1) s' b) : BuildsOn source m taken s b

/-- Building a mask from a source. -/
def Builds {σ : Type} (source : CpuSource σ) (s : σ) (b : Build) : Prop :=
  BuildsOn source empty 0 s b

/-- The first CPU of a list that no mask holds stands at a position. -/
structure RefusedAt (cpus : List CpuId) (k : ℕ) (cpu : CpuId) : Prop where
  getElem? : cpus[k]? = some cpu
  beyond : maskCapacity ≤ cpu.index
  earlier : ∀ other ∈ cpus.take k, other.index < maskCapacity

section Source

variable {σ : Type} {source : CpuSource σ} {m : Mask} {taken : ℕ} {s s' : σ} {cpu : CpuId}
  {b : Build}

/-- From a source that has ended, the mask is answered. -/
theorem buildsOn_of_none (hnext : source s = none) :
    BuildsOn source m taken s b ↔ b = ⟨.ok m, taken⟩ := by
  refine ⟨fun hbuilds => ?_, ?_⟩
  · cases hbuilds with
    | ended => rfl
    | refused hother => rw [hnext] at hother; cases hother
    | inserted hother => rw [hnext] at hother; cases hother
  · rintro rfl
    exact .ended hnext

/-- The insertion of the next CPU decides whether building ends there or goes on. -/
theorem buildsOn_of_some (hnext : source s = some (cpu, s')) :
    BuildsOn source m taken s b ↔
      (∃ e m', m.insert cpu.index = (.error e, m') ∧ b = ⟨.error e, taken + 1⟩) ∨
        ∃ m', m.insert cpu.index = (.ok (), m') ∧ BuildsOn source m' (taken + 1) s' b := by
  refine ⟨fun hbuilds => ?_, ?_⟩
  · cases hbuilds with
    | ended hother => rw [hnext] at hother; cases hother
    | refused hother hinsert =>
      rw [hnext] at hother
      cases hother
      exact .inl ⟨_, _, hinsert, rfl⟩
    | inserted hother hinsert hrest =>
      rw [hnext] at hother
      cases hother
      exact .inr ⟨_, hinsert, hrest⟩
  · rintro (⟨e, m', hinsert, rfl⟩ | ⟨m', hinsert, hrest⟩)
    · exact .refused hnext hinsert
    · exact .inserted hnext hinsert hrest

/-- A CPU that a mask holds is inserted, and building goes on. -/
theorem buildsOn_of_lt (hnext : source s = some (cpu, s')) (hlt : cpu.index < maskCapacity) :
    BuildsOn source m taken s b ↔ BuildsOn source (m.select ⟨cpu.index, hlt⟩) (taken + 1) s' b := by
  simp [buildsOn_of_some hnext, hlt]

/-- Any other CPU ends the building with a refusal. -/
theorem buildsOn_of_ge (hnext : source s = some (cpu, s')) (hge : maskCapacity ≤ cpu.index) :
    BuildsOn source m taken s b ↔ b = ⟨.error (.outOfRange cpu.index maskCapacity), taken + 1⟩ := by
  simp [buildsOn_of_some hnext, hge]

/-- A list, as a source that gives its CPUs in order, is built as the list is. -/
theorem buildsOn_list (cpus : List CpuId) :
    BuildsOn List.next? m taken cpus b ↔ b = m.buildOn taken cpus := by
  induction cpus generalizing m taken with
  | nil => exact buildsOn_of_none rfl
  | cons cpu rest ih =>
    by_cases hlt : cpu.index < maskCapacity
    · rw [buildsOn_of_lt rfl hlt, ih, buildOn_cons_of_lt m taken hlt]
    · have hge := Nat.le_of_not_lt hlt
      rw [buildsOn_of_ge rfl hge, buildOn_cons_of_ge m taken hge]

/-- A source whose first CPUs have one that is refused among them is built as these CPUs are. -/
theorem buildsOn_of_gives {pulled : List CpuId} {left : σ} (hgives : source.Gives s pulled left)
    (hrefused : ∃ cpu ∈ pulled, maskCapacity ≤ cpu.index) :
    BuildsOn source m taken s b ↔ b = m.buildOn taken pulled := by
  -- The state of the source and the mask change together along what the source gives.
  induction hgives generalizing m taken with
  | nil => simp at hrefused
  | @cons _ _ _ cpu rest hnext _ ih =>
    by_cases hlt : cpu.index < maskCapacity
    · have hrest : ∃ cpu ∈ rest, maskCapacity ≤ cpu.index := by
        obtain ⟨other, hother, hbeyond⟩ := hrefused
        rcases List.mem_cons.mp hother with rfl | hmem
        · exact absurd hlt (Nat.not_lt.mpr hbeyond)
        · exact ⟨other, hmem, hbeyond⟩
      rw [buildsOn_of_lt hnext hlt, ih hrest, buildOn_cons_of_lt m taken hlt]
    · have hge := Nat.le_of_not_lt hlt
      rw [buildsOn_of_ge hnext hge, buildOn_cons_of_ge m taken hge]

end Source

namespace RefusedAt

variable {cpus cpus' : List CpuId} {k : ℕ} {cpu : CpuId}

/-- A list with a CPU that no mask holds has a first one. -/
theorem exists_of_mem (h : ∃ cpu ∈ cpus, maskCapacity ≤ cpu.index) :
    ∃ k cpu, RefusedAt cpus k cpu := by
  obtain ⟨before, cpu, after, rfl, hbefore, hbeyond, -⟩ := CpuId.exists_first_beyond h
  refine ⟨before.length, cpu, by simp, hbeyond, ?_⟩
  rw [List.take_left]
  exact hbefore

/-- What stands behind the first refused CPU does not matter. -/
theorem congr (h : RefusedAt cpus k cpu) (htake : cpus'.take (k + 1) = cpus.take (k + 1)) :
    RefusedAt cpus' k cpu := by
  have hearlier : cpus'.take k = cpus.take k := by
    have hshorter := congrArg (List.take k) htake
    simpa only [List.take_take, Nat.min_eq_left (Nat.le_succ k)] using hshorter
  refine ⟨?_, h.beyond, ?_⟩
  · rw [← List.getElem?_take_of_lt (Nat.lt_succ_self k), htake,
      List.getElem?_take_of_lt (Nat.lt_succ_self k), h.getElem?]
  · rw [hearlier]
    exact h.earlier

/-- The list up to the first refused CPU has that CPU. -/
theorem mem_take (h : RefusedAt cpus k cpu) :
    ∃ cpu ∈ cpus.take (k + 1), maskCapacity ≤ cpu.index := by
  refine ⟨cpu, List.mem_of_getElem? (i := k) ?_, h.beyond⟩
  rw [List.getElem?_take_of_lt (Nat.lt_succ_self k), h.getElem?]

/-- Building answers the refusal of the first refused CPU, and has taken the CPUs up to it. -/
theorem build_eq (h : RefusedAt cpus k cpu) :
    build cpus = ⟨.error (.outOfRange cpu.index maskCapacity), k + 1⟩ := by
  obtain ⟨hlt, hcpu⟩ := List.getElem?_eq_some_iff.mp h.getElem?
  have hearlier (j : ℕ) (hj : j < k) : cpus[j].beyond maskCapacity = false := by
    rw [CpuId.beyond_eq_false]
    exact h.earlier _ (List.mem_take_iff_getElem.mpr ⟨j, by omega, rfl⟩)
  have hbeyond : cpus[k].beyond maskCapacity = true := by
    rw [hcpu, CpuId.beyond_eq_true]
    exact h.beyond
  have hindex : cpus.findIdx (CpuId.beyond maskCapacity) = k :=
    (List.findIdx_eq hlt).mpr ⟨hbeyond, hearlier⟩
  have hfind : cpus.find? (CpuId.beyond maskCapacity) = some cpu := by
    rw [List.find?_eq_some_iff_getElem]
    refine ⟨(CpuId.beyond_eq_true _ _).mpr h.beyond, k, hlt, hcpu, fun j hj => ?_⟩
    rw [hearlier j hj, Bool.not_false]
  rw [build_of_refused hfind, hindex]

end RefusedAt

/-- A list of indices below the capacity is built into a mask, and all of it is taken. Any other
list is refused for its first index that no mask holds, and has been taken up to there; then
every list and every source that begins with the same CPUs, whether it ends or not, is built
alike. The source that gives the CPUs of a list is built as the list is. -/
theorem building_stops_at_first_refused (cpus : List CpuId) :
    ((∀ cpu ∈ cpus, cpu.index < maskCapacity) → ∃ m, build cpus = ⟨.ok m, cpus.length⟩) ∧
      ((∃ cpu ∈ cpus, maskCapacity ≤ cpu.index) → ∃ k cpu, RefusedAt cpus k cpu ∧
        build cpus = ⟨.error (.outOfRange cpu.index maskCapacity), k + 1⟩ ∧
        (∀ cpus', cpus'.take (k + 1) = cpus.take (k + 1) → build cpus' = build cpus) ∧
        ∀ (σ : Type) (source : CpuSource σ) (s left : σ),
          source.Gives s (cpus.take (k + 1)) left → ∀ b, Builds source s b ↔ b = build cpus) ∧
      ∀ b, Builds List.next? cpus b ↔ b = build cpus := by
  refine ⟨fun h => ⟨_, build_of_forall_lt h⟩, fun h => ?_, fun b => buildsOn_list cpus⟩
  obtain ⟨k, cpu, hrefused⟩ := RefusedAt.exists_of_mem h
  have hprefix (cpus' : List CpuId) (htake : cpus'.take (k + 1) = cpus.take (k + 1)) :
      build cpus' = build cpus := by
    rw [(hrefused.congr htake).build_eq, hrefused.build_eq]
  refine ⟨k, cpu, hrefused, hrefused.build_eq, hprefix, fun σ source s left hgives b => ?_⟩
  rw [← hprefix (cpus.take (k + 1)) (by rw [List.take_take, Nat.min_self])]
  exact buildsOn_of_gives hgives hrefused.mem_take

/-- A source that counts up for ever from CPU 1022 is built as a list that begins alike: two
CPUs are inserted, and the third is refused. -/
theorem counting_up_stops_at_capacity :
    let cpus : List CpuId := [⟨1022⟩, ⟨1023⟩, ⟨1024⟩, ⟨7⟩]
    let upwards : CpuSource ℕ := fun n => some (⟨n⟩, n + 1)
    (∃ cpu ∈ cpus, maskCapacity ≤ cpu.index) ∧ upwards.Gives 1022 (cpus.take 3) 1025 ∧
      ∀ b, Builds upwards 1022 b ↔ b = ⟨.error (.outOfRange 1024 maskCapacity), 3⟩ := by
  intro cpus upwards
  have hbeyond : ∃ cpu ∈ cpus, maskCapacity ≤ cpu.index := by decide
  have hgives : upwards.Gives 1022 (cpus.take 3) 1025 := .cons rfl (.cons rfl (.cons rfl (.nil _)))
  have hcpus : build cpus = ⟨.error (.outOfRange 1024 maskCapacity), 3⟩ := rfl
  obtain ⟨k, cpu, -, hbuild, -, hsources⟩ := (building_stops_at_first_refused cpus).2.1 hbeyond
  have hk : k + 1 = 3 := congrArg Build.taken (hbuild.symm.trans hcpus)
  rw [hk, hcpus] at hsources
  exact ⟨hbeyond, hgives, hsources ℕ upwards 1022 1025 hgives⟩

end Mask

end CpuAffinity
