import CpuAffinity.Proofs.ErrorTexts
import CpuAffinity.Thread.Event

/-!
# Events are known from their texts

A CPU is known from its name and from its outline. Its outline has no comma, so the outline of a
list of CPUs tells each of them, in the order of the list and as often as it occurs. An event is
then known from its message, which tells its kind, and from its fields, which hold nothing but
CPUs, lists of CPUs and failures.
-/

namespace CpuAffinity

namespace CpuId

variable {a b : CpuId}

/-- A CPU is known from its name. -/
@[simp]
theorem display_inj : a.display = b.display ↔ a = b := by
  rw [display, display, String.append_right_inj, Decimal.toString_inj, index_inj]

/-- A CPU is known from its outline. -/
@[simp]
theorem outline_inj : a.outline = b.outline ↔ a = b := by
  simp [outline]

/-- The outline of a CPU is known from its text. -/
theorem outline_readable (cpu : CpuId) : cpu.outline.Readable where
  name := by simp [outline, Outline.name]
  entries := by
    rw [outline, Outline.entries, List.forall_mem_singleton]
    exact .decimal cpu.index
  fields := List.forall_mem_nil _

/-- The text of a CPU's outline is told from its neighbours. -/
theorem oneLine_separable (cpu : CpuId) : Outline.Separable cpu.outline.oneLine := by
  rw [outline, Outline.oneLine]
  exact (Outline.Separable.decimal cpu.index).enclose (by decide) (by decide)

/-- The outline of a list of CPUs is known from its text. -/
theorem listOutline_readable (cpus : List CpuId) : (listOutline cpus).Readable where
  name := List.forall_mem_nil _
  entries := by
    rw [listOutline, Outline.entries, List.forall_mem_map]
    exact fun cpu _ => cpu.oneLine_separable
  fields := List.forall_mem_nil _

variable {cpus cpus' : List CpuId}

/-- A list of CPUs is known from its outline. -/
@[simp]
theorem listOutline_inj : listOutline cpus = listOutline cpus' ↔ cpus = cpus' := by
  have hcpu : Function.Injective fun cpu : CpuId => cpu.outline.oneLine := fun cpu cpu' htext =>
    outline_inj.mp ((Outline.oneLine_inj cpu.outline_readable cpu'.outline_readable).mp htext)
  rw [listOutline, listOutline, Outline.list.injEq, (List.map_injective_iff.mpr hcpu).eq_iff]

/-- A list of CPUs is known from the text of its outline, with its order and its repetitions. -/
@[simp]
theorem oneLine_listOutline_inj :
    (listOutline cpus).oneLine = (listOutline cpus').oneLine ↔ cpus = cpus' := by
  rw [Outline.oneLine_inj (listOutline_readable cpus) (listOutline_readable cpus'), listOutline_inj]

end CpuId

namespace Event

variable {e e' : Event}

/-- The message of an event tells its kind, and its fields then tell its data. -/
theorem eq_of_texts (hmessage : e.message = e'.message) (hfields : e.fields = e'.fields) :
    e = e' := by
  cases e <;> cases e'
  case readFailed.readFailed | applyFailed.applyFailed | applied.applied | pinFailed.pinFailed
    | pinned.pinned => simpa [fields] using hfields
  -- no two kinds share a message
  all_goals exact absurd hmessage (by rw [message, message]; decide)

end Event

end CpuAffinity
