import CpuAffinity.Selection.Basic

/-!
# Recording the use of a selection

A recorder wraps a selection and notes, in order, each operation that reaches it. What the
derived operations ask of a selection can then be read off the notes.
-/

namespace CpuAffinity

/-- One use of a selection's own operations. -/
inductive Access where
  | cleared
  | selected (cpu : Fin maskCapacity)
  | lookedUp (cpu : Nat)
  deriving DecidableEq, Repr

/-- A selection with the uses made of it, oldest first. -/
structure Recorder (σ : Type) where
  inner : σ
  accesses : List Access := []

namespace Recorder

variable {σ : Type}

/-- The indices that were looked up, oldest first. -/
def lookedUp (r : Recorder σ) : List Nat :=
  r.accesses.filterMap fun
    | .lookedUp cpu => some cpu
    | _ => none

variable [CpuSelection σ]

/-- Each operation is passed on and noted. -/
instance : CpuSelection (Recorder σ) where
  clear r := ⟨CpuSelection.clear r.inner, r.accesses ++ [.cleared]⟩
  select r cpu := ⟨CpuSelection.select r.inner cpu, r.accesses ++ [.selected cpu]⟩
  lookUp r cpu :=
    let (selected, inner) := CpuSelection.lookUp r.inner cpu
    (selected, ⟨inner, r.accesses ++ [.lookedUp cpu]⟩)

end Recorder

end CpuAffinity
