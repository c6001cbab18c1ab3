import CpuAffinity.Selection.Basic

/-!
# A congruence class as a selection

The CPUs whose index leaves a given remainder are selected from the start, and those that
are selected later are kept in a list, in order and with repetitions. Such a selection
holds infinitely many CPUs, so it shows what the derived operations look at.
-/

namespace CpuAffinity

/-- The CPUs congruent to `residue` modulo `modulus`, and those added since. -/
structure CongruenceSelection where
  modulus : Nat
  residue : Nat
  modulus_pos : 0 < modulus
  /-- The CPUs that were selected, oldest first. -/
  added : List Nat := []

namespace CongruenceSelection

/-- A CPU is held for its remainder or because it was added. -/
def holds (s : CongruenceSelection) (cpu : Nat) : Bool :=
  cpu % s.modulus == s.residue || s.added.contains cpu

/-- Clearing forgets what was added; the congruence class stays. -/
instance : CpuSelection CongruenceSelection where
  clear s := { s with added := [] }
  select s cpu := { s with added := s.added ++ [cpu.val] }
  lookUp s cpu := (s.holds cpu, s)

end CongruenceSelection

end CpuAffinity
