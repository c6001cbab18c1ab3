import CpuAffinity.Host.Call
import CpuAffinity.Proofs.GroupMembers

/-!
# What a host makes of a request

A host that is set to fail refuses every request with its code. Otherwise a request for
words is cut down to the CPUs that may be used, and refused when none is left, while a
request for a group word is granted as it is or not at all.
-/

namespace CpuAffinity

namespace Host

variable {h : Host}

/-- A host that is set to fail refuses all words. -/
theorem restrict_of_some {code : Int32} (hwrite : h.writeError = some code) (requested : Words) :
    h.restrict requested = .error code := by
  simp only [restrict, hwrite]

/-- Words without a CPU that may be used are an invalid argument. -/
theorem restrict_of_disjoint {requested : Words} (hwrite : h.writeError = none)
    (hdisjoint : Disjoint requested.members h.possible.members) :
    h.restrict requested = .error invalidArgument := by
  simp only [restrict, hwrite, Words.inter_eq_zero.mpr hdisjoint, if_true]

/-- Any other words are granted as far as their CPUs may be used. -/
theorem restrict_of_not_disjoint {requested : Words} (hwrite : h.writeError = none)
    (hdisjoint : ¬ Disjoint requested.members h.possible.members) :
    h.restrict requested = .ok { h with mask := requested.inter h.possible } :=
  restrict_eq_ok_iff.mpr ⟨hwrite, mt Words.inter_eq_zero.mp hdisjoint, rfl⟩

/-- Granted words are the requested ones cut down to those that may be used, and there are
some. -/
theorem restrict_eq_of_ok {requested : Words} {granted : Host}
    (hset : h.restrict requested = .ok granted) :
    granted = { h with mask := requested.inter h.possible } ∧
      ¬ Disjoint requested.members h.possible.members := by
  obtain ⟨-, hne, hgranted⟩ := restrict_eq_ok_iff.mp hset
  exact ⟨hgranted, mt Words.inter_eq_zero.mpr hne⟩

/-- A host that is set to fail refuses every group word. -/
theorem restrictGroup_of_some {code : Int32} (hwrite : h.writeError = some code)
    (requested : BitVec 64) : h.restrictGroup requested = .error code.toUInt32 := by
  simp only [restrictGroup, hwrite]

/-- A group word that is empty or has a CPU outside those that may be used is an invalid
parameter. -/
theorem restrictGroup_of_not_allowed {requested : BitVec 64} (hwrite : h.writeError = none)
    (hbad : requested = 0#64 ∨
      ¬ GroupWord.members requested ⊆ GroupWord.members (groupWord h.possible)) :
    h.restrictGroup requested = .error invalidParameter := by
  rw [GroupWord.members_subset] at hbad
  simp only [restrictGroup, hwrite, ne_eq, hbad, if_true]

/-- Any other group word is stored as it is. -/
theorem restrictGroup_of_allowed {requested : BitVec 64} (hwrite : h.writeError = none)
    (hne : requested ≠ 0#64)
    (hsubset : GroupWord.members requested ⊆ GroupWord.members (groupWord h.possible)) :
    h.restrictGroup requested = .ok { h with mask := h.mask.setWord 0 requested } :=
  restrictGroup_eq_ok_iff.mpr ⟨hwrite, hne, (GroupWord.members_subset _ _).mp hsubset, rfl⟩

/-- A granted group word is the requested one, which has a CPU and none that may not be used. -/
theorem restrictGroup_eq_of_ok {requested : BitVec 64} {granted : Host}
    (hset : h.restrictGroup requested = .ok granted) :
    granted = { h with mask := h.mask.setWord 0 requested } ∧ requested ≠ 0#64 ∧
      GroupWord.members requested ⊆ GroupWord.members (groupWord h.possible) := by
  obtain ⟨-, hne, hallowed, hgranted⟩ := restrictGroup_eq_ok_iff.mp hset
  exact ⟨hgranted, hne, (GroupWord.members_subset _ _).mpr hallowed⟩

end Host

end CpuAffinity
