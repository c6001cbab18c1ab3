/-!
# Comparing the members of a list

Summaries of how the members of a list compare: how many values differ, how each member
stands to the next, and which positions hold equal values.
-/

namespace CpuAffinity

/-- Count the different values of a list, each at its last occurrence. -/
def distinctCount {α : Type} [DecidableEq α] : List α → Nat
  | [] => 0
  | a :: rest => if a ∈ rest then distinctCount rest else distinctCount rest + 1

/-- Compare each member with the one that follows it. -/
def adjacentOrders {α : Type} [Ord α] : List α → List Ordering
  | a :: b :: rest => compare a b :: adjacentOrders (b :: rest)
  | _ => []

/-- The row of each member tells which members of the list equal it. -/
def equalityTable {α : Type} [DecidableEq α] (values : List α) : List (List Bool) :=
  values.map fun a => values.map fun b => decide (a = b)

/-- Whether each number is below the one that follows it. -/
def strictlyAscending (numbers : List Nat) : Bool := (adjacentOrders numbers).all (· == .lt)

end CpuAffinity
