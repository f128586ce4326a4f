/-!
Powers of the bases that numbers are written to.
-/
namespace PortableSql.Number

/-- A power of two. -/
def twoPow (n : Nat) : Nat :=
  Nat.pow 2 n

/-- A power of ten. -/
def tenPow (n : Nat) : Nat :=
  Nat.pow 10 n

@[simp] theorem twoPow_zero : twoPow 0 = 1 := rfl

theorem twoPow_succ (n : Nat) : twoPow (n + 1) = twoPow n * 2 := rfl

@[simp] theorem tenPow_zero : tenPow 0 = 1 := rfl

theorem twoPow_pos (n : Nat) : 0 < twoPow n := by
  induction n with
  | zero => decide
  | succ n ih => rw [twoPow_succ]; omega

end PortableSql.Number
