import SqlProc.Base.Numbers

/-!
# Checked `int` arithmetic

Library `Base`. Sums and products of `int` values that are not negative: a result outside the type
is undefined behaviour and has no value here.
-/

namespace SqlProc.Base

/-- The value, when an `int` can hold it. -/
def fitInt (n : Nat) : Option Nat := if (n : Int) ≤ intMax then some n else none

/-- `a + b`. -/
def addInt (a b : Nat) : Option Nat := fitInt (a + b)

/-- `a * b`. -/
def mulInt (a b : Nat) : Option Nat := fitInt (a * b)

theorem fitInt_eq_some_iff {n m : Nat} : fitInt n = some m ↔ n ≤ 2147483647 ∧ n = m := by
  have hfits : (n : Int) ≤ intMax ↔ n ≤ 2147483647 := by
    show (n : Int) ≤ 2147483647 ↔ n ≤ 2147483647
    omega
  unfold fitInt
  split
  · next h => rw [Option.some.injEq, and_iff_right (hfits.mp h)]
  · next h => exact iff_of_false (by rintro ⟨⟩) fun hle ↦ h (hfits.mpr hle.1)

theorem fitInt_eq_none_iff {n : Nat} : fitInt n = none ↔ 2147483647 < n := by
  rw [Option.eq_none_iff_forall_ne_some]
  constructor
  · intro h
    by_contra hle
    exact h n (fitInt_eq_some_iff.mpr ⟨Nat.le_of_not_lt hle, rfl⟩)
  · intro h m hm
    exact Nat.not_lt.mpr (fitInt_eq_some_iff.mp hm).1 h

theorem addInt_of_le {a b : Nat} (h : a + b ≤ 2147483647) : addInt a b = some (a + b) :=
  fitInt_eq_some_iff.mpr ⟨h, rfl⟩

end SqlProc.Base
