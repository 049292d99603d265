import Mathlib.Data.Nat.Basic

/-!
# Counters that wrap around

A counter of period `q` shows a true count modulo `q`.  The turn of a count is
its quotient by `q`.  Two counts that are closer than a period are compared
correctly through the counter exactly if they lie in the same turn, while the
wrapped difference of two such counts never depends on turns.
-/

namespace Ch579HttpLed
namespace Foundation

section Turns

variable {q a b : Nat}

theorem mod_le_mod_of_sameTurn (hturn : a / q = b / q) : a % q <= b % q <-> a <= b := by
  have ha := Nat.div_add_mod a q
  have hb := Nat.div_add_mod b q
  rw [hturn] at ha
  constructor
  · intro h
    lia
  · intro h
    lia

/-- An earlier turn shows the larger counter value to a count less than a period away. -/
theorem mod_lt_mod_of_earlierTurn (hclose : b < a + q) (hturn : a / q < b / q) :
    b % q < a % q := by
  have ha := Nat.div_add_mod a q
  have hb := Nat.div_add_mod b q
  have hstep : q * (a / q) + q <= q * (b / q) := Nat.mul_le_mul_left q hturn
  lia

/-- The wrapped comparison of two close counts is right exactly within one turn. -/
theorem mod_le_mod_right_iff (hab : a < b + q) (hba : b < a + q) :
    ((a % q <= b % q) <-> a <= b) <-> a / q = b / q := by
  constructor
  · intro hright
    rcases Nat.lt_trichotomy (a / q) (b / q) with hearlier | hsame | hlater
    · have hmod := mod_lt_mod_of_earlierTurn hba hearlier
      have hle : a <= b := Nat.le_of_lt (Nat.lt_of_div_lt_div hearlier)
      have hmodLe := hright.mpr hle
      lia
    · exact hsame
    · have hmod := mod_lt_mod_of_earlierTurn hab hlater
      have hlt : b < a := Nat.lt_of_div_lt_div hlater
      have hle := hright.mp (Nat.le_of_lt hmod)
      lia
  · intro hsame
    exact mod_le_mod_of_sameTurn hsame

end Turns

/-!
# Wrapped differences
-/

section Difference

variable {q a b : Nat}

theorem wrapped_sub_of_le (hle : b <= a) (hclose : a < b + q) :
    (q - b % q + a % q) % q = a - b := by
  have hq : 0 < q := by
    lia
  have hb := Nat.div_add_mod b q
  have hbq := Nat.mod_lt b hq
  have hsum : (q - b % q + a) % q = a - b := by
    have hrest : q - b % q + a = (a - b) + q * (b / q + 1) := by
      rw [Nat.mul_add, Nat.mul_one]
      lia
    rw [hrest, Nat.add_mul_mod_self_left]
    exact Nat.mod_eq_of_lt (by lia)
  rw [← hsum, Nat.add_mod, Nat.mod_mod, ← Nat.add_mod]

theorem wrapped_sub_of_lt (hlt : a < b) (hclose : b <= a + q) :
    (q - b % q + a % q) % q = q - (b - a) := by
  have hq : 0 < q := by
    lia
  have hb := Nat.div_add_mod b q
  have hbq := Nat.mod_lt b hq
  have hrest : q - b % q + a = (q - (b - a)) + q * (b / q) := by
    lia
  rw [Nat.add_mod, Nat.mod_mod, ← Nat.add_mod, hrest, Nat.add_mul_mod_self_left]
  exact Nat.mod_eq_of_lt (by lia)

end Difference

end Foundation
end Ch579HttpLed
