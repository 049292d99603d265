import Mathlib.Data.Nat.Digits.Defs
import Mathlib.Data.Nat.ModEq

/-!
# Ones' complement sums

Words are the numbers up to `m`, and a sum is folded by adding its carries back
into the word.  Folding keeps the sum modulo `m` and never turns a sum other than
zero into zero, and the two together determine the folded word.  A word of two
halves in base `c`, with `m + 1 = c * c`, is multiplied by `c` when its halves are
swapped.  The ones' complement sum of a string of halves is therefore the string
read as a number in base `c`, whatever the word boundaries were.
-/

namespace Ch579HttpLed
namespace Foundation

/-- Two sums that fold to the same word. -/
structure SameSum (m n k : Nat) : Prop where
  modEq : n ≡ k [MOD m]
  zero : n = 0 <-> k = 0

section SameSum

variable {m n n' k k' : Nat}

theorem SameSum.refl (m n : Nat) : SameSum m n n :=
  ⟨Nat.ModEq.refl n, Iff.rfl⟩

theorem SameSum.symm (h : SameSum m n k) : SameSum m k n :=
  ⟨h.modEq.symm, h.zero.symm⟩

theorem SameSum.trans {l : Nat} (h : SameSum m n k) (h' : SameSum m k l) : SameSum m n l :=
  ⟨h.modEq.trans h'.modEq, h.zero.trans h'.zero⟩

theorem SameSum.add (h : SameSum m n k) (h' : SameSum m n' k') :
    SameSum m (n + n') (k + k') := by
  have hzero := h.zero
  have hzero' := h'.zero
  exact ⟨h.modEq.add h'.modEq, by lia⟩

theorem SameSum.mul_left {c : Nat} (hc : 0 < c) (h : SameSum m n k) :
    SameSum m (c * n) (c * k) := by
  have hzero := h.zero
  refine ⟨h.modEq.mul_left c, ?_⟩
  rw [Nat.mul_eq_zero, Nat.mul_eq_zero]
  lia

end SameSum

/-- The word `r` stands for the sum `n`. -/
structure Represents (m r n : Nat) : Prop where
  le : r <= m
  same : SameSum m r n

section Represents

variable {m r r' n n' : Nat}

/-- A sum determines its word. -/
theorem Represents.unique (h : Represents m r n) (h' : Represents m r' n')
    (hsame : SameSum m n n') : r = r' := by
  have hwords := (h.same.trans hsame).trans h'.same.symm
  have hzero := hwords.zero
  have hle := h.le
  have hle' := h'.le
  -- two different words of one class are 0 and m
  rcases Nat.lt_trichotomy r r' with hlt | heq | hgt
  · have hdvd := (Nat.modEq_iff_dvd' (Nat.le_of_lt hlt)).mp hwords.modEq
    have hgap := Nat.le_of_dvd (Nat.sub_pos_of_lt hlt) hdvd
    lia
  · exact heq
  · have hdvd := (Nat.modEq_iff_dvd' (Nat.le_of_lt hgt)).mp hwords.modEq.symm
    have hgap := Nat.le_of_dvd (Nat.sub_pos_of_lt hgt) hdvd
    lia

theorem Represents.congr (h : Represents m r n) (hsame : SameSum m n n') :
    Represents m r n' :=
  ⟨h.le, h.same.trans hsame⟩

/-- The largest word stands for the positive multiples of `m`. -/
theorem Represents.eq_max_iff (h : Represents m r n) (hm : 0 < m) :
    r = m <-> m ∣ n ∧ n ≠ 0 := by
  have hle := h.le
  have hzero := h.same.zero
  constructor
  · intro hmax
    constructor
    · have hmod := h.same.modEq.symm
      rw [hmax] at hmod
      exact Nat.modEq_zero_iff_dvd.mp (hmod.trans (Nat.modEq_zero_iff_dvd.mpr (dvd_refl m)))
    · lia
  · intro hn
    have hdvd : m ∣ r := Nat.modEq_zero_iff_dvd.mp
      (h.same.modEq.trans (Nat.modEq_zero_iff_dvd.mpr hn.left))
    have hpos : 0 < r := by
      lia
    exact Nat.le_antisymm hle (Nat.le_of_dvd hpos hdvd)

end Represents

/-!
# Folding
-/

/-- Adds the carries of a sum to its low word. -/
def foldWord (m u : Nat) : Nat :=
  u / (m + 1) + u % (m + 1)

section Folding

variable {m u v n k : Nat}

theorem foldWord_modEq (m u : Nat) : foldWord m u ≡ u [MOD m] := by
  have hsplit := Nat.div_add_mod u (m + 1)
  have hrest : u = foldWord m u + m * (u / (m + 1)) := by
    unfold foldWord
    rw [Nat.add_mul, Nat.one_mul] at hsplit
    lia
  conv_rhs => rw [hrest]
  exact (Nat.add_mul_mod_self_left _ _ _).symm

theorem foldWord_eq_zero_iff : foldWord m u = 0 <-> u = 0 := by
  have hsplit := Nat.div_add_mod u (m + 1)
  unfold foldWord
  constructor
  · intro h
    rw [Nat.add_eq_zero_iff] at h
    rw [← hsplit, h.left, h.right, Nat.mul_zero]
  · intro h
    rw [h, Nat.zero_div, Nat.zero_mod]

theorem foldWord_le_of_le_double (hu : u <= 2 * m) : foldWord m u <= m := by
  have hsplit := Nat.div_add_mod u (m + 1)
  have hquot : u / (m + 1) < 2 := (Nat.div_lt_iff_lt_mul (Nat.succ_pos m)).mpr (by lia)
  unfold foldWord
  rcases Nat.lt_or_ge (u / (m + 1)) 1 with hsmall | hlarge
  · have hzero : u / (m + 1) = 0 := by
      lia
    have hlt := Nat.mod_lt u (Nat.succ_pos m)
    lia
  · have hone : u / (m + 1) = 1 := by
      lia
    rw [hone] at hsplit ⊢
    lia

theorem foldWord_le_double (hu : u < (m + 1) * (m + 1)) : foldWord m u <= 2 * m := by
  have hquot : u / (m + 1) < m + 1 := (Nat.div_lt_iff_lt_mul (Nat.succ_pos m)).mpr hu
  have hlt := Nat.mod_lt u (Nat.succ_pos m)
  unfold foldWord
  lia

theorem sameSum_foldWord (m u : Nat) : SameSum m (foldWord m u) u :=
  ⟨foldWord_modEq m u, foldWord_eq_zero_iff⟩

/-- One fold is enough for a sum of two words. -/
theorem Represents.fold (hu : u <= 2 * m) : Represents m (foldWord m u) u :=
  ⟨foldWord_le_of_le_double hu, sameSum_foldWord m u⟩

/-- Two folds are enough for a sum of two words' length. -/
theorem Represents.fold_fold (hu : u < (m + 1) * (m + 1)) :
    Represents m (foldWord m (foldWord m u)) u :=
  (Represents.fold (foldWord_le_double hu)).congr (sameSum_foldWord m u)

theorem Represents.add (hu : Represents m u n) (hv : Represents m v k) :
    Represents m (foldWord m (u + v)) (n + k) := by
  have hule := hu.le
  have hvle := hv.le
  exact (Represents.fold (by lia)).congr (hu.same.add hv.same)

end Folding

/-!
# Halves of a word
-/

/-- Exchanges the two halves of a word in base `c`. -/
def swapHalves (c w : Nat) : Nat :=
  w % c * c + w / c

section Halves

variable {c m r n : Nat}

theorem half_pos (hword : m + 1 = c * c) : 0 < c := by
  rcases Nat.eq_zero_or_pos c with hzero | hpos
  · rw [hzero] at hword
    lia
  · exact hpos

theorem sq_modEq_one (hword : m + 1 = c * c) : c * c ≡ 1 [MOD m] := by
  rw [← hword]
  exact Nat.add_mod_left m 1

/-- Two swaps cancel. -/
theorem sameSum_sq (hword : m + 1 = c * c) (n : Nat) : SameSum m (c * (c * n)) n := by
  have hc := half_pos hword
  constructor
  · rw [← Nat.mul_assoc]
    simpa using (sq_modEq_one hword).mul_right n
  · rw [Nat.mul_eq_zero, Nat.mul_eq_zero]
    lia

theorem sameSum_swapHalves (hword : m + 1 = c * c) (w : Nat) :
    SameSum m (swapHalves c w) (c * w) := by
  have hc := half_pos hword
  have hsplit := Nat.div_add_mod w c
  have hmul : c * w = w % c * c + c * (c * (w / c)) := by
    conv_lhs => rw [← hsplit]
    rw [Nat.mul_add, Nat.mul_comm c (w % c), Nat.add_comm]
  rw [hmul]
  exact (SameSum.refl m _).add (sameSum_sq hword (w / c)).symm

/-- A word with its halves exchanged stands for `c` times the sum. -/
theorem Represents.swap (hword : m + 1 = c * c) (h : Represents m r n) :
    Represents m (swapHalves c r) (c * n) := by
  have hle := h.le
  have hc := half_pos hword
  have hlow := Nat.mod_lt r hc
  have hhigh : r / c < c := (Nat.div_lt_iff_lt_mul hc).mpr (by lia)
  constructor
  · have hmul : r % c * c + c <= c * c := by
      have hsucc := Nat.mul_le_mul_right c (Nat.succ_le_of_lt hlow)
      rw [Nat.succ_mul] at hsucc
      exact hsucc
    unfold swapHalves
    lia
  · exact (sameSum_swapHalves hword r).trans (h.same.mul_left hc)

/-!
# Strings of halves
-/

theorem pow_even_modEq (hword : m + 1 = c * c) (k : Nat) : c ^ (2 * k) ≡ 1 [MOD m] := by
  rw [Nat.pow_mul, Nat.pow_two]
  simpa using (sq_modEq_one hword).pow k

theorem ofDigits_append_eq_zero_iff (hc : 0 < c) (xs ys : List Nat) :
    Nat.ofDigits c (xs ++ ys) = 0 <-> Nat.ofDigits c xs = 0 ∧ Nat.ofDigits c ys = 0 := by
  have hpow : 0 < c ^ xs.length := Nat.pow_pos hc
  rw [Nat.ofDigits_append, Nat.add_eq_zero_iff, Nat.mul_eq_zero]
  lia

/-- Behind an even number of halves a string is summed as if it stood alone. -/
theorem sameSum_append_even (hword : m + 1 = c * c) (xs ys : List Nat)
    (heven : xs.length % 2 = 0) :
    SameSum m (Nat.ofDigits c (xs ++ ys)) (Nat.ofDigits c xs + Nat.ofDigits c ys) := by
  have hlength : xs.length = 2 * (xs.length / 2) := by
    lia
  constructor
  · rw [Nat.ofDigits_append, hlength]
    apply Nat.ModEq.add_left
    simpa using (pow_even_modEq hword (xs.length / 2)).mul_right (Nat.ofDigits c ys)
  · rw [ofDigits_append_eq_zero_iff (half_pos hword), Nat.add_eq_zero_iff]

/-- Behind an odd number of halves the halves of its words are exchanged. -/
theorem sameSum_append_odd (hword : m + 1 = c * c) (xs ys : List Nat)
    (hodd : xs.length % 2 = 1) :
    SameSum m (Nat.ofDigits c (xs ++ ys)) (Nat.ofDigits c xs + c * Nat.ofDigits c ys) := by
  have hc := half_pos hword
  have hlength : xs.length = 2 * (xs.length / 2) + 1 := by
    lia
  constructor
  · rw [Nat.ofDigits_append, hlength, Nat.pow_succ, Nat.mul_assoc]
    apply Nat.ModEq.add_left
    simpa using (pow_even_modEq hword (xs.length / 2)).mul_right (c * Nat.ofDigits c ys)
  · rw [ofDigits_append_eq_zero_iff hc, Nat.add_eq_zero_iff, Nat.mul_eq_zero]
    lia

/-- The sum of the words of a string, low half first; a last half stands alone. -/
def wordSum (c : Nat) : List Nat -> Nat
  | [] => 0
  | [x] => x
  | x :: y :: xs => x + c * y + wordSum c xs

theorem sameSum_wordSum (hword : m + 1 = c * c) (xs : List Nat) :
    SameSum m (wordSum c xs) (Nat.ofDigits c xs) := by
  induction xs using wordSum.induct with
  | case1 =>
      exact SameSum.refl m _
  | case2 x =>
      rw [wordSum, Nat.ofDigits_singleton]
      exact SameSum.refl m x
  | case3 x y xs ih =>
      have hsplit := sameSum_append_even hword [x, y] xs (by simp)
      have hpair : Nat.ofDigits c [x, y] = x + c * y := by
        rw [Nat.ofDigits_cons, Nat.ofDigits_singleton]
      rw [hpair] at hsplit
      exact ((SameSum.refl m _).add ih).trans hsplit.symm

theorem wordSum_le (hword : m + 1 = c * c) {xs : List Nat} (hxs : forall x, x ∈ xs -> x < c) :
    wordSum c xs <= m * ((xs.length + 1) / 2) := by
  induction xs using wordSum.induct with
  | case1 =>
      exact Nat.zero_le _
  | case2 x =>
      have hx := hxs x List.mem_cons_self
      have hsq : c <= c * c := Nat.le_mul_self c
      have hlength : ([x].length + 1) / 2 = 1 := by
        simp
      rw [wordSum, hlength]
      lia
  | case3 x y xs ih =>
      have hx := hxs x List.mem_cons_self
      have hy := hxs y (by simp)
      have hrest := ih (fun z hz => hxs z (by simp [hz]))
      have hmul : c * y + c <= c * c := by
        have := Nat.mul_le_mul_left c (Nat.succ_le_of_lt hy)
        rw [Nat.mul_succ] at this
        exact this
      have hlength : ((x :: y :: xs).length + 1) / 2 = (xs.length + 1) / 2 + 1 := by
        simp only [List.length_cons]
        lia
      rw [wordSum, hlength, Nat.mul_add, Nat.mul_one]
      lia

end Halves

end Foundation
end Ch579HttpLed
