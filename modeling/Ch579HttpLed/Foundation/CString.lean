import Mathlib.Data.List.Basic

/-!
# Terminated strings

A string in memory is what a buffer holds before its first zero byte.  `strchr`
and `strcmp` walk over buffers as the functions of the C library do.  On
terminated buffers they find the first occurrence of a byte in the string and
decide whether two strings are equal.
-/

namespace Ch579HttpLed
namespace Foundation

/-- The string at the start of a buffer. -/
def cText (buffer : List UInt8) : List UInt8 :=
  buffer.takeWhile (fun b => b != 0)

@[simp] theorem cText_zero (rest : List UInt8) : cText (0 :: rest) = [] := rfl

theorem cText_cons {x : UInt8} (hx : x ≠ 0) (rest : List UInt8) :
    cText (x :: rest) = x :: cText rest := by
  simp [cText, hx]

/-!
# Finding a byte
-/

/-- Index of the first `c`, none if the terminator comes before it. -/
def strchr (c : UInt8) : List UInt8 -> Option Nat
  | [] => none
  | x :: rest =>
      if x = c then some 0
      else if x = 0 then none
      else (strchr c rest).map (fun i => i + 1)

section Strchr

variable {c : UInt8} {buffer : List UInt8}

theorem strchr_none (h : strchr c buffer = none) : c ∉ cText buffer := by
  induction buffer with
  | nil =>
      nofun
  | cons x rest ih =>
      rw [strchr] at h
      split at h
      · cases h
      · next hxc =>
          split at h
          · next hzero =>
              rw [hzero, cText_zero]
              nofun
          · next hzero =>
              rw [Option.map_eq_none_iff] at h
              rw [cText_cons hzero, List.mem_cons]
              intro hmem
              rcases hmem with hcx | hrest
              · exact hxc hcx.symm
              · exact ih h hrest

/-- The byte found is the first of its kind in the string, and the string goes on behind it. -/
theorem strchr_some (hc : c ≠ 0) {i : Nat} (h : strchr c buffer = some i) :
    exists before, c ∉ before ∧
      cText buffer = before ++ c :: cText (buffer.drop (i + 1)) := by
  induction buffer generalizing i with
  | nil =>
      cases h
  | cons x rest ih =>
      rw [strchr] at h
      split at h
      · next hxc =>
          cases h
          refine ⟨[], List.not_mem_nil, ?_⟩
          rw [hxc, cText_cons hc]
          rfl
      · next hxc =>
          split at h
          · cases h
          · next hzero =>
              rcases Option.map_eq_some_iff.mp h with ⟨j, hj, hij⟩
              rcases ih hj with ⟨before, hbefore, htext⟩
              refine ⟨x :: before, ?_, ?_⟩
              · intro hmem
                rcases List.mem_cons.mp hmem with hcx | hrest
                · exact hxc hcx.symm
                · exact hbefore hrest
              · rw [cText_cons hzero, htext, ← hij]
                rfl

/-- The terminator lies behind the byte found. -/
theorem strchr_terminated (hc : c ≠ 0) {i : Nat} (h : strchr c buffer = some i)
    (hterm : 0 ∈ buffer) : 0 ∈ buffer.drop (i + 1) := by
  induction buffer generalizing i with
  | nil =>
      cases h
  | cons x rest ih =>
      rw [strchr] at h
      split at h
      · next hxc =>
          cases h
          rcases List.mem_cons.mp hterm with hx | hrest
          · exact absurd (hxc.symm.trans hx.symm) hc
          · exact hrest
      · split at h
        · cases h
        · next hzero =>
            rcases Option.map_eq_some_iff.mp h with ⟨j, hj, hij⟩
            rcases List.mem_cons.mp hterm with hx | hrest
            · exact absurd hx.symm hzero
            · rw [← hij]
              exact ih hj hrest

end Strchr

/-!
# Comparing strings
-/

/--
Difference of the first bytes that differ, zero if the terminators are reached.
A buffer without a terminator is not equal to anything.
-/
def strcmp : List UInt8 -> List UInt8 -> Int
  | x :: s, y :: t =>
      if x ≠ y then (x.toNat : Int) - y.toNat
      else if x = 0 then 0
      else strcmp s t
  | [], _ => -1
  | _ :: _, [] => 1

theorem cText_ne_of_head_ne {x y : UInt8} (hxy : x ≠ y) (s t : List UInt8) :
    cText (x :: s) ≠ cText (y :: t) := by
  by_cases hx : x = 0
  · have hy : y ≠ 0 := by
      intro hy
      exact hxy (hx.trans hy.symm)
    rw [hx, cText_zero, cText_cons hy]
    nofun
  · by_cases hy : y = 0
    · rw [hy, cText_zero, cText_cons hx]
      nofun
    · rw [cText_cons hx, cText_cons hy]
      intro heq
      exact hxy (List.cons.inj heq).left

theorem strcmp_eq_zero_iff {s t : List UInt8} (hs : 0 ∈ s) (ht : 0 ∈ t) :
    strcmp s t = 0 <-> cText s = cText t := by
  induction s generalizing t with
  | nil =>
      cases hs
  | cons x s ih =>
      cases t with
      | nil =>
          cases ht
      | cons y t =>
          rw [strcmp]
          by_cases hxy : x = y
          · rw [if_neg (not_not_intro hxy)]
            subst hxy
            by_cases hzero : x = 0
            · rw [if_pos hzero, hzero, cText_zero, cText_zero]
              exact iff_of_true rfl rfl
            · have hs' : 0 ∈ s := List.mem_of_ne_of_mem (Ne.symm hzero) hs
              have ht' : 0 ∈ t := List.mem_of_ne_of_mem (Ne.symm hzero) ht
              rw [if_neg hzero, cText_cons hzero, cText_cons hzero, ih hs' ht',
                List.cons.injEq, and_iff_right rfl]
          · rw [if_pos hxy]
            have hnat : x.toNat ≠ y.toNat := by
              intro heq
              exact hxy (UInt8.toNat_inj.mp heq)
            constructor
            · intro hdiff
              exact absurd hdiff (by lia)
            · intro heq
              exact absurd heq (cText_ne_of_head_ne hxy s t)

end Foundation
end Ch579HttpLed
