import Mathlib.Data.List.Basic

/-!
# Searching a bounded string

The search scans for the first place at which a token starts, and stops early at
a terminator.  It is what a bounded substring search over terminated strings
computes.  The lemmas say that a result is an occurrence, that an occurrence is
found as long as no terminator comes before it, and where the first occurrence
of a single element lies.
-/

namespace Ch579HttpLed
namespace Foundation

section Search

variable {elem : Type*} [DecidableEq elem]

/-- Index of the first occurrence of `token`, unless the text is over before. -/
def findToken (stop : elem) (token : List elem) : List elem -> Option Nat
  | [] => none
  | x :: text =>
      if x = stop then none
      else if token <+: x :: text then some 0
      else (findToken stop token text).map (fun i => i + 1)

/-- A result is a place where the token starts. -/
theorem findToken_starts {stop : elem} {token : List elem} {text : List elem}
    {i : Nat} (h : findToken stop token text = some i) :
    token <+: text.drop i := by
  induction text generalizing i with
  | nil =>
      cases h
  | cons x text ih =>
      rw [findToken] at h
      split at h
      · cases h
      · split at h
        · next hstart =>
            cases h
            exact hstart
        · cases hrest : findToken stop token text with
          | none =>
              rw [hrest] at h
              cases h
          | some j =>
              rw [hrest] at h
              cases h
              exact ih hrest

/-- A text without the terminator in which the token starts somewhere is not searched in vain. -/
theorem findToken_ne_none {stop : elem} {token : List elem} {text : List elem}
    (hstop : stop ∉ text) (htoken : token ≠ []) {i : Nat}
    (h : token <+: text.drop i) : findToken stop token text ≠ none := by
  induction text generalizing i with
  | nil =>
      rw [List.drop_nil, List.prefix_nil] at h
      exact absurd h htoken
  | cons x text ih =>
      have hx : x ≠ stop := by
        intro heq
        exact hstop (by simp [heq])
      rw [findToken, if_neg hx]
      split
      · nofun
      · next hstart =>
          cases i with
          | zero => exact absurd h hstart
          | succ i =>
              have hrest := ih (fun hmem => hstop (List.mem_cons_of_mem _ hmem)) h
              simpa using hrest

/-- The first occurrence of a single element. -/
theorem findToken_singleton {stop c : elem} (hc : c ≠ stop) {before : List elem}
    (hstop : stop ∉ before) (hfirst : c ∉ before) (after : List elem) :
    findToken stop [c] (before ++ c :: after) = some before.length := by
  induction before with
  | nil =>
      simp [findToken, hc]
  | cons x before ih =>
      have hx : x ≠ stop := by
        intro heq
        exact hstop (by simp [heq])
      have hxc : ¬ [c] <+: x :: (before ++ c :: after) := by
        intro hstarts
        have heq : c = x := by
          simpa using hstarts
        exact hfirst (by simp [heq])
      have hrest := ih (fun hmem => hstop (List.mem_cons_of_mem _ hmem))
        (fun hmem => hfirst (List.mem_cons_of_mem _ hmem))
      rw [List.cons_append, findToken, if_neg hx, if_neg hxc, hrest]
      simp

/-- A token that only starts at the very end of a text is not found in a proper prefix of it. -/
theorem findToken_take_eq_none {stop : elem} {token text : List elem}
    (honly : forall i, token <+: text.drop i -> i + token.length = text.length)
    (htoken : token ≠ []) {n : Nat} (hn : n < text.length) :
    findToken stop token (text.take n) = none := by
  cases hfound : findToken stop token (text.take n) with
  | none => rfl
  | some i =>
      have hpart := findToken_starts hfound
      have hwhole : token <+: text.drop i := by
        apply hpart.trans
        rw [List.drop_take]
        exact List.take_prefix _ _
      have hend := honly i hwhole
      have hlen := hpart.length_le
      have hpos := List.length_pos_of_ne_nil htoken
      rw [List.length_drop, List.length_take] at hlen
      lia

end Search

end Foundation
end Ch579HttpLed
