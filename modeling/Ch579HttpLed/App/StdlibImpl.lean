import Mathlib.Algebra.Ring.Int.Defs
import Ch579HttpLed.Foundation.Runs

/-!
# The program break

Model of `_sbrk` in `stdlib_impl.c`, from which the C library takes the memory
of `malloc`.  The break is a sixteen-bit index into a static array.  Its guard
is evaluated in 32-bit signed arithmetic and has no lower bound, so a request
that goes below the start of the array, or a sum that overflows, passes it and
is then cut to sixteen bits.
-/

namespace Ch579HttpLed
namespace App

open Foundation

/-- Size of the static array `heap`. -/
def heapSize : Nat := 2048

/-- The sum `last+nbytes` as the guard sees it. -/
def sbrkSum (last : UInt16) (nbytes : Int32) : Int32 :=
  Int32.ofNat last.toNat + nbytes

/-- Index of the returned pointer, `none` for -1, and the new break. -/
def sbrk (last : UInt16) (nbytes : Int32) : Option Nat × UInt16 :=
  if sbrkSum last nbytes < 512 then
    (some last.toNat, UInt16.ofInt (sbrkSum last nbytes).toInt)
  else (none, last)

/-!
# Sequences of calls

A block is a range of indices handed out by a call with a positive argument.  It
is gone once the break has been moved below its end.
-/

structure Block where
  first : Nat
  stop : Nat
deriving DecidableEq, Repr

def Block.Disjoint (a b : Block) : Prop :=
  a.stop <= b.first ∨ b.stop <= a.first

/-- The break and the blocks still below it, in the order they were handed out. -/
structure SbrkState where
  last : UInt16
  blocks : List Block

/-- The block a successful call hands out. -/
def newBlocks (last : UInt16) (nbytes : Int32) : List Block :=
  if (sbrk last nbytes).1.isSome ∧ 0 < nbytes then
    [⟨last.toNat, last.toNat + nbytes.toInt.toNat⟩]
  else []

def sbrkStep (s : SbrkState) (nbytes : Int32) : SbrkState where
  last := (sbrk s.last nbytes).2
  blocks := (s.blocks ++ newBlocks s.last nbytes).filter
    (fun b => b.stop <= (sbrk s.last nbytes).2.toNat)

def sbrkStart : SbrkState := ⟨0, []⟩

/-!
# Sound calls
-/

/-- What a call has to do to the break and to the blocks. -/
structure SbrkSound (s : SbrkState) (nbytes : Int32) : Prop where
  in_heap : (sbrk s.last nbytes).2.toNat <= heapSize
  moved : forall p, (sbrk s.last nbytes).1 = some p ->
    p = s.last.toNat ∧
      ((sbrk s.last nbytes).2.toNat : Int) = (s.last.toNat : Int) + nbytes.toInt
  block : forall b, b ∈ newBlocks s.last nbytes ->
    b.stop <= heapSize ∧ forall a, a ∈ s.blocks -> a.Disjoint b
  failed : (sbrk s.last nbytes).1 = none -> (sbrk s.last nbytes).2 = s.last

/-- The true sum of break and argument is not negative and fits an `int`. -/
def SumInRange (s : SbrkState) (nbytes : Int32) : Prop :=
  0 <= (s.last.toNat : Int) + nbytes.toInt ∧
    (s.last.toNat : Int) + nbytes.toInt < 2 ^ 31

/-- Below the guard's limit, with all blocks below the break. -/
structure SbrkInv (s : SbrkState) : Prop where
  last_lt : s.last.toNat < 512
  blocks_le : forall b, b ∈ s.blocks -> b.stop <= s.last.toNat

theorem sbrkStart_inv : SbrkInv sbrkStart where
  last_lt := by decide
  blocks_le := by
    intro b hb
    cases hb

/-!
# The guard
-/

section Guard

variable {last : UInt16} {nbytes : Int32}

/-- The sum wraps past the largest `int`; it cannot wrap at the other end. -/
theorem toInt_sbrkSum (hlast : last.toNat < 512) :
    (sbrkSum last nbytes).toInt =
      if (last.toNat : Int) + nbytes.toInt < 2 ^ 31 then
        (last.toNat : Int) + nbytes.toInt
      else (last.toNat : Int) + nbytes.toInt - 2 ^ 32 := by
  have hlow := nbytes.le_toInt
  have hhigh := nbytes.toInt_lt
  have hcast : (Int32.ofNat last.toNat).toInt = last.toNat :=
    Int32.toInt_ofNat_of_lt (by omega)
  unfold sbrkSum
  rw [Int32.toInt_add, hcast, Int.bmod_eq_iff (by decide)]
  split <;> omega

/-- A true sum below 512 is granted, and the break moves to it. -/
theorem sbrk_of_sum_lt (hlast : last.toNat < 512)
    (hnonneg : 0 <= (last.toNat : Int) + nbytes.toInt)
    (hlt : (last.toNat : Int) + nbytes.toInt < 512) :
    (sbrk last nbytes).1 = some last.toNat ∧
      ((sbrk last nbytes).2.toNat : Int) = (last.toNat : Int) + nbytes.toInt := by
  have hsum : (sbrkSum last nbytes).toInt = (last.toNat : Int) + nbytes.toInt := by
    rw [toInt_sbrkSum hlast, if_pos (by omega)]
  have hguard : sbrkSum last nbytes < 512 := by
    rw [Int32.lt_iff_toInt_lt, hsum]
    exact hlt
  rw [sbrk, if_pos hguard, hsum]
  constructor
  · rfl
  · rw [UInt16.ofInt, UInt16.toNat_ofNat']
    omega

/-- A true sum from 512 on that fits an `int` is refused. -/
theorem sbrk_of_le_sum (hlast : last.toNat < 512)
    (hle : 512 <= (last.toNat : Int) + nbytes.toInt)
    (hfits : (last.toNat : Int) + nbytes.toInt < 2 ^ 31) :
    sbrk last nbytes = (none, last) := by
  have hsum : (sbrkSum last nbytes).toInt = (last.toNat : Int) + nbytes.toInt := by
    rw [toInt_sbrkSum hlast, if_pos hfits]
  have hguard : ¬ sbrkSum last nbytes < 512 := by
    rw [Int32.lt_iff_toInt_lt, hsum]
    exact Int.not_lt.mpr hle
  rw [sbrk, if_neg hguard]

/-- A true sum outside the range of `0` to the largest `int` is granted. -/
theorem sbrk_of_sum_out (hlast : last.toNat < 512)
    (hout : ¬ (0 <= (last.toNat : Int) + nbytes.toInt ∧
      (last.toNat : Int) + nbytes.toInt < 2 ^ 31)) :
    (sbrk last nbytes).1 = some last.toNat := by
  have hhigh := nbytes.toInt_lt
  have hsum : (sbrkSum last nbytes).toInt < 512 := by
    rw [toInt_sbrkSum hlast]
    split <;> omega
  have hguard : sbrkSum last nbytes < 512 := by
    rw [Int32.lt_iff_toInt_lt]
    exact hsum
  rw [sbrk, if_pos hguard]

end Guard

/-!
# Steps

Inside the range the guard is exact.  Outside it the call succeeds although the
break cannot be where the caller is told: a break is neither negative nor as
large as the sum.
-/

section Steps

variable {s : SbrkState} {nbytes : Int32}

/-- Inside the range a call moves the break as asked, or refuses and changes nothing. -/
theorem sbrk_cases (hinv : SbrkInv s) (hrange : SumInRange s nbytes) :
    ((sbrk s.last nbytes).1 = some s.last.toNat ∧
      ((sbrk s.last nbytes).2.toNat : Int) = (s.last.toNat : Int) + nbytes.toInt ∧
      (sbrk s.last nbytes).2.toNat < 512) ∨
    sbrk s.last nbytes = (none, s.last) := by
  rcases Int.lt_or_le ((s.last.toNat : Int) + nbytes.toInt) 512 with hlt | hle
  · have hmoved := sbrk_of_sum_lt hinv.last_lt hrange.left hlt
    apply Or.inl
    exact ⟨hmoved.left, hmoved.right, by omega⟩
  · exact Or.inr (sbrk_of_le_sum hinv.last_lt hle hrange.right)

theorem sbrk_break_lt (hinv : SbrkInv s) (hrange : SumInRange s nbytes) :
    (sbrk s.last nbytes).2.toNat < 512 := by
  rcases sbrk_cases hinv hrange with hmoved | hrefused
  · exact hmoved.right.right
  · rw [hrefused]
    exact hinv.last_lt

theorem sbrk_break_le_heapSize (hinv : SbrkInv s) (hrange : SumInRange s nbytes) :
    (sbrk s.last nbytes).2.toNat <= heapSize :=
  Nat.le_trans (Nat.le_of_lt (sbrk_break_lt hinv hrange)) (by decide)

/-- A block that is handed out starts at the old break and ends at the new one. -/
theorem newBlocks_mem (hinv : SbrkInv s) (hrange : SumInRange s nbytes) {b : Block}
    (hb : b ∈ newBlocks s.last nbytes) :
    b.first = s.last.toNat ∧ b.stop = (sbrk s.last nbytes).2.toNat := by
  unfold newBlocks at hb
  split at hb
  · rename_i hgranted
    have hpos : 0 < nbytes.toInt := Int32.lt_iff_toInt_lt.mp hgranted.right
    rcases sbrk_cases hinv hrange with hmoved | hrefused
    · have hb' := List.mem_singleton.mp hb
      subst hb'
      constructor
      · rfl
      · change s.last.toNat + nbytes.toInt.toNat = (sbrk s.last nbytes).2.toNat
        have hmove := hmoved.right.left
        omega
    · rw [hrefused] at hgranted
      cases hgranted.left
  · cases hb

theorem sbrkSound_of_sumInRange (hinv : SbrkInv s) (hrange : SumInRange s nbytes) :
    SbrkSound s nbytes where
  in_heap := sbrk_break_le_heapSize hinv hrange
  moved := by
    intro p hp
    rcases sbrk_cases hinv hrange with hmoved | hrefused
    · rw [hmoved.left] at hp
      exact ⟨(Option.some.inj hp).symm, hmoved.right.left⟩
    · rw [hrefused] at hp
      cases hp
  block := by
    intro b hb
    have hends := newBlocks_mem hinv hrange hb
    constructor
    · rw [hends.right]
      exact sbrk_break_le_heapSize hinv hrange
    · intro a ha
      apply Or.inl
      rw [hends.left]
      exact hinv.blocks_le a ha
  failed := by
    intro hnone
    rcases sbrk_cases hinv hrange with hmoved | hrefused
    · rw [hmoved.left] at hnone
      cases hnone
    · rw [hrefused]

/-- A sound call is in range: outside it the call succeeds and the break is wrong. -/
theorem sumInRange_of_sbrkSound (hinv : SbrkInv s) (hsound : SbrkSound s nbytes) :
    SumInRange s nbytes := by
  by_contra hout
  have hmoved := hsound.moved s.last.toNat (sbrk_of_sum_out hinv.last_lt hout)
  have hheap := hsound.in_heap
  apply hout
  unfold SumInRange
  rw [← hmoved.right]
  unfold heapSize at hheap
  omega

theorem sbrkSound_iff (hinv : SbrkInv s) :
    SbrkSound s nbytes <-> SumInRange s nbytes :=
  ⟨sumInRange_of_sbrkSound hinv, sbrkSound_of_sumInRange hinv⟩

theorem sbrkStep_inv (hinv : SbrkInv s) (hrange : SumInRange s nbytes) :
    SbrkInv (sbrkStep s nbytes) where
  last_lt := sbrk_break_lt hinv hrange
  blocks_le := by
    intro b hb
    have hkept := (List.mem_filter.mp hb).right
    exact of_decide_eq_true hkept

end Steps

/-!
# Runs
-/

/--
A sequence of calls is sound at every call exactly if at every call the break
plus the argument, added without overflow, is neither negative nor above the
largest `int`.
-/
theorem sbrk_sound_iff_sumInRange (ns : List Int32) :
    AllSteps sbrkStep SbrkSound sbrkStart ns <->
      AllSteps sbrkStep SumInRange sbrkStart ns := by
  refine allSteps_congr ?_ ?_ sbrkStart_inv ns
  · intro s nbytes hinv hsound
    exact sbrkStep_inv hinv (sumInRange_of_sbrkSound hinv hsound)
  · intro s nbytes hinv
    exact sbrkSound_iff hinv

/--
The first call gives back one byte of an empty heap: it succeeds, and the break
lies far behind the end of the array.
-/
theorem sbrk_unsound_below_start :
    sbrk sbrkStart.last (-1) = (some 0, 65535) ∧
      ¬ AllSteps sbrkStep SbrkSound sbrkStart [-1] := by
  have hcall : sbrk sbrkStart.last (-1) = (some 0, 65535) := by decide
  constructor
  · exact hcall
  · intro hall
    have hheap := hall.left.in_heap
    rw [hcall] at hheap
    exact absurd hheap (by decide)

end App
end Ch579HttpLed
