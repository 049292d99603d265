import Mathlib.Algebra.GroupWithZero.Nat
import Mathlib.Data.List.Chain

/-!
# Areas side by side

A region of memory that is cut into areas without gaps is the list of their
sizes, each area in use or free.  The offset of an area follows from the sizes
before it.  The module has the offsets, the lowest free area, the first area
that fits a request, and what each of them becomes when the list is cut in two.
-/

namespace Ch579HttpLed
namespace Foundation

structure Area where
  size : Nat
  used : Bool
deriving DecidableEq, Repr

def areasSize : List Area -> Nat
  | [] => 0
  | x :: xs => x.size + areasSize xs

/-- The areas with their offsets, the first one at `start`. -/
def areasFrom (start : Nat) : List Area -> List (Nat × Area)
  | [] => []
  | x :: xs => (start, x) :: areasFrom (start + x.size) xs

def usedFrom (start : Nat) (xs : List Area) : List (Nat × Area) :=
  (areasFrom start xs).filter (fun x => x.2.used)

/-- Offset of the first free area, or of the end. -/
def lowestFree (start : Nat) : List Area -> Nat
  | [] => start
  | x :: xs => if x.used then lowestFree (start + x.size) xs else start

/-- Offset of the last area, or `before` when there is none. -/
def lastFrom (before start : Nat) : List Area -> Nat
  | [] => before
  | x :: xs => lastFrom start (start + x.size) xs

def NoFreePair (xs : List Area) : Prop :=
  xs.IsChain (fun x y => x.used = true ∨ y.used = true)

/-- Nothing free at the right end. -/
def EndsUsed (xs : List Area) : Prop :=
  forall x, x ∈ xs.getLast? -> x.used = true

/-- Nothing free at the left end. -/
def StartsUsed (xs : List Area) : Prop :=
  forall x, x ∈ xs.head? -> x.used = true

/-- Offset of the first free area with room for `need`. -/
def firstFit (need : Nat) (start : Nat) : List Area -> Option Nat
  | [] => none
  | x :: xs =>
      if x.used = false ∧ need <= x.size then
        some start
      else
        firstFit need (start + x.size) xs

section Areas

variable {start before need : Nat} {xs ys : List Area}

@[simp] theorem areasSize_append (xs ys : List Area) :
    areasSize (xs ++ ys) = areasSize xs + areasSize ys := by
  induction xs with
  | nil =>
      simp [areasSize]
  | cons x xs ih =>
      simp [areasSize, ih, Nat.add_assoc]

theorem areasFrom_append (start : Nat) (xs ys : List Area) :
    areasFrom start (xs ++ ys) =
      areasFrom start xs ++ areasFrom (start + areasSize xs) ys := by
  induction xs generalizing start with
  | nil =>
      simp [areasFrom, areasSize]
  | cons x xs ih =>
      simp [areasFrom, areasSize, ih, Nat.add_assoc]

theorem lastFrom_append (before start : Nat) (xs ys : List Area) :
    lastFrom before start (xs ++ ys) =
      lastFrom (lastFrom before start xs) (start + areasSize xs) ys := by
  induction xs generalizing before start with
  | nil =>
      simp [lastFrom, areasSize]
  | cons x xs ih =>
      simp [lastFrom, areasSize, ih, Nat.add_assoc]

/-- The lowest free area lies in the first part, or the first part is all in use. -/
theorem lowestFree_append_cases (start : Nat) {xs : List Area}
    (hpos : forall x, x ∈ xs -> 0 < x.size) :
    (forall ys, lowestFree start (xs ++ ys) = lowestFree (start + areasSize xs) ys) ∨
      (exists p, p < start + areasSize xs ∧ forall ys, lowestFree start (xs ++ ys) = p) := by
  induction xs generalizing start with
  | nil =>
      exact Or.inl (fun ys => rfl)
  | cons x xs ih =>
      have hx := hpos x List.mem_cons_self
      rcases x with ⟨size, _ | _⟩
      · apply Or.inr
        refine ⟨start, ?_, fun ys => rfl⟩
        rw [areasSize]
        lia
      · rw [areasSize, ← Nat.add_assoc]
        exact ih (start + size) (fun y hy => hpos y (List.mem_cons_of_mem _ hy))

theorem usedFrom_append (start : Nat) (xs ys : List Area) :
    usedFrom start (xs ++ ys) =
      usedFrom start xs ++ usedFrom (start + areasSize xs) ys := by
  simp [usedFrom, areasFrom_append]

theorem usedFrom_cons_used (start size : Nat) (xs : List Area) :
    usedFrom start (⟨size, true⟩ :: xs) =
      (start, ⟨size, true⟩) :: usedFrom (start + size) xs := by
  simp [usedFrom, areasFrom]

theorem usedFrom_cons_free (start size : Nat) (xs : List Area) :
    usedFrom start (⟨size, false⟩ :: xs) = usedFrom (start + size) xs := by
  simp [usedFrom, areasFrom]

theorem areasFrom_bounds {x : Nat × Area} (h : x ∈ areasFrom start xs) :
    start <= x.1 ∧ x.1 + x.2.size <= start + areasSize xs := by
  induction xs generalizing start with
  | nil =>
      cases h
  | cons y ys ih =>
      rw [areasFrom, List.mem_cons] at h
      rw [areasSize]
      rcases h with heq | htail
      · rw [heq]
        lia
      · have := ih htail
        lia

theorem size_le_areasSize {x : Area} (h : x ∈ xs) : x.size <= areasSize xs := by
  induction xs with
  | nil =>
      cases h
  | cons y ys ih =>
      rw [areasSize]
      rcases List.mem_cons.mp h with heq | htail
      · rw [heq]
        lia
      · have := ih htail
        lia

/-- An area at an offset cuts the list there. -/
theorem areasFrom_split {x : Nat × Area} (h : x ∈ areasFrom start xs) :
    exists left right, xs = left ++ x.2 :: right ∧ x.1 = start + areasSize left := by
  induction xs generalizing start with
  | nil =>
      cases h
  | cons y ys ih =>
      rw [areasFrom, List.mem_cons] at h
      rcases h with heq | htail
      · exact ⟨[], ys, by rw [heq]; rfl, by rw [heq]; rfl⟩
      · rcases ih htail with ⟨left, right, hys, hoffset⟩
        refine ⟨y :: left, right, by rw [hys]; rfl, ?_⟩
        rw [hoffset, areasSize, Nat.add_assoc]

theorem pairwise_areasFrom (start : Nat) (xs : List Area) :
    (areasFrom start xs).Pairwise (fun x y => x.1 + x.2.size <= y.1) := by
  induction xs generalizing start with
  | nil =>
      exact List.Pairwise.nil
  | cons x xs ih =>
      apply List.Pairwise.cons
      · intro y hy
        exact (areasFrom_bounds hy).left
      · exact ih (start + x.size)

/-- Two areas of the row are the same or do not meet. -/
theorem areasFrom_apart {x y : Nat × Area} (hx : x ∈ areasFrom start xs)
    (hy : y ∈ areasFrom start xs) :
    x = y ∨ x.1 + x.2.size <= y.1 ∨ y.1 + y.2.size <= x.1 := by
  induction xs generalizing start with
  | nil =>
      cases hx
  | cons z zs ih =>
      rw [areasFrom, List.mem_cons] at hx hy
      rcases hx with hxHead | hxTail
      · rcases hy with hyHead | hyTail
        · exact Or.inl (hxHead.trans hyHead.symm)
        · rw [hxHead]
          exact Or.inr (Or.inl (areasFrom_bounds hyTail).left)
      · rcases hy with hyHead | hyTail
        · rw [hyHead]
          exact Or.inr (Or.inr (areasFrom_bounds hxTail).left)
        · exact ih hxTail hyTail

theorem lowestFree_bounds (start : Nat) (xs : List Area) :
    start <= lowestFree start xs ∧ lowestFree start xs <= start + areasSize xs := by
  induction xs generalizing start with
  | nil =>
      exact ⟨Nat.le_refl _, Nat.le_add_right _ _⟩
  | cons x xs ih =>
      rw [lowestFree, areasSize]
      have := ih (start + x.size)
      split
      · lia
      · lia

/-- The lowest free area cuts the list behind areas that are all in use. -/
theorem lowestFree_split (start : Nat) (xs : List Area) :
    exists left right, xs = left ++ right ∧ lowestFree start xs = start + areasSize left ∧
      (forall x, x ∈ left -> x.used = true) ∧
      (right = [] ∨ exists size tail, right = ⟨size, false⟩ :: tail) := by
  induction xs generalizing start with
  | nil =>
      exact ⟨[], [], rfl, rfl, by simp, Or.inl rfl⟩
  | cons x xs ih =>
      rcases x with ⟨size, _ | _⟩
      · exact ⟨[], ⟨size, false⟩ :: xs, rfl, rfl, by simp, Or.inr ⟨size, xs, rfl⟩⟩
      · rcases ih (start + size) with ⟨left, right, hxs, hlow, hused, hright⟩
        refine ⟨⟨size, true⟩ :: left, right, by rw [hxs]; rfl, ?_, ?_, hright⟩
        · change lowestFree (start + size) xs = _
          rw [hlow, areasSize, Nat.add_assoc]
        · simpa using hused

theorem noFreePair_used {size : Nat} :
    NoFreePair (xs ++ ⟨size, true⟩ :: ys) <-> NoFreePair xs ∧ NoFreePair ys := by
  simp [NoFreePair, List.isChain_append, List.isChain_cons]

theorem noFreePair_free {size : Nat} :
    NoFreePair (xs ++ ⟨size, false⟩ :: ys) <->
      NoFreePair xs ∧ EndsUsed xs ∧ StartsUsed ys ∧ NoFreePair ys := by
  simp [NoFreePair, EndsUsed, StartsUsed, List.isChain_append, List.isChain_cons]
  tauto

theorem noFreePair_free_cons {size : Nat} :
    NoFreePair (⟨size, false⟩ :: ys) <-> StartsUsed ys ∧ NoFreePair ys := by
  simp [NoFreePair, StartsUsed, List.isChain_cons]

theorem firstFit_append_used (h : forall x, x ∈ xs -> x.used = true) :
    firstFit need start (xs ++ ys) = firstFit need (start + areasSize xs) ys := by
  induction xs generalizing start with
  | nil => rfl
  | cons x xs ih =>
      rw [List.cons_append, firstFit, h x List.mem_cons_self, areasSize, ← Nat.add_assoc]
      simp only [Bool.true_eq_false, false_and, if_false]
      exact ih (fun y hy => h y (List.mem_cons_of_mem _ hy))

theorem firstFit_eq_some {p : Nat} (h : firstFit need start xs = some p) :
    exists left size right, xs = left ++ ⟨size, false⟩ :: right ∧
      p = start + areasSize left ∧ need <= size ∧
      forall x, x ∈ left -> x.used = true ∨ x.size < need := by
  induction xs generalizing start with
  | nil =>
      cases h
  | cons x xs ih =>
      rw [firstFit] at h
      split at h
      next hfits =>
        rcases x with ⟨size, used⟩
        cases hfits.left
        exact ⟨[], size, xs, rfl, (Option.some.inj h).symm, hfits.right, by simp⟩
      next hnot =>
        rcases ih h with ⟨left, size, right, hxs, hp, hneed, hleft⟩
        refine ⟨x :: left, size, right, by rw [hxs]; rfl, ?_, hneed, ?_⟩
        · rw [hp, areasSize, Nat.add_assoc]
        · intro y hy
          rcases List.mem_cons.mp hy with heq | hmem
          · rw [heq]
            rcases Bool.eq_false_or_eq_true x.used with htrue | hfalse
            · exact Or.inl htrue
            · apply Or.inr
              apply Nat.lt_of_not_le
              intro hle
              exact hnot ⟨hfalse, hle⟩
          · exact hleft y hmem

theorem firstFit_eq_none_iff :
    firstFit need start xs = none <->
      forall x, x ∈ xs -> x.used = true ∨ x.size < need := by
  induction xs generalizing start with
  | nil =>
      simp [firstFit]
  | cons x xs ih =>
      rw [firstFit, List.forall_mem_cons]
      rcases x with ⟨size, _ | _⟩
      · rcases Nat.lt_or_ge size need with hlt | hge
        · simp [Nat.not_le.mpr hlt, hlt, ih]
        · simp [hge]
      · simp [ih]

end Areas

end Foundation
end Ch579HttpLed
