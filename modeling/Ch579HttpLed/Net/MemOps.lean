import Ch579HttpLed.Net.MemLayout

/-!
# What the heap operations do to the row of areas

For a heap that is a row of areas no assertion of `mem_malloc` and `mem_free` can
fail, and the result is again such a heap.  `mem_malloc` takes the first area that
fits, `mem_free` joins the area with its free neighbours.  `mem_trim` is the
exception: it asserts that the area is not the last one of the heap.
-/

namespace Ch579HttpLed
namespace Net

open Foundation

theorem lwipAssert_ok {message : String} {assertion : Bool} (h : assertion = true) :
    lwipAssert message assertion = .ok () := by
  rw [h]
  rfl

theorem lwipAssert_error {message : String} {assertion : Bool} (h : assertion = false) :
    lwipAssert message assertion = .error message := by
  rw [h]
  rfl

@[simp] theorem except_ok_bind {α β : Type} (x : α) (f : α -> Except String β) :
    (Except.ok x >>= f) = f x := rfl

@[simp] theorem except_error_bind {α β : Type} (message : String) (f : α -> Except String β) :
    ((Except.error message : Except String α) >>= f) = .error message := rfl

/-!
# Joining free areas
-/

section Plug

variable {heap : MemHeap} {xs ys : List Area} {s n : Nat}

theorem Laid.lfree_le_free (h : Laid heap (xs ++ ⟨s, false⟩ :: ys)) :
    heap.lfree <= areasSize xs := by
  rw [h.lfree]
  rcases lowestFree_append_cases 0 (goodSizes_append.mp h.sizes).left.pos with hall | ⟨p, hp, hall⟩
  · rw [hall]
    simp [lowestFree]
  · rw [hall]
    lia

theorem combine_eq (h : Laid heap (xs ++ ([⟨s, false⟩, ⟨n, false⟩] ++ ys))) :
    combine heap (areasSize xs) (areasSize xs + s) =
      ⟨linkBack (setNext heap.ram (areasSize xs) (areasSize xs + (s + n)))
        (areasSize xs + (s + n)) (areasSize xs), heap.lfree⟩ := by
  rcases h.parts with ⟨_, _, hmid, _, _, hlinked, _⟩
  have hs := (goodSizes_cons.mp hmid).left.left
  have hle := h.lfree_le_free
  have hnext : ptrToMem heap.ram (areasSize xs + s) =
      ⟨areasSize xs + s + n, areasSize xs, 0⟩ := hlinked.right.left
  have hkept := (setNext_outside heap.ram (areasSize xs) (areasSize xs + s + n)).ptrToMem
    (Or.inr (show areasSize xs + 5 <= areasSize xs + s by lia))
  unfold combine
  simp only [hnext, hkept]
  rw [if_neg (by lia), Nat.add_assoc]

theorem combine_laid (h : Laid heap (xs ++ ([⟨s, false⟩, ⟨n, false⟩] ++ ys))) :
    Laid (combine heap (areasSize xs) (areasSize xs + s)) (xs ++ ([⟨s + n, false⟩] ++ ys)) ∧
      SameOutside (areasSize xs) (areasSize xs + (s + n) + 5) heap.ram
        (combine heap (areasSize xs) (areasSize xs + s)).ram := by
  rcases h.parts with ⟨htotal, hxs, hmid, _, _, hlinked, _⟩
  rcases goodSizes_cons.mp hmid with ⟨hs, hrest⟩
  have hn := (goodSizes_cons.mp hrest).left
  simp only [areasSize] at htotal
  have hset := setNext_outside heap.ram (areasSize xs) (areasSize xs + (s + n))
  have hback := linkBack_outside (setNext heap.ram (areasSize xs) (areasSize xs + (s + n)))
    (areasSize xs + (s + n)) (areasSize xs)
  rw [combine_eq h]
  constructor
  · change Laid ⟨linkBack _ (areasSize xs + areasSize [⟨s, false⟩, ⟨n, false⟩])
      (lastFrom (lastFrom 0 0 xs) (areasSize xs) [⟨s + n, false⟩]), _⟩ _
    apply h.relink
    · rfl
    · apply goodSizes_cons.mpr
      exact ⟨by lia, goodSizes_nil⟩
    · refine ⟨?_, trivial⟩
      rw [ptrToMem_setNext (by lia), hlinked.left]
    · exact hset.mono (Nat.le_refl _) (by simp only [areasSize]; lia)
    · rw [h.lfree]
      rcases lowestFree_append_cases 0 hxs.pos with hall | ⟨p, _, hall⟩
      · rw [hall, hall]
        rfl
      · rw [hall, hall]
  · exact (hset.mono (Nat.le_refl _) (by lia)).trans (hback.mono (by lia) (Nat.le_refl _))

theorem plugForward_laid (h : Laid heap (xs ++ ⟨s, false⟩ :: ys)) (hys : NoFreePair ys) :
    exists s' ys', Laid (plugForward heap (areasSize xs)) (xs ++ ⟨s', false⟩ :: ys') ∧
      NoFreePair ys' ∧ StartsUsed ys' ∧
      usedFrom (areasSize xs + s') ys' = usedFrom (areasSize xs + s) ys ∧
      KeepsData (usedFrom 0 xs ++ usedFrom (areasSize xs + s) ys) heap.ram
        (plugForward heap (areasSize xs)).ram := by
  have hheader := h.header
  unfold plugForward
  rw [hheader]
  rcases ys with _ | ⟨⟨n, _ | _⟩, ys⟩
  · rw [if_neg (fun hc => hc.right.right h.end_of_last)]
    exact ⟨s, [], h, hys, by simp [StartsUsed], rfl, KeepsData.refl _ _⟩
  · rcases h.lt_end with ⟨hs, hn, hend⟩
    have hplug : areasSize xs ≠ areasSize xs + s ∧
        (ptrToMem heap.ram (areasSize xs + s)).used = 0 ∧
          areasSize xs + s ≠ memSizeAligned := by
      refine ⟨by lia, by rw [h.nextHeader]; rfl, ?_⟩
      unfold memSizeAligned
      lia
    rw [if_pos hplug]
    rcases combine_laid h with ⟨hlaid, hsame⟩
    have hfree := noFreePair_free_cons.mp hys
    rw [usedFrom_cons_free]
    refine ⟨s + n, ys, hlaid, hfree.right, hfree.left, ?_, ?_⟩
    · rw [Nat.add_assoc]
    · rw [Nat.add_assoc]
      exact (hsame.mono (Nat.le_refl _) (by lia)).keepsData
  · have hused : (ptrToMem heap.ram (areasSize xs + s)).used = 1 := by
      rw [h.nextHeader]
      rfl
    rw [if_neg (fun hc => usedByte_true_ne (hused.symm.trans hc.right.left))]
    exact ⟨s, _, h, hys, by simp [StartsUsed], rfl, KeepsData.refl _ _⟩

theorem plugBackward_laid (h : Laid heap (xs ++ ⟨s, false⟩ :: ys)) (hxs : NoFreePair xs) :
    exists xs' s', Laid (plugBackward heap (areasSize xs)) (xs' ++ ⟨s', false⟩ :: ys) ∧
      NoFreePair xs' ∧ EndsUsed xs' ∧ usedFrom 0 xs' = usedFrom 0 xs ∧
      areasSize xs' + s' = areasSize xs + s ∧
      KeepsData (usedFrom 0 xs ++ usedFrom (areasSize xs + s) ys) heap.ram
        (plugBackward heap (areasSize xs)).ram := by
  have hheader := h.header
  unfold plugBackward
  rw [hheader]
  rcases List.eq_nil_or_concat xs with hnil | ⟨init, ⟨m, used⟩, hconcat⟩
  · rw [hnil] at h ⊢
    rw [if_neg (fun hc => hc.left rfl)]
    exact ⟨[], s, h, by simp [NoFreePair], by simp [EndsUsed], rfl, rfl, KeepsData.refl _ _⟩
  · have hrow : xs = init ++ [⟨m, used⟩] := by rw [hconcat, List.concat_eq_append]
    rw [hrow] at h hxs ⊢
    have hlast : lastFrom 0 0 (init ++ [⟨m, used⟩]) = areasSize init := by
      rw [lastFrom_append, Nat.zero_add]
      rfl
    have hinitSize : areasSize (init ++ [⟨m, used⟩]) = areasSize init + m := areasSize_append _ _
    have hassoc : init ++ [⟨m, used⟩] ++ ⟨s, false⟩ :: ys =
        init ++ ⟨m, used⟩ :: ⟨s, false⟩ :: ys := by simp
    have hinit : Laid heap (init ++ ⟨m, used⟩ :: ⟨s, false⟩ :: ys) := hassoc ▸ h
    rcases hinit.lt_end with ⟨hm, _, _⟩
    rw [hlast, hinitSize]
    dsimp only
    rw [hinit.header]
    cases used with
    | true =>
        rw [if_neg (fun hc => usedByte_true_ne hc.right)]
        exact ⟨_, s, h, hxs, by simp [EndsUsed], rfl, by rw [hinitSize], KeepsData.refl _ _⟩
    | false =>
        rw [if_pos ⟨by lia, rfl⟩]
        rcases combine_laid hinit with ⟨hlaid, hsame⟩
        have hfree := noFreePair_free.mp hxs
        have hused : usedFrom 0 (init ++ [⟨m, false⟩]) = usedFrom 0 init := by
          rw [usedFrom_append, usedFrom_cons_free]
          exact List.append_nil _
        rw [hused, Nat.add_assoc]
        exact ⟨init, m + s, hlaid, hfree.left, hfree.right.left, rfl, rfl,
          (hsame.mono (Nat.le_refl _) (by lia)).keepsData⟩

end Plug

/-!
# Freeing
-/

section Free

variable {heap : MemHeap} {xs ys : List Area} {x : Area} {s : Nat} {used : Bool}

theorem Laid.markUsed {lfree : Nat} (h : Laid heap (xs ++ ⟨s, used⟩ :: ys)) (used' : Bool)
    (hlfree : lfree = lowestFree 0 (xs ++ ⟨s, used'⟩ :: ys)) :
    Laid ⟨setUsed heap.ram (areasSize xs) (usedByte used'), lfree⟩ (xs ++ ⟨s, used'⟩ :: ys) := by
  have hset := setUsed_outside heap.ram (areasSize xs) (usedByte used')
  have hrow : Laid heap (xs ++ ([⟨s, used⟩] ++ ys)) := h
  rcases hrow.parts with ⟨htotal, _, hmid, hys, _, _, hright⟩
  have hs := (goodSizes_cons.mp hmid).left
  change Laid _ (xs ++ ([⟨s, used'⟩] ++ ys))
  simp only [areasSize] at htotal hright
  apply hrow.replace
  · rfl
  · exact goodSizes_cons.mpr ⟨hs, goodSizes_nil⟩
  · constructor
    · rw [ptrToMem_setUsed, h.header]
    · exact hright.of_sameOutside hys hset (by lia)
  · exact hset.mono (Nat.le_refl _) (by lia)
  · exact hset.ptrToMem (by lia)
  · exact hlfree

theorem Laid.next_le (h : Laid heap (xs ++ x :: ys)) :
    20 <= x.size ∧ areasSize xs + x.size <= 4096 := by
  have hsize := h.size
  have hx := (goodSizes_cons.mp (goodSizes_append.mp h.sizes).right).left
  simp only [areasSize_append, areasSize] at hsize
  lia

/-- The header before an area points to it, or it is the first one. -/
theorem Laid.prev_links (h : Laid heap (xs ++ x :: ys)) :
    lastFrom 0 0 xs <= areasSize xs ∧
      (lastFrom 0 0 xs = areasSize xs ∨
        (ptrToMem heap.ram (lastFrom 0 0 xs)).next = areasSize xs) := by
  constructor
  · simpa using lastFrom_le (Nat.le_refl 0) xs
  · rcases List.eq_nil_or_concat xs with hnil | ⟨init, y, hconcat⟩
    · rw [hnil]
      exact Or.inl rfl
    · apply Or.inr
      rw [List.concat_eq_append] at hconcat
      rw [hconcat, List.append_assoc] at h
      have hlast : lastFrom 0 0 xs = areasSize init := by
        rw [hconcat, lastFrom_append, Nat.zero_add]
        rfl
      rw [hlast, h.header, hconcat, areasSize_append]
      rfl

theorem Laid.linkValid (h : Laid heap (xs ++ x :: ys)) :
    memLinkValid heap.ram (areasSize xs) = true := by
  rcases h.next_le with ⟨_, hnext⟩
  rcases h.prev_links with ⟨hprev, hbefore⟩
  unfold memLinkValid memSizeAligned
  rw [h.header]
  apply if_neg
  rintro (hc | hc | hc | hc)
  · exact Nat.not_lt.mpr hnext hc
  · exact Nat.not_lt.mpr hprev (by lia)
  · rcases hbefore with hfirst | hlinks
    · exact hc.left hfirst
    · exact hc.right hlinks
  · rcases ys with _ | ⟨y, ys⟩
    · exact hc.left h.end_of_last
    · apply hc.right
      rw [h.nextHeader]

theorem Laid.plugHoles_ok (h : Laid heap (xs ++ ⟨s, false⟩ :: ys)) :
    plugHoles heap (areasSize xs) =
      .ok (plugBackward (plugForward heap (areasSize xs)) (areasSize xs)) := by
  rcases h.next_le with ⟨hs, hnext⟩
  have hbelow : areasSize xs < memSizeAligned := by
    unfold memSizeAligned
    lia
  have hfree : (ptrToMem heap.ram (areasSize xs)).used = 0 := by
    rw [h.header]
    rfl
  have hinside : (ptrToMem heap.ram (areasSize xs)).next <= memSizeAligned := by
    rw [h.header]
    exact hnext
  unfold plugHoles
  rw [lwipAssert_ok (decide_eq_true hbelow), lwipAssert_ok (decide_eq_true hfree),
    lwipAssert_ok (decide_eq_true hinside)]
  rfl

/-- Freeing an area in use joins it with its free neighbours and keeps all other data. -/
theorem freeMem_represents (h : Represents heap (xs ++ ⟨s, true⟩ :: ys)) :
    exists heap' zs, freeMem heap (areasSize xs) = .ok heap' ∧ Represents heap' zs ∧
      usedFrom 0 zs = usedFrom 0 xs ++ usedFrom (areasSize xs + s) ys ∧
      KeepsData (usedFrom 0 zs) heap.ram heap'.ram := by
  rcases h.toLaid.next_le with ⟨hs, hnext⟩
  rcases noFreePair_used.mp h.noFreePair with ⟨hleft, hright⟩
  have hgood := goodSizes_append.mp h.sizes
  have hlfree : (if areasSize xs < heap.lfree then areasSize xs else heap.lfree) =
      lowestFree 0 (xs ++ ⟨s, false⟩ :: ys) := by
    rw [h.lfree]
    rcases lowestFree_append_cases 0 hgood.left.pos with hall | ⟨p, hp, hall⟩
    · have hlow := (lowestFree_bounds (areasSize xs + s) ys).left
      rw [hall, hall, Nat.zero_add]
      simp only [lowestFree, if_true, Bool.false_eq_true, if_false]
      exact if_pos (by simp only at hs; lia)
    · rw [hall, hall]
      exact if_neg (by lia)
  have hmarked := h.toLaid.markUsed false hlfree
  have hmarkKeeps : KeepsData (usedFrom 0 xs ++ usedFrom (areasSize xs + s) ys) heap.ram
      (setUsed heap.ram (areasSize xs) (usedByte false)) :=
    ((setUsed_outside heap.ram (areasSize xs) (usedByte false)).mono
      (Nat.le_refl _) (by lia)).keepsData
  rcases plugForward_laid hmarked hright with
    ⟨s1, ys1, hforward, hys1, hstart, husedRight, hforwardKeeps⟩
  rcases plugBackward_laid hforward hleft with
    ⟨xs1, s2, hbackward, hxs1, hend, husedLeft, hcut, hbackwardKeeps⟩
  have hused : usedFrom 0 (xs1 ++ ⟨s2, false⟩ :: ys1) =
      usedFrom 0 xs ++ usedFrom (areasSize xs + s) ys := by
    rw [usedFrom_append, usedFrom_cons_free, Nat.zero_add, hcut, husedLeft, husedRight]
  refine ⟨_, xs1 ++ ⟨s2, false⟩ :: ys1, ?_, ⟨hbackward, ?_⟩, hused, ?_⟩
  · have hinUse : (ptrToMem heap.ram (areasSize xs)).used ≠ 0 := by
      rw [h.toLaid.header]
      exact usedByte_true_ne
    unfold freeMem
    rw [lwipAssert_ok (decide_eq_true hinUse), lwipAssert_ok h.toLaid.linkValid]
    exact hmarked.plugHoles_ok
  · exact noFreePair_free.mpr ⟨hxs1, hend, hstart, hys1⟩
  · rw [hused]
    rw [husedRight] at hbackwardKeeps
    exact (hmarkKeeps.trans hforwardKeeps).trans hbackwardKeeps

theorem memFree_represents (h : Represents heap (xs ++ ⟨s, true⟩ :: ys)) :
    memFree heap (some (areasSize xs + 8 : Nat)) = freeMem heap (areasSize xs) := by
  rcases h.toLaid.next_le with ⟨hs, hnext⟩
  have halign := (goodSizes_append.mp h.sizes).left.areasSize_mod
  have hmem : ((areasSize xs + 8 : Nat) - (sizeofStructMem : Int)).toNat = areasSize xs := by
    unfold sizeofStructMem
    lia
  unfold memFree
  dsimp only
  rw [hmem, lwipAssert_ok (decide_eq_true (by unfold memAlignment; lia)),
    lwipAssert_ok (decide_eq_true (by
      unfold sizeofStructMem minSizeAligned memSizeAligned
      simp only at hs hnext
      lia))]
  rfl

end Free

/-!
# Allocating
-/

section Malloc

variable {heap : MemHeap} {ram : Nat -> UInt8} {xs ys mid : List Area} {size n : Nat}

theorem userDataSize_eq {p prev : Nat} {u : UInt8} (h : ptrToMem ram p = ⟨p + n, prev, u⟩)
    (hn : 8 <= n) (hend : p + n <= 4096) : userDataSize ram p = n - 8 := by
  unfold userDataSize sizeofStructMem
  rw [h]
  simp only
  omega

/-- The scan finds the first area that fits; stopping early misses none. -/
theorem scanFree_eq {prev start fuel : Nat} (h : Linked ram prev start xs)
    (hsizes : GoodSizes xs) (hend : start + areasSize xs = 4096) (hfuel : xs.length < fuel) :
    scanFree ram size fuel start = firstFit (size + 8) start xs := by
  induction xs generalizing prev start fuel with
  | nil =>
      rcases fuel with _ | fuel
      · exact absurd hfuel (Nat.not_lt_zero _)
      · simp only [areasSize] at hend
        unfold scanFree memSizeAligned
        exact if_neg (by lia)
  | cons x xs ih =>
      rcases fuel with _ | fuel
      · exact absurd hfuel (Nat.not_lt_zero _)
      · rcases goodSizes_cons.mp hsizes with ⟨hx, hxs⟩
        rw [areasSize] at hend
        have hdata := userDataSize_eq h.left (by lia) (by lia)
        have hrest := ih h.right hxs (by lia) (Nat.lt_of_succ_lt_succ hfuel)
        rw [scanFree, firstFit, hdata, h.left, hrest]
        unfold memSizeAligned
        split
        next hbelow =>
          rcases x with ⟨m, _ | _⟩
          · have hfits : (size <= m - 8) <-> (size + 8 <= m) := by
              simp only at hx
              lia
            simp [usedByte, hfits]
          · simp [usedByte]
        next habove =>
          -- What is left of the heap is smaller than the request and its header.
          symm
          have hnone : firstFit (size + 8) start (x :: xs) = none := by
            apply firstFit_eq_none_iff.mpr
            intro y hy
            have hle := size_le_areasSize hy
            rw [areasSize] at hle
            exact Or.inr (by lia)
          rw [firstFit] at hnone
          exact hnone

theorem nextFree_eq {prev start fuel : Nat} (h : Linked ram prev start xs)
    (hsizes : GoodSizes xs) (hend : start + areasSize xs = 4096) (hfuel : xs.length < fuel) :
    nextFree ram fuel start = lowestFree start xs := by
  induction xs generalizing prev start fuel with
  | nil =>
      rcases fuel with _ | fuel
      · exact absurd hfuel (Nat.not_lt_zero _)
      · unfold nextFree
        exact if_neg (fun hc => hc.right hend)
  | cons x xs ih =>
      rcases fuel with _ | fuel
      · exact absurd hfuel (Nat.not_lt_zero _)
      · rcases goodSizes_cons.mp hsizes with ⟨hx, hxs⟩
        rw [areasSize] at hend
        have hrest := ih h.right hxs (by lia) (Nat.lt_of_succ_lt_succ hfuel)
        rw [nextFree, lowestFree, h.left, hrest]
        have hbelow : start ≠ memSizeAligned := by
          unfold memSizeAligned
          lia
        rcases x with ⟨m, _ | _⟩
        · simp [usedByte]
        · simp [usedByte, hbelow]

theorem insertMem_facts (ram : Nat -> UInt8) {a p2 e : Nat} (hp2 : a + 8 <= p2) (he : e < 65536)
    (hsmall : p2 < 65536) :
    ptrToMem (insertMem ram a p2 e) a = { ptrToMem ram a with next := p2 } ∧
      ptrToMem (insertMem ram a p2 e) p2 = ⟨e, a, 0⟩ ∧
      forall q, q < a ∨ a + 5 <= q -> q < p2 ∨ p2 + 5 <= q -> insertMem ram a p2 e q = ram q := by
  have hstore := storeMem_outside ram p2 ⟨e, a, 0⟩
  have hset := setNext_outside (storeMem ram p2 ⟨e, a, 0⟩) a p2
  unfold insertMem
  refine ⟨?_, ?_, ?_⟩
  · rw [ptrToMem_setNext hsmall, hstore.ptrToMem (by lia)]
  · rw [hset.ptrToMem (by lia), ptrToMem_storeMem he (by simp only; lia)]
  · intro q hq hq2
    exact (hset q hq).trans (hstore q hq2)

/-- The part `mid` of the row becomes an area and a free area behind it. -/
theorem Laid.cut {lfree s1 s2 : Nat} {used : Bool} (h : Laid heap (xs ++ (mid ++ ys)))
    (hsum : s1 + s2 = areasSize mid) (h1 : 20 <= s1 ∧ s1 % 4 = 0) (h2 : 20 <= s2 ∧ s2 % 4 = 0)
    (hhead : ptrToMem ram (areasSize xs) =
      ⟨areasSize xs + s1, lastFrom 0 0 xs, usedByte used⟩)
    (hsecond : ptrToMem ram (areasSize xs + s1) =
      ⟨areasSize xs + areasSize mid, areasSize xs, 0⟩)
    (hsame : SameOutside (areasSize xs) (areasSize xs + areasSize mid) heap.ram ram)
    (hlfree : lfree = lowestFree 0 (xs ++ ([⟨s1, used⟩, ⟨s2, false⟩] ++ ys))) :
    Laid ⟨linkBack ram (areasSize xs + areasSize mid) (areasSize xs + s1), lfree⟩
      (xs ++ ([⟨s1, used⟩, ⟨s2, false⟩] ++ ys)) := by
  change Laid ⟨linkBack ram _
    (lastFrom (lastFrom 0 0 xs) (areasSize xs) [⟨s1, used⟩, ⟨s2, false⟩]), _⟩ _
  apply h.relink
  · rw [← hsum]
    rfl
  · exact goodSizes_cons.mpr ⟨h1, goodSizes_cons.mpr ⟨h2, goodSizes_nil⟩⟩
  · refine ⟨hhead, ?_, trivial⟩
    rw [hsecond, ← hsum, ← Nat.add_assoc]
    rfl
  · exact hsame
  · exact hlfree

/-- What an area of `n` bytes becomes when `size` bytes of data are taken from it. -/
def taken (n size : Nat) : List Area :=
  if size + 28 <= n then [⟨size + 8, true⟩, ⟨n - (size + 8), false⟩] else [⟨n, true⟩]

theorem takeBlock_laid (h : Laid heap (xs ++ ⟨n, false⟩ :: ys)) (hmin : 12 <= size)
    (halign : size % 4 = 0) (hfits : size + 8 <= n) :
    exists ram', takeBlock heap.ram (areasSize xs) size = .ok ram' ∧
      SameOutside (areasSize xs) (areasSize xs + n + 5) heap.ram ram' ∧
      forall lfree, lfree = lowestFree 0 (xs ++ (taken n size ++ ys)) ->
        Laid ⟨ram', lfree⟩ (xs ++ (taken n size ++ ys)) := by
  rcases h.next_le with ⟨hn, hend⟩
  simp only at hn hend
  have hnmod := (goodSizes_cons.mp (goodSizes_append.mp h.sizes).right).left.right
  have hdata := userDataSize_eq h.header (by simp only; lia) hend
  unfold takeBlock taken
  rw [hdata]
  unfold sizeofStructMem minSizeAligned
  rcases Nat.lt_or_ge n (size + 28) with hnear | hroom
  · rw [if_neg (by simp only; lia)]
    refine ⟨setUsed heap.ram (areasSize xs) 1, rfl, ?_, ?_⟩
    · exact (setUsed_outside heap.ram (areasSize xs) 1).mono (Nat.le_refl _) (by lia)
    · intro lfree hlfree
      rw [if_neg (by lia)] at hlfree ⊢
      exact h.markUsed true hlfree
  · have hp2 : (areasSize xs + 8 + size) % 65536 = areasSize xs + (size + 8) := by
      omega
    have hinside : areasSize xs + (size + 8) ≠ memSizeAligned := by
      unfold memSizeAligned
      lia
    rw [if_pos (by simp only; lia)]
    simp only [hp2, h.header, lwipAssert_ok (decide_eq_true hinside), except_ok_bind]
    rcases insertMem_facts heap.ram
      (show areasSize xs + 8 <= areasSize xs + (size + 8) by lia)
      (show areasSize xs + n < 65536 by lia) (by lia) with ⟨hhead, hsecond, hsame⟩
    have hmark := setUsed_outside
      (insertMem heap.ram (areasSize xs) (areasSize xs + (size + 8)) (areasSize xs + n))
      (areasSize xs) 1
    rw [← hmark.ptrToMem (Or.inr (show areasSize xs + 5 <= areasSize xs + (size + 8) by lia))]
      at hsecond
    have houtside : SameOutside (areasSize xs) (areasSize xs + n) heap.ram
        (setUsed (insertMem heap.ram (areasSize xs) (areasSize xs + (size + 8))
          (areasSize xs + n)) (areasSize xs) 1) := by
      intro q hq
      rw [hmark q (by lia), hsame q (by lia) (by lia)]
    rw [hsecond]
    refine ⟨_, rfl, ?_, ?_⟩
    · exact (houtside.mono (Nat.le_refl _) (by lia)).trans
        ((linkBack_outside _ _ _).mono (by lia) (Nat.le_refl _))
    · intro lfree hlfree
      rw [if_pos hroom] at hlfree ⊢
      have hrow : Laid heap (xs ++ ([⟨n, false⟩] ++ ys)) := h
      apply hrow.cut
      · simp only [areasSize]
        lia
      · lia
      · lia
      · rw [ptrToMem_setUsed, hhead, h.header]
        rfl
      · exact hsecond
      · exact houtside
      · exact hlfree

theorem Laid.lfree_free (h : Laid heap xs) :
    heap.lfree = memSizeAligned ∨ (ptrToMem heap.ram heap.lfree).used = 0 := by
  rcases lowestFree_split 0 xs with ⟨left, right, hxs, hlow, _, hright⟩
  rw [Nat.zero_add] at hlow
  rw [h.lfree, hlow]
  rcases hright with hnil | ⟨size, tail, hcons⟩
  · apply Or.inl
    have hsize := h.size
    rw [hxs, hnil, List.append_nil] at hsize
    exact hsize
  · apply Or.inr
    rw [hxs, hcons] at h
    rw [h.header]
    rfl

/-- `lfree` is the lowest free area again when the area at `ptr` was taken. -/
theorem adjustLfree_laid {ram' : Nat -> UInt8} {zs : List Area}
    (h : Laid heap (xs ++ ⟨n, false⟩ :: ys))
    (hlaid : forall lfree, lfree = lowestFree 0 (xs ++ zs) -> Laid ⟨ram', lfree⟩ (xs ++ zs)) :
    exists heap', adjustLfree { heap with ram := ram' } (areasSize xs) = .ok heap' ∧
      heap'.ram = ram' ∧ Laid heap' (xs ++ zs) := by
  have hnew := hlaid _ rfl
  rcases h.next_le with ⟨hn, hend⟩
  have hsizes := goodSizes_append.mp hnew.sizes
  unfold adjustLfree
  rcases lowestFree_append_cases 0 hsizes.left.pos with hall | ⟨p, hp, hall⟩
  · have hlfree : heap.lfree = areasSize xs := by
      rw [h.lfree, hall, Nat.zero_add]
      rfl
    have hlinked := (linked_append.mp hnew.linked).right
    have hsize := hnew.size
    rw [Nat.zero_add] at hlinked
    rw [areasSize_append] at hsize
    have hlength := hsizes.right.length_le
    have hcur : nextFree ram' memSizeAligned heap.lfree = lowestFree 0 (xs ++ zs) := by
      rw [hlfree, hall, Nat.zero_add]
      exact nextFree_eq hlinked hsizes.right hsize (by unfold memSizeAligned; lia)
    rw [if_pos hlfree.symm]
    simp only [hcur]
    rw [lwipAssert_ok (decide_eq_true hnew.lfree_free)]
    exact ⟨_, rfl, rfl, hlaid _ rfl⟩
  · rw [if_neg (by rw [h.lfree, hall]; lia)]
    exact ⟨_, rfl, rfl, hlaid _ (by rw [h.lfree, hall, hall])⟩

theorem requestSize_facts (sizeIn : UInt16) :
    12 <= requestSize sizeIn ∧ requestSize sizeIn % 4 = 0 := by
  unfold requestSize lwipMemAlignSize memAlignment minSizeAligned
  omega

/-- The areas that `mem_malloc` serves a request from; the header takes eight bytes. -/
def mallocFit (sizeIn : UInt16) (xs : List Area) : Option Nat :=
  if sizeIn = 0 ∨ RequestTooLarge sizeIn then none
  else firstFit (requestSize sizeIn + 8) 0 xs

/-- The scan from `lfree` finds what a scan of the whole heap would find. -/
theorem scanFree_lfree (h : Laid heap xs) :
    scanFree heap.ram size memSizeAligned heap.lfree = firstFit (size + 8) 0 xs := by
  rcases lowestFree_split 0 xs with ⟨left, right, hxs, hlow, hused, _⟩
  have hlength := h.sizes.length_le
  have hsize := h.size
  have hsizes := h.sizes
  have hlinked := h.linked
  rw [hxs] at hlength hsizes hlinked
  rw [hxs, areasSize_append] at hsize
  rw [areasSize_append, List.length_append] at hlength
  have hright := (linked_append.mp hlinked).right
  rw [h.lfree, hlow, scanFree_eq hright (goodSizes_append.mp hsizes).right (by lia)
    (by unfold memSizeAligned; lia), hxs, firstFit_append_used hused]

theorem memMalloc_none (h : Laid heap xs) {sizeIn : UInt16} (hnone : mallocFit sizeIn xs = none) :
    memMalloc heap sizeIn = .ok (heap, none) := by
  unfold mallocFit at hnone
  unfold memMalloc
  split at hnone
  next hrefused =>
    rcases hrefused with hzero | hlarge
    · rw [if_pos hzero]
    · rw [if_pos hlarge, ite_self]
  next hserved =>
    rw [if_neg (fun hc => hserved (Or.inl hc)), if_neg (fun hc => hserved (Or.inr hc)),
      scanFree_lfree h, hnone]

/-- A request is served from the first area that fits, and no data in use change. -/
theorem memMalloc_some {zs : List Area} (h : Represents heap zs) {sizeIn : UInt16} {a : Nat}
    (hsome : mallocFit sizeIn zs = some a) :
    exists heap' xs n ys, zs = xs ++ ⟨n, false⟩ :: ys ∧ a = areasSize xs ∧
      requestSize sizeIn + 8 <= n ∧ sizeIn.toNat <= requestSize sizeIn ∧
      memMalloc heap sizeIn = .ok (heap', some (a + 8)) ∧
      Represents heap' (xs ++ (taken n (requestSize sizeIn) ++ ys)) ∧
      KeepsData (usedFrom 0 zs) heap.ram heap'.ram := by
  unfold mallocFit at hsome
  split at hsome
  · cases hsome
  next hserved =>
    rcases requestSize_facts sizeIn with ⟨hmin, hmod⟩
    have hlarge : ¬ RequestTooLarge sizeIn := fun hc => hserved (Or.inr hc)
    rcases firstFit_eq_some hsome with ⟨xs, n, ys, hzs, ha, hfits, _⟩
    rw [Nat.zero_add] at ha
    have hrow : Represents heap (xs ++ ⟨n, false⟩ :: ys) := hzs ▸ h
    rcases takeBlock_laid hrow.toLaid hmin hmod hfits with ⟨ram', htake, hsame, hlaid⟩
    rcases adjustLfree_laid hrow.toLaid hlaid with ⟨heap', hadjust, hram, hnew⟩
    have hhigh := hrow.toLaid.next_le.right
    have hinside :
        areasSize xs + sizeofStructMem + requestSize sizeIn <= memSizeAligned := by
      unfold sizeofStructMem memSizeAligned
      simp only at hhigh
      lia
    have hmemAlign : areasSize xs % memAlignment = 0 :=
      (goodSizes_append.mp hrow.sizes).left.areasSize_mod
    have hdataAlign : (areasSize xs + sizeofStructMem) % memAlignment = 0 := by
      unfold sizeofStructMem memAlignment at *
      lia
    refine ⟨heap', xs, n, ys, hzs, ha, hfits, ?_, ?_, ⟨hnew, ?_⟩, ?_⟩
    · exact Nat.le_of_not_lt (fun hc => hlarge (Or.inr hc))
    · unfold memMalloc
      rw [if_neg (fun hc => hserved (Or.inl hc)), if_neg hlarge, scanFree_lfree h.toLaid, hsome]
      simp only
      rw [ha, htake]
      simp only [except_ok_bind, hadjust]
      rw [lwipAssert_ok (decide_eq_true hinside), lwipAssert_ok (decide_eq_true hdataAlign),
        lwipAssert_ok (decide_eq_true hmemAlign)]
      rfl
    · have hfree := noFreePair_free.mp hrow.noFreePair
      unfold taken
      split
      · exact noFreePair_used.mpr ⟨hfree.left, noFreePair_free_cons.mpr hfree.right.right⟩
      · exact noFreePair_used.mpr ⟨hfree.left, hfree.right.right.right⟩
    · rw [hzs, usedFrom_append, usedFrom_cons_free, Nat.zero_add, hram]
      exact (hsame.mono (Nat.le_refl _) (by lia)).keepsData

end Malloc

/-!
# Trimming
-/

section Trim

variable {heap : MemHeap} {xs ys rest : List Area} {n newsize lfree : Nat}

/-- The end of an area in use, and the free area behind it if there is one, become free. -/
theorem Laid.shrink (h : Laid heap (xs ++ ((⟨n, true⟩ :: rest) ++ ys))) (hmin : 12 <= newsize)
    (hmod : newsize % 4 = 0) (hroom : newsize + 28 <= areasSize (⟨n, true⟩ :: rest))
    (hlfree : lfree = lowestFree 0 (xs ++ ([⟨newsize + 8, true⟩,
      ⟨areasSize (⟨n, true⟩ :: rest) - (newsize + 8), false⟩] ++ ys))) {ram' : Nat -> UInt8}
    (hram : ram' = linkBack (insertMem heap.ram (areasSize xs) (areasSize xs + (newsize + 8))
        (areasSize xs + areasSize (⟨n, true⟩ :: rest)))
      (areasSize xs + areasSize (⟨n, true⟩ :: rest)) (areasSize xs + (newsize + 8))) :
    Laid ⟨ram', lfree⟩ (xs ++ ([⟨newsize + 8, true⟩,
      ⟨areasSize (⟨n, true⟩ :: rest) - (newsize + 8), false⟩] ++ ys)) ∧
      SameOutside (areasSize xs) (areasSize xs + areasSize (⟨n, true⟩ :: rest) + 8) heap.ram ram' ∧
      forall q, areasSize xs + 8 <= q -> q < areasSize xs + 8 + newsize ->
        ram' q = heap.ram q := by
  rcases h.parts with ⟨htotal, _, hmid, _, _, _, _⟩
  have hmidMod := hmid.areasSize_mod
  have hback := linkBack_outside
    (insertMem heap.ram (areasSize xs) (areasSize xs + (newsize + 8))
      (areasSize xs + areasSize (⟨n, true⟩ :: rest)))
    (areasSize xs + areasSize (⟨n, true⟩ :: rest)) (areasSize xs + (newsize + 8))
  rcases insertMem_facts heap.ram
    (show areasSize xs + 8 <= areasSize xs + (newsize + 8) by lia)
    (show areasSize xs + areasSize (⟨n, true⟩ :: rest) < 65536 by lia) (by lia)
    with ⟨hhead, hsecond, hsame⟩
  have hinside : SameOutside (areasSize xs) (areasSize xs + areasSize (⟨n, true⟩ :: rest)) heap.ram
      (insertMem heap.ram (areasSize xs) (areasSize xs + (newsize + 8))
        (areasSize xs + areasSize (⟨n, true⟩ :: rest))) := by
    intro q hq
    exact hsame q (by lia) (by lia)
  rw [hram]
  refine ⟨?_, ?_, ?_⟩
  · apply h.cut
    · lia
    · lia
    · lia
    · rw [hhead, h.header]
    · exact hsecond
    · exact hinside
    · exact hlfree
  · exact (hinside.mono (Nat.le_refl _) (by lia)).trans (hback.mono (by lia) (by lia))
  · intro q hlow hhigh
    rw [hback q (by lia), hsame q (by lia) (by lia)]

/-- A heap after a trim: the area at the cut is smaller, everything else is as before. -/
structure Trimmed (heap : MemHeap) (xs : List Area) (n : Nat) (ys : List Area) (newsize : Nat)
    (heap' : MemHeap) (n' : Nat) (ys' : List Area) : Prop where
  represents : Represents heap' (xs ++ ⟨n', true⟩ :: ys')
  fits : newsize + 8 <= n'
  used : usedFrom (areasSize xs + n') ys' = usedFrom (areasSize xs + n) ys
  others : KeepsData (usedFrom 0 xs ++ usedFrom (areasSize xs + n) ys) heap.ram heap'.ram
  own : forall q, areasSize xs + 8 <= q -> q < areasSize xs + 8 + newsize ->
    heap'.ram q = heap.ram q

theorem shrinkBlock_offset (h : Represents heap (xs ++ ⟨n, true⟩ :: ys))
    (hless : newsize + 8 < n) :
    (areasSize xs + sizeofStructMem + newsize) % 65536 = areasSize xs + (newsize + 8) ∧
      trimmedSize heap.ram (areasSize xs) = n - 8 := by
  rcases h.toLaid.next_le with ⟨hn, hend⟩
  simp only at hn hend
  unfold trimmedSize sizeofStructMem
  rw [h.toLaid.header]
  simp only
  omega

theorem shrinkBlock_next_free {m : Nat}
    (h : Represents heap (xs ++ ⟨n, true⟩ :: ⟨m, false⟩ :: ys)) (hmin : 12 <= newsize)
    (hmod : newsize % 4 = 0) (hless : newsize + 8 < n) :
    exists heap' n' ys', shrinkBlock heap (areasSize xs) newsize = .ok heap' ∧
      Trimmed heap xs n (⟨m, false⟩ :: ys) newsize heap' n' ys' := by
  rcases shrinkBlock_offset h hless with ⟨hoffset, _⟩
  rcases h.toLaid.lt_end with ⟨hn, hm, hend⟩
  simp only at hn hm hend
  have hrow : Laid heap (xs ++ ((⟨n, true⟩ :: [⟨m, false⟩]) ++ ys)) := h.toLaid
  have hxs := (goodSizes_append.mp h.sizes).left
  have hmidSize : areasSize (⟨n, true⟩ :: [⟨m, false⟩]) = n + m := rfl
  have hlfree : (if heap.lfree = areasSize xs + n then areasSize xs + (newsize + 8)
      else heap.lfree) = lowestFree 0 (xs ++ ([⟨newsize + 8, true⟩,
        ⟨areasSize (⟨n, true⟩ :: [⟨m, false⟩]) - (newsize + 8), false⟩] ++ ys)) := by
    rw [h.lfree]
    rcases lowestFree_append_cases 0 hxs.pos with hall | ⟨p, hp, hall⟩
    · rw [hall, hall, Nat.zero_add]
      exact if_pos rfl
    · rw [hall, hall]
      exact if_neg (by lia)
  have hpair := (noFreePair_used.mp h.noFreePair)
  rcases hrow.shrink hmin hmod (by lia) hlfree rfl with ⟨hlaid, hsame, hown⟩
  rw [hmidSize] at hlaid hsame hown
  refine ⟨_, newsize + 8, ⟨n + m - (newsize + 8), false⟩ :: ys, ?_, ⟨⟨hlaid, ?_⟩, ?_, ?_, ?_, hown⟩⟩
  · have hfree : (ptrToMem heap.ram (areasSize xs + n)).used = 0 := by
      rw [h.toLaid.nextHeader]
      rfl
    have hinside : areasSize xs + n ≠ memSizeAligned := by
      unfold memSizeAligned
      lia
    unfold shrinkBlock
    simp only [h.toLaid.header, hoffset]
    rw [if_pos hfree, lwipAssert_ok (decide_eq_true hinside), h.toLaid.nextHeader]
    simp only [except_ok_bind, Nat.add_assoc (areasSize xs) n m]
    rw [(insertMem_facts heap.ram (Nat.add_le_add_left (Nat.le_add_left 8 newsize) _)
      (show areasSize xs + (n + m) < 65536 by lia) (by lia)).right.left]
    rfl
  · exact noFreePair_used.mpr
      ⟨hpair.left, noFreePair_free_cons.mpr (noFreePair_free_cons.mp hpair.right)⟩
  · exact Nat.le_refl _
  · have hcut : areasSize xs + (newsize + 8) + (n + m - (newsize + 8)) =
        areasSize xs + n + m := by lia
    rw [usedFrom_cons_free, usedFrom_cons_free, hcut]
  · rw [usedFrom_cons_free, Nat.add_assoc]
    exact hsame.keepsData

/-- With an area in use behind it, an area gives away its end when another one fits there. -/
theorem shrinkBlock_next_used {m : Nat}
    (h : Represents heap (xs ++ ⟨n, true⟩ :: ⟨m, true⟩ :: ys)) (hmin : 12 <= newsize)
    (hmod : newsize % 4 = 0) (hless : newsize + 8 < n) :
    exists heap' n' ys', shrinkBlock heap (areasSize xs) newsize = .ok heap' ∧
      Trimmed heap xs n (⟨m, true⟩ :: ys) newsize heap' n' ys' := by
  rcases shrinkBlock_offset h hless with ⟨hoffset, hsize⟩
  rcases h.toLaid.lt_end with ⟨hn, hm, hend⟩
  simp only at hn hm hend
  have hinUse : (ptrToMem heap.ram (areasSize xs + n)).used ≠ 0 := by
    rw [h.toLaid.nextHeader]
    exact usedByte_true_ne
  unfold shrinkBlock
  simp only [h.toLaid.header, hoffset, hsize]
  rw [if_neg hinUse]
  unfold sizeofStructMem minSizeAligned
  rcases Nat.lt_or_ge n (newsize + 28) with hnear | hroom
  · rw [if_neg (by lia)]
    exact ⟨heap, n, ⟨m, true⟩ :: ys, rfl, h, Nat.le_of_lt hless, rfl, KeepsData.refl _ _,
      fun _ _ _ => rfl⟩
  · have hrow : Laid heap (xs ++ ((⟨n, true⟩ :: []) ++ (⟨m, true⟩ :: ys))) := h.toLaid
    have hxs := (goodSizes_append.mp h.sizes).left
    have hmidSize : areasSize (⟨n, true⟩ :: []) = n := rfl
    have hinside : areasSize xs + n ≠ memSizeAligned := by
      unfold memSizeAligned
      lia
    have hlfree : (if areasSize xs + (newsize + 8) < heap.lfree
        then areasSize xs + (newsize + 8) else heap.lfree) =
        lowestFree 0 (xs ++ ([⟨newsize + 8, true⟩,
          ⟨areasSize (⟨n, true⟩ :: []) - (newsize + 8), false⟩] ++ (⟨m, true⟩ :: ys))) := by
      rw [h.lfree]
      rcases lowestFree_append_cases 0 hxs.pos with hall | ⟨p, hp, hall⟩
      · have hlow := (lowestFree_bounds (areasSize xs + n) (⟨m, true⟩ :: ys)).left
        rw [hall, hall, Nat.zero_add]
        change (if _ < lowestFree (areasSize xs + n) _ then _ else _) = _
        exact if_pos (by lia)
      · rw [hall, hall]
        exact if_neg (by lia)
    have hpair := noFreePair_used.mp h.noFreePair
    rcases hrow.shrink hmin hmod (by lia) hlfree rfl with ⟨hlaid, hsame, hown⟩
    rw [hmidSize] at hlaid hsame hown
    rw [if_pos (by lia), lwipAssert_ok (decide_eq_true hinside)]
    simp only [except_ok_bind]
    rw [(insertMem_facts heap.ram (Nat.add_le_add_left (Nat.le_add_left 8 newsize) _)
      (show areasSize xs + n < 65536 by lia) (by lia)).right.left]
    refine ⟨_, newsize + 8, ⟨n - (newsize + 8), false⟩ :: ⟨m, true⟩ :: ys, rfl,
      ⟨⟨hlaid, ?_⟩, Nat.le_refl _, ?_, hsame.keepsData, hown⟩⟩
    · exact noFreePair_used.mpr ⟨hpair.left,
        noFreePair_free_cons.mpr ⟨by simp [StartsUsed], hpair.right⟩⟩
    · have hcut : areasSize xs + (newsize + 8) + (n - (newsize + 8)) = areasSize xs + n := by
        lia
      rw [usedFrom_cons_free, hcut]

/-- The last area of the heap cannot be trimmed so far that another one fits behind it. -/
theorem shrinkBlock_last (h : Represents heap (xs ++ [⟨n, true⟩])) (hless : newsize + 8 < n) :
    shrinkBlock heap (areasSize xs) newsize =
      if newsize + 28 <= n then .error "invalid next ptr" else .ok heap := by
  rcases shrinkBlock_offset h hless with ⟨hoffset, hsize⟩
  have hend := h.toLaid.end_of_last
  simp only at hend
  have hinUse : (ptrToMem heap.ram 4096).used ≠ 0 := by
    rw [h.ramEnd]
    decide
  unfold shrinkBlock
  simp only [h.toLaid.header, hoffset, hsize, hend]
  rw [if_neg hinUse]
  unfold sizeofStructMem minSizeAligned
  rcases Nat.lt_or_ge n (newsize + 28) with hnear | hroom
  · rw [if_neg (by lia), if_neg (by lia)]
    rfl
  · rw [if_pos (by lia), if_pos hroom, lwipAssert_error (by simp [memSizeAligned])]
    rfl

theorem requestSize_le {newSize : UInt16} (hn : 20 <= n ∧ n % 4 = 0) (hle : n <= 4096)
    (hold : newSize.toNat + 8 <= n) :
    requestSize newSize + 8 <= n ∧ ¬ RequestTooLarge newSize := by
  unfold RequestTooLarge requestSize lwipMemAlignSize memAlignment minSizeAligned memSizeAligned
  omega

/-- What `mem_trim` does with an area in use and a size that is not above the old one. -/
theorem memTrim_eq {newSize : UInt16} (h : Represents heap (xs ++ ⟨n, true⟩ :: ys))
    (hold : newSize.toNat + 8 <= n) :
    memTrim heap (areasSize xs + 8 : Nat) newSize =
      if requestSize newSize + 8 = n then .ok (heap, some ((areasSize xs + 8 : Nat) : Int))
      else (shrinkBlock heap (areasSize xs) (requestSize newSize)).map
        (fun heap' => (heap', some ((areasSize xs + 8 : Nat) : Int))) := by
  rcases h.toLaid.next_le with ⟨hn, hend⟩
  have hgood := (goodSizes_cons.mp (goodSizes_append.mp h.sizes).right).left
  simp only at hn hend hgood
  rcases requestSize_le hgood (by lia) hold with ⟨hfits, hlarge⟩
  have hptr : (((areasSize xs + 8 : Nat) - (sizeofStructMem : Int)) % 65536).toNat =
      areasSize xs := by
    unfold sizeofStructMem
    omega
  have hsize : trimmedSize heap.ram (areasSize xs) = n - 8 := by
    unfold trimmedSize sizeofStructMem
    rw [h.toLaid.header]
    simp only
    omega
  have hlegal : 0 <= ((areasSize xs + 8 : Nat) : Int) ∧
      ((areasSize xs + 8 : Nat) : Int) < memSizeAligned := by
    unfold memSizeAligned
    lia
  have hshrinks : requestSize newSize <= n - 8 := by lia
  unfold memTrim
  rw [if_neg hlarge, lwipAssert_ok (decide_eq_true hlegal)]
  simp only [except_ok_bind, hptr, hsize, lwipAssert_ok (decide_eq_true hshrinks)]
  rcases Decidable.em (requestSize newSize + 8 = n) with heq | hne
  · rw [if_pos heq, if_pos (by lia)]
    rfl
  · rw [if_neg hne, if_neg (by lia)]
    cases shrinkBlock heap (areasSize xs) (requestSize newSize) with
    | ok heap' => rfl
    | error message => rfl

theorem memTrim_ok {newSize : UInt16} (h : Represents heap (xs ++ ⟨n, true⟩ :: ys))
    (hold : newSize.toNat + 8 <= n) (hlast : ¬ (ys = [] ∧ requestSize newSize + 28 <= n)) :
    exists heap' n' ys',
      memTrim heap (areasSize xs + 8 : Nat) newSize =
        .ok (heap', some ((areasSize xs + 8 : Nat) : Int)) ∧
      Trimmed heap xs n ys (requestSize newSize) heap' n' ys' := by
  have hgood := (goodSizes_cons.mp (goodSizes_append.mp h.sizes).right).left
  rcases requestSize_facts newSize with ⟨hmin, hmod⟩
  have hfits := (requestSize_le hgood (by have := h.toLaid.next_le; lia) hold).left
  simp only at hfits
  have hself : Trimmed heap xs n ys (requestSize newSize) heap n ys :=
    ⟨h, hfits, rfl, KeepsData.refl _ _, fun _ _ _ => rfl⟩
  rw [memTrim_eq h hold]
  rcases Decidable.em (requestSize newSize + 8 = n) with heq | hne
  · rw [if_pos heq]
    exact ⟨heap, n, ys, rfl, hself⟩
  · rw [if_neg hne]
    have hless : requestSize newSize + 8 < n := by lia
    rcases ys with _ | ⟨⟨m, _ | _⟩, ys⟩
    · rw [shrinkBlock_last h hless, if_neg (fun hc => hlast ⟨rfl, hc⟩)]
      exact ⟨heap, n, [], rfl, hself⟩
    · rcases shrinkBlock_next_free h hmin hmod hless with ⟨heap', n', ys', hok, htrimmed⟩
      rw [hok]
      exact ⟨heap', n', ys', rfl, htrimmed⟩
    · rcases shrinkBlock_next_used h hmin hmod hless with ⟨heap', n', ys', hok, htrimmed⟩
      rw [hok]
      exact ⟨heap', n', ys', rfl, htrimmed⟩

theorem memTrim_last {newSize : UInt16} (h : Represents heap (xs ++ [⟨n, true⟩]))
    (hroom : requestSize newSize + 28 <= n) (hold : newSize.toNat + 8 <= n) :
    memTrim heap (areasSize xs + 8 : Nat) newSize = .error "invalid next ptr" := by
  rw [memTrim_eq h hold, if_neg (by lia), shrinkBlock_last h (by lia), if_pos hroom]
  rfl

end Trim

/-!
# The checker passes
-/

section Sanity

variable {heap : MemHeap} {xs ys : List Area} {x : Area}

theorem truth_aligned (n : Nat) : lwipMemAlign (n == n).toNat ≠ 0 := by
  rw [beq_self_eq_true]
  decide

theorem memSanityLoop_ok {fuel : Nat} (h : Laid heap (xs ++ x :: ys))
    (hpair : NoFreePair (x :: ys)) (hfuel : ys.length < fuel) :
    memSanityLoop heap.ram fuel (areasSize xs + x.size) (usedByte x.used) = .ok 4096 := by
  induction ys generalizing xs x fuel with
  | nil =>
      rcases fuel with _ | fuel
      · exact absurd hfuel (Nat.not_lt_zero _)
      · rw [h.end_of_last]
        rfl
  | cons y ys ih =>
      rcases fuel with _ | fuel
      · exact absurd hfuel (Nat.not_lt_zero _)
      · rcases h.lt_end with ⟨hx, hy, hend⟩
        have hsizes := h.sizes
        have hrow : Laid heap ((xs ++ [x]) ++ y :: ys) := by
          rw [List.append_assoc]
          exact h
        have hcut : areasSize (xs ++ [x]) = areasSize xs + x.size := areasSize_append _ _
        have halign := (goodSizes_append.mp hrow.sizes).left.areasSize_mod
        have hvalid := hrow.linkValid
        have hnext := ih hrow (List.isChain_cons.mp hpair).right (Nat.lt_of_succ_lt_succ hfuel)
        rw [hcut] at halign hvalid hnext
        have haligned : lwipMemAlign (areasSize xs + x.size) = areasSize xs + x.size := by
          unfold lwipMemAlign lwipMemAlignSize memAlignment
          omega
        have hbelow : 0 < areasSize xs + x.size ∧ areasSize xs + x.size < memSizeAligned := by
          unfold memSizeAligned
          lia
        have hprev : areasSize xs <= memSizeAligned := by
          unfold memSizeAligned
          lia
        have hnextIn : areasSize xs + x.size + y.size <= memSizeAligned := by
          unfold memSizeAligned
          lia
        have halternates : x.used = true ∨ y.used = true :=
          (List.isChain_cons.mp hpair).left y rfl
        rw [memSanityLoop, if_pos hbelow]
        simp only [h.nextHeader, lwipAssert_ok (decide_eq_true haligned),
          lwipAssert_ok (decide_eq_true hprev), lwipAssert_ok (decide_eq_true hnextIn),
          lwipAssert_ok (decide_eq_true (truth_aligned _)), lwipAssert_ok hvalid, except_ok_bind]
        rw [hnext]
        split
        next hfree =>
          have hused : y.used = true := by
            apply halternates.resolve_left
            intro hc
            rw [hc] at hfree
            exact usedByte_true_ne hfree
          rw [lwipAssert_ok (decide_eq_true (by rw [hused]; rfl))]
          rfl
        next =>
          rw [lwipAssert_ok (decide_eq_true (usedByte_cases y.used))]
          rfl

theorem memSanity_ok (h : Represents heap xs) : memSanity heap = .ok () := by
  rcases xs with _ | ⟨x, xs⟩
  · exact absurd h.size (by decide)
  · have hrow : Laid heap ([] ++ x :: xs) := h.toLaid
    have hheader : ptrToMem heap.ram 0 = ⟨0 + x.size, 0, usedByte x.used⟩ := hrow.header
    have hnextIn : 0 + x.size <= memSizeAligned := hrow.next_le.right
    have hlength := h.sizes.length_le
    rw [h.size, List.length_cons] at hlength
    have hloop : memSanityLoop heap.ram memSizeAligned (0 + x.size) (usedByte x.used) =
        .ok 4096 :=
      memSanityLoop_ok hrow h.noFreePair (by unfold memSizeAligned; lia)
    unfold memSanity
    simp only [hheader, lwipAssert_ok (decide_eq_true (usedByte_cases x.used)),
      lwipAssert_ok (decide_eq_true hnextIn), lwipAssert_ok (decide_eq_true (truth_aligned _)),
      except_ok_bind]
    rw [hloop]
    simp only [except_ok_bind, h.ramEnd]
    rfl

end Sanity

end Net
end Ch579HttpLed
