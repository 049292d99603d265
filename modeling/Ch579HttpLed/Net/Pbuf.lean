import Mathlib.Algebra.BigOperators.Group.List.Basic
import Mathlib.Algebra.GroupWithZero.Nat

/-!
# Packet buffer chains

The parts of lwIP's `core/pbuf.c` that the firmware relies on: a chain of
payloads, the copy out of a chain and the layout of a chain taken from the
pool.  A chain carries its own well-formedness, so the total length stored in
its head is the sum of the payload lengths by construction.
-/

namespace Ch579HttpLed
namespace Net

structure PbufChain where
  payloads : List (List UInt8)
  nonempty : payloads ≠ []
  length_lt : payloads.flatten.length < 65536

namespace PbufChain

/-- Concatenated payloads of a chain. -/
def bytes (p : PbufChain) : List UInt8 :=
  p.payloads.flatten

/-- The field `tot_len` of the head of the chain. -/
def totLen (p : PbufChain) : UInt16 :=
  UInt16.ofNat p.bytes.length

/-- The fields `len` along the chain. -/
def lens (p : PbufChain) : List Nat :=
  p.payloads.map List.length

/-- A chain with one pbuf. -/
def single (payload : List UInt8) (h : payload.length < 65536) : PbufChain where
  payloads := [payload]
  nonempty := by simp
  length_lt := by simpa using h

theorem totLen_toNat (p : PbufChain) : p.totLen.toNat = p.bytes.length := by
  have h : p.bytes.length < 65536 := p.length_lt
  unfold totLen
  rw [UInt16.toNat_ofNat']
  lia

theorem payload_length_lt (p : PbufChain) {q : List UInt8} (h : q ∈ p.payloads) :
    q.length < 65536 := by
  have hle : q.length <= p.payloads.flatten.length :=
    (List.sublist_flatten_of_mem h).length_le
  exact Nat.lt_of_le_of_lt hle p.length_lt

/-- The same chain after its payloads were overwritten in place. -/
def refill (p : PbufChain) (payloads : List (List UInt8))
    (h : payloads.map List.length = p.lens) : PbufChain where
  payloads := payloads
  nonempty := by
    intro hnil
    subst hnil
    exact p.nonempty (List.map_eq_nil_iff.mp h.symm)
  length_lt := by
    have hlen : payloads.flatten.length = p.payloads.flatten.length := by
      rw [List.length_flatten, List.length_flatten, h]
      rfl
    rw [hlen]
    exact p.length_lt

end PbufChain

/-!
# Copying out of a chain

`pbuf_copy_partial` walks the chain, skipping `offset` bytes first.  The
sixteen-bit lengths of the source never wrap inside one chain.
-/

def pbufCopyPartial : List (List UInt8) -> Nat -> Nat -> List UInt8
  | [], _, _ => []
  | p :: next, len, offset =>
      if len = 0 then []
      else if offset ≠ 0 ∧ p.length <= offset then
        pbufCopyPartial next len (offset - p.length)
      else
        let bufCopyLen := min (p.length - offset) len
        (p.drop offset).take bufCopyLen ++
          pbufCopyPartial next (len - bufCopyLen) 0

theorem pbufCopyPartial_eq (ps : List (List UInt8)) (len offset : Nat) :
    pbufCopyPartial ps len offset = (ps.flatten.drop offset).take len := by
  induction ps generalizing len offset with
  | nil =>
      simp [pbufCopyPartial]
  | cons p next ih =>
      rw [pbufCopyPartial, List.flatten_cons]
      by_cases hlen : len = 0
      · simp [hlen]
      · rw [if_neg hlen]
        by_cases hskip : offset ≠ 0 ∧ p.length <= offset
        · rw [if_pos hskip, ih, List.drop_append,
            List.drop_eq_nil_of_le hskip.right, List.nil_append]
        · rw [if_neg hskip]
          show (p.drop offset).take (min (p.length - offset) len) ++
            pbufCopyPartial next (len - min (p.length - offset) len) 0 = _
          rw [ih, List.drop_append, List.take_append, List.length_drop,
            List.drop_zero]
          have htail : next.flatten.drop (offset - p.length) = next.flatten := by
            have hzero : offset - p.length = 0 := by
              lia
            rw [hzero, List.drop_zero]
          have hcount : len - min (p.length - offset) len =
              len - (p.length - offset) := by
            lia
          have hhead : (p.drop offset).take (min (p.length - offset) len) =
              (p.drop offset).take len := by
            rw [List.take_eq_take_iff, List.length_drop]
            lia
          rw [htail, hcount, hhead]

/-- Copying a whole chain gives its concatenated payloads. -/
theorem pbufCopyPartial_totLen (p : PbufChain) :
    pbufCopyPartial p.payloads p.totLen.toNat 0 = p.bytes := by
  rw [pbufCopyPartial_eq, p.totLen_toNat, List.drop_zero]
  exact List.take_length

/-!
# Chains from the pool

`pbuf_alloc` with `PBUF_POOL` takes buffers until the wanted length is
reached.  A buffer holds `PBUF_POOL_BUFSIZE` bytes rounded up to the alignment
of four and cut to sixteen bits.  The loop of the source ends because every
pass takes at least one byte; `pbufPoolLensLoop` counts passes instead.
-/

/-- `PBUF_POOL_BUFSIZE` as `lwipopts.h` sets it. -/
def pbufPoolBufsize : Nat := 1088

def poolCapacity (pbufPoolBufsize : Nat) : Nat :=
  (pbufPoolBufsize + 3) / 4 * 4 % 65536

def pbufPoolLensLoop (capacity : Nat) : Nat -> Nat -> List Nat
  | 0, _ => []
  | passes + 1, remLen =>
      let qlen := min remLen capacity
      if remLen - qlen = 0 then [qlen]
      else qlen :: pbufPoolLensLoop capacity passes (remLen - qlen)

/-- Lengths of the pbufs that `pbuf_alloc(PBUF_RAW, length, PBUF_POOL)` chains. -/
def pbufPoolLens (capacity length : Nat) : List Nat :=
  pbufPoolLensLoop capacity (length + 1) length

section PoolLens

variable {capacity : Nat}

theorem pbufPoolLensLoop_spec (hcap : 0 < capacity) {passes remLen : Nat}
    (hpos : 0 < remLen) (hpasses : remLen < passes) :
    (pbufPoolLensLoop capacity passes remLen).sum = remLen ∧
      forall n, n ∈ pbufPoolLensLoop capacity passes remLen -> 1 <= n ∧ n <= capacity := by
  induction passes generalizing remLen with
  | zero =>
      lia
  | succ passes ih =>
      rw [pbufPoolLensLoop]
      by_cases hlast : remLen - min remLen capacity = 0
      · simp only [if_pos hlast]
        simp
        lia
      · simp only [if_neg hlast]
        have hrest := @ih (remLen - min remLen capacity) (by lia) (by lia)
        constructor
        · rw [List.sum_cons, hrest.left]
          lia
        · intro n hn
          rcases List.mem_cons.mp hn with hhead | htail
          · lia
          · exact hrest.right n htail

theorem pbufPoolLens_sum (hcap : 0 < capacity) {length : Nat} (hpos : 0 < length) :
    (pbufPoolLens capacity length).sum = length :=
  (pbufPoolLensLoop_spec hcap hpos (Nat.lt_succ_self _)).left

theorem pbufPoolLens_bounds (hcap : 0 < capacity) {length : Nat}
    (hpos : 0 < length) {n : Nat} (hn : n ∈ pbufPoolLens capacity length) :
    1 <= n ∧ n <= capacity :=
  (pbufPoolLensLoop_spec hcap hpos (Nat.lt_succ_self _)).right n hn

/-- The pool answers with a single pbuf exactly if one buffer holds the length. -/
theorem pbufPoolLens_length_eq_one_iff (hcap : 0 < capacity) (length : Nat) :
    (pbufPoolLens capacity length).length = 1 <-> length <= capacity := by
  unfold pbufPoolLens
  rw [pbufPoolLensLoop]
  by_cases hfits : length <= capacity
  · simp [hfits]
  · have hmore : length - min length capacity ≠ 0 := by
      lia
    have hne : pbufPoolLensLoop capacity length (length - min length capacity) ≠ [] := by
      intro hnil
      have hsum : (pbufPoolLensLoop capacity length
          (length - min length capacity)).sum = length - min length capacity :=
        (pbufPoolLensLoop_spec hcap (by lia) (by lia)).left
      rw [hnil] at hsum
      simp at hsum
      lia
    simp [hmore, hne, hfits]

end PoolLens

end Net
end Ch579HttpLed
