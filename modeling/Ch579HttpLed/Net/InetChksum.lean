import Ch579HttpLed.Foundation.OnesComplement
import Mathlib.Algebra.GroupWithZero.Nat

/-!
# The Internet checksum

Model of `core/inet_chksum.c` on the little-endian target.  `lwip_standard_chksum`
is the second of the three algorithms in the file, which adds the 16-bit words in
host order and treats a buffer at an odd address specially; the first algorithm
adds bytes in network order and is kept here as the reference.  A memory buffer
is its bytes and the parity of its address.
-/

namespace Ch579HttpLed
namespace Net

open Foundation

/-!
# Words
-/

/-- A 16-bit load of two bytes. -/
def loadU16 (b0 b1 : UInt8) : UInt16 :=
  b0.toUInt16 + b1.toUInt16 * 256

def foldU32T (u : UInt32) : UInt32 :=
  (u >>> 16) + (u &&& 0x0000ffff)

def swapBytesInWord (w : UInt32) : UInt32 :=
  ((w &&& 0xff) <<< 8) ||| ((w &&& 0xff00) >>> 8)

def lwipHtons (n : UInt16) : UInt16 :=
  ((n &&& 0x00ff) <<< 8) ||| ((n &&& 0xff00) >>> 8)

/-!
# The sum of a buffer
-/

/-- The loop over the aligned words, with the bytes that are left. -/
def sumWords (sum : UInt32) : List UInt8 -> UInt32 × List UInt8
  | b0 :: b1 :: rest => sumWords (sum + (loadU16 b0 b1).toUInt32) rest
  | rest => (sum, rest)

/-- `lwip_standard_chksum`, version 2. -/
def lwipStandardChksum (odd : Bool) (data : List UInt8) : UInt16 :=
  -- t has the byte before the first aligned word as its high byte
  let head := if odd then data.take 1 else []
  let pb := if odd then data.drop 1 else data
  let (sum, rest) := sumWords 0 pb
  let t := loadU16 (rest.headD 0) (head.headD 0)
  let sum := sum + t.toUInt32
  let sum := foldU32T sum
  let sum := foldU32T sum
  let sum := if odd then swapBytesInWord sum else sum
  sum.toUInt16

/-- The loop of version 1: words in network order, a last byte as a high byte. -/
def sumOctets (acc : UInt32) : List UInt8 -> UInt32
  | b0 :: b1 :: rest =>
      sumOctets (acc + ((b0.toUInt16 <<< 8) ||| b1.toUInt16).toUInt32) rest
  | [b] => acc + (b.toUInt16 <<< 8).toUInt32
  | [] => acc

/-- `lwip_standard_chksum`, version 1. -/
def lwipStandardChksumV1 (data : List UInt8) : UInt16 :=
  let acc := sumOctets 0 data
  let acc := (acc >>> 16) + (acc &&& 0x0000ffff)
  let acc := if acc &&& 0xffff0000 ≠ 0 then (acc >>> 16) + (acc &&& 0x0000ffff) else acc
  lwipHtons acc.toUInt16

def inetChksum (odd : Bool) (data : List UInt8) : UInt16 :=
  ~~~ (lwipStandardChksum odd data)

/-!
# Chains
-/

/-- What the checksum reads of a pbuf. -/
structure ChksumPbuf where
  odd : Bool               -- parity of the payload pointer
  payload : List UInt8
  length_lt : payload.length < 65536

/-- The loop over a chain, with the flag `swapped`. -/
def sumChain (acc : UInt32) (swapped : Bool) : List ChksumPbuf -> UInt32 × Bool
  | [] => (acc, swapped)
  | q :: next =>
      let acc := acc + (lwipStandardChksum q.odd q.payload).toUInt32
      let acc := foldU32T acc
      if q.payload.length % 2 ≠ 0 then sumChain (swapBytesInWord acc) (!swapped) next
      else sumChain acc swapped next

def inetChksumPbuf (p : List ChksumPbuf) : UInt16 :=
  let (acc, swapped) := sumChain 0 false p
  let acc := if swapped then swapBytesInWord acc else acc
  ~~~ (acc &&& 0xffff).toUInt16

def inetCksumPseudoBase (p : List ChksumPbuf) (proto : UInt8) (protoLen : UInt16)
    (acc : UInt32) : UInt16 :=
  let (acc, swapped) := sumChain acc false p
  let acc := if swapped then swapBytesInWord acc else acc
  let acc := acc + (lwipHtons proto.toUInt16).toUInt32
  let acc := acc + (lwipHtons protoLen).toUInt32
  let acc := foldU32T acc
  let acc := foldU32T acc
  ~~~ (acc &&& 0xffff).toUInt16

/-- The addresses are the words that the header holds. -/
def inetChksumPseudo (p : List ChksumPbuf) (proto : UInt8) (protoLen : UInt16)
    (src dest : UInt32) : UInt16 :=
  let acc := src &&& 0xffff
  let acc := acc + ((src >>> 16) &&& 0xffff)
  let acc := acc + (dest &&& 0xffff)
  let acc := acc + ((dest >>> 16) &&& 0xffff)
  let acc := foldU32T acc
  let acc := foldU32T acc
  inetCksumPseudoBase p proto protoLen acc

/-!
# Words as numbers
-/

theorem word_halves : 65535 + 1 = 256 * 256 := rfl

theorem loadU16_toNat (b0 b1 : UInt8) :
    (loadU16 b0 b1).toNat = b0.toNat + 256 * b1.toNat := by
  have h0 := b0.toNat_lt
  have h1 := b1.toNat_lt
  unfold loadU16
  rw [UInt16.toNat_add, UInt16.toNat_mul]
  simp only [UInt8.toNat_toUInt16]
  change (b0.toNat + b1.toNat * 256 % 65536) % 65536 = _
  lia

theorem and_low_toNat (u : UInt32) : (u &&& 0x0000ffff).toNat = u.toNat % 65536 := by
  rw [UInt32.toNat_and]
  exact Nat.and_two_pow_sub_one_eq_mod u.toNat 16

theorem shr_high_toNat (u : UInt32) : (u >>> 16).toNat = u.toNat / 65536 := by
  rw [UInt32.toNat_shiftRight]
  exact Nat.shiftRight_eq_div_pow u.toNat 16

theorem foldU32T_toNat (u : UInt32) : (foldU32T u).toNat = foldWord 65535 u.toNat := by
  have hlt := u.toNat_lt
  unfold foldU32T foldWord
  rw [UInt32.toNat_add, shr_high_toNat, and_low_toNat]
  lia

theorem foldU32T_represents {u : UInt32} {n : Nat} (hu : u.toNat <= 2 * 65535)
    (hsame : SameSum 65535 u.toNat n) : Represents 65535 (foldU32T u).toNat n := by
  rw [foldU32T_toNat]
  exact (Represents.fold hu).congr hsame

/-- Every 32-bit sum is a word after two folds. -/
theorem foldU32T_twice (u : UInt32) :
    Represents 65535 (foldU32T (foldU32T u)).toNat u.toNat := by
  rw [foldU32T_toNat, foldU32T_toNat]
  exact Represents.fold_fold u.toNat_lt

/-- The bit expression that exchanges the bytes of a 16-bit word. -/
theorem swapBytes_nat {w : Nat} (hw : w <= 65535) :
    ((w &&& 0xff) <<< 8) ||| ((w &&& 0xff00) >>> 8) = swapHalves 256 w := by
  have hlow : w &&& 0xff = w % 256 := Nat.and_two_pow_sub_one_eq_mod w 8
  have hhigh : (w &&& 0xff00) >>> 8 = w / 256 := by
    rw [Nat.shiftRight_and_distrib, Nat.shiftRight_eq_div_pow]
    change w / 256 &&& 2 ^ 8 - 1 = _
    rw [Nat.and_two_pow_sub_one_eq_mod]
    exact Nat.mod_eq_of_lt (by lia)
  rw [hlow, hhigh, ← Nat.shiftLeft_add_eq_or_of_lt (by lia), Nat.shiftLeft_eq]
  rfl

theorem swapBytesInWord_toNat {w : UInt32} (hw : w.toNat <= 65535) :
    (swapBytesInWord w).toNat = swapHalves 256 w.toNat := by
  rw [← swapBytes_nat hw]
  unfold swapBytesInWord
  have hlow : w.toNat &&& 0xff = w.toNat % 256 := Nat.and_two_pow_sub_one_eq_mod w.toNat 8
  rw [UInt32.toNat_or, UInt32.toNat_shiftLeft, UInt32.toNat_shiftRight, UInt32.toNat_and,
    UInt32.toNat_and]
  change ((w.toNat &&& 0xff) <<< 8) % 2 ^ 32 ||| (w.toNat &&& 0xff00) >>> 8 = _
  rw [hlow, Nat.shiftLeft_eq, Nat.mod_eq_of_lt (by omega)]

theorem lwipHtons_toNat (n : UInt16) : (lwipHtons n).toNat = swapHalves 256 n.toNat := by
  have hn : n.toNat <= 65535 := Nat.le_of_lt_succ n.toNat_lt
  rw [← swapBytes_nat hn]
  unfold lwipHtons
  have hlow : n.toNat &&& 0xff = n.toNat % 256 := Nat.and_two_pow_sub_one_eq_mod n.toNat 8
  rw [UInt16.toNat_or, UInt16.toNat_shiftLeft, UInt16.toNat_shiftRight, UInt16.toNat_and,
    UInt16.toNat_and]
  change ((n.toNat &&& 0xff) <<< 8) % 2 ^ 16 ||| (n.toNat &&& 0xff00) >>> 8 = _
  rw [hlow, Nat.shiftLeft_eq, Nat.mod_eq_of_lt (by omega)]

theorem swapBytesInWord_represents {w : UInt32} {n : Nat} (h : Represents 65535 w.toNat n) :
    Represents 65535 (swapBytesInWord w).toNat (256 * n) := by
  rw [swapBytesInWord_toNat h.le]
  exact h.swap word_halves

theorem toUInt16_toNat_of_represents {w : UInt32} {n : Nat} (h : Represents 65535 w.toNat n) :
    w.toUInt16.toNat = w.toNat := by
  have hle := h.le
  rw [UInt32.toNat_toUInt16]
  exact Nat.mod_eq_of_lt (by lia)

/-!
# The value of a buffer
-/

/-- A buffer read as a little-endian number. -/
def bytesValue (data : List UInt8) : Nat :=
  Nat.ofDigits 256 (data.map UInt8.toNat)

/-- The loop adds the words and leaves at most one byte, which completes the sum of words. -/
theorem sumWords_toNat (data : List UInt8) (sum : UInt32)
    (hsum : sum.toNat + wordSum 256 (data.map UInt8.toNat) < 2 ^ 32) :
    (sumWords sum data).1.toNat + ((sumWords sum data).2.headD 0).toNat =
      sum.toNat + wordSum 256 (data.map UInt8.toNat) := by
  induction sum, data using sumWords.induct with
  | case1 sum b0 b1 rest ih =>
      rw [List.map_cons, List.map_cons, wordSum] at hsum ⊢
      have hword : (loadU16 b0 b1).toUInt32.toNat = b0.toNat + 256 * b1.toNat := by
        rw [UInt16.toNat_toUInt32, loadU16_toNat]
      have hadd : (sum + (loadU16 b0 b1).toUInt32).toNat =
          sum.toNat + (b0.toNat + 256 * b1.toNat) := by
        rw [UInt32.toNat_add, hword]
        exact Nat.mod_eq_of_lt (by omega)
      rw [hadd] at ih
      rw [sumWords, ih (by omega)]
      omega
  | case2 sum rest hshort =>
      rcases rest with _ | ⟨b0, _ | ⟨b1, rest⟩⟩
      · rfl
      · rfl
      · exact absurd rfl (hshort b0 b1 rest)

theorem wordSum_bytes_le (data : List UInt8) :
    wordSum 256 (data.map UInt8.toNat) <= 65535 * ((data.length + 1) / 2) := by
  have hbytes : forall x, x ∈ data.map UInt8.toNat -> x < 256 := by
    intro x hx
    rcases List.mem_map.mp hx with ⟨b, _, hb⟩
    rw [← hb]
    exact b.toNat_lt
  have hle := wordSum_le word_halves hbytes
  rwa [List.length_map] at hle

/-- The sum before folding, with `high` as the byte in front of the aligned words. -/
theorem sumWords_add_toNat (pb : List UInt8) (high : UInt8) (hlength : pb.length <= 0x20000) :
    ((sumWords 0 pb).1 + (loadU16 ((sumWords 0 pb).2.headD 0) high).toUInt32).toNat =
      wordSum 256 (pb.map UInt8.toNat) + 256 * high.toNat := by
  have hle := wordSum_bytes_le pb
  have hhigh := high.toNat_lt
  have hsum := sumWords_toNat pb 0 (by
    change 0 + _ < 2 ^ 32
    omega)
  change _ = 0 + _ at hsum
  rw [UInt32.toNat_add, UInt16.toNat_toUInt32, loadU16_toNat]
  have htotal : (sumWords 0 pb).1.toNat +
      (((sumWords 0 pb).2.headD 0).toNat + 256 * high.toNat) =
        wordSum 256 (pb.map UInt8.toNat) + 256 * high.toNat := by
    omega
  rw [htotal]
  exact Nat.mod_eq_of_lt (by omega)

/-- A buffer of the documented length is summed to its value, at even and odd addresses. -/
theorem lwipStandardChksum_represents (odd : Bool) (data : List UInt8)
    (hlength : data.length <= 0x20000) :
    Represents 65535 (lwipStandardChksum odd data).toNat (bytesValue data) := by
  unfold lwipStandardChksum bytesValue
  cases odd with
  | false =>
      have hsum := sumWords_add_toNat data 0 hlength
      have hfold := foldU32T_twice
        ((sumWords 0 data).1 + (loadU16 ((sumWords 0 data).2.headD 0) 0).toUInt32)
      rw [hsum, UInt8.toNat_zero, Nat.mul_zero, Nat.add_zero] at hfold
      simp only [Bool.false_eq_true, if_false, List.headD_nil]
      rw [toUInt16_toNat_of_represents hfold]
      exact hfold.congr (sameSum_wordSum word_halves _)
  | true =>
      cases data with
      | nil =>
          exact ⟨Nat.zero_le _, SameSum.refl _ _⟩
      | cons b pb =>
          rw [List.length_cons] at hlength
          have hsum := sumWords_add_toNat pb b (by omega)
          have hfold := foldU32T_twice
            ((sumWords 0 pb).1 + (loadU16 ((sumWords 0 pb).2.headD 0) b).toUInt32)
          rw [hsum] at hfold
          have hswap := swapBytesInWord_represents hfold
          simp only [if_true, List.take_succ_cons, List.take_zero, List.drop_succ_cons,
            List.drop_zero, List.headD_cons]
          rw [toUInt16_toNat_of_represents hswap]
          apply hswap.congr
          -- swapped, the first byte is the low byte of the first word
          rw [List.map_cons, Nat.ofDigits_cons, Nat.mul_add, Nat.add_comm]
          exact (sameSum_sq word_halves b.toNat).add
            ((sameSum_wordSum word_halves _).mul_left (by decide))

/-!
# The reference algorithm
-/

/-- The sum of the words of a string in network order. -/
def networkSum : List Nat -> Nat
  | [] => 0
  | [x] => 256 * x
  | x :: y :: xs => 256 * x + y + networkSum xs

theorem sameSum_networkSum (xs : List Nat) :
    SameSum 65535 (networkSum xs) (256 * wordSum 256 xs) := by
  induction xs using networkSum.induct with
  | case1 =>
      exact SameSum.refl _ _
  | case2 x =>
      exact SameSum.refl _ _
  | case3 x y xs ih =>
      rw [networkSum, wordSum, Nat.mul_add, Nat.mul_add]
      exact ((SameSum.refl _ _).add (sameSum_sq word_halves y).symm).add ih

theorem networkSum_le {xs : List Nat} (hxs : forall x, x ∈ xs -> x < 256) :
    networkSum xs <= 65535 * ((xs.length + 1) / 2) := by
  induction xs using networkSum.induct with
  | case1 =>
      exact Nat.zero_le _
  | case2 x =>
      have hx := hxs x List.mem_cons_self
      rw [networkSum, List.length_singleton]
      omega
  | case3 x y xs ih =>
      have hx := hxs x List.mem_cons_self
      have hy := hxs y (by simp)
      have hrest := ih (fun z hz => hxs z (by simp [hz]))
      rw [networkSum, List.length_cons, List.length_cons]
      omega

theorem octet_high_toNat (b : UInt8) : (b.toUInt16 <<< 8).toNat = 256 * b.toNat := by
  have hb := b.toNat_lt
  rw [UInt16.toNat_shiftLeft, UInt8.toNat_toUInt16]
  change b.toNat <<< 8 % 2 ^ 16 = _
  rw [Nat.shiftLeft_eq, Nat.mod_eq_of_lt (by omega), Nat.mul_comm]

theorem octet_word_toNat (b0 b1 : UInt8) :
    ((b0.toUInt16 <<< 8) ||| b1.toUInt16).toNat = 256 * b0.toNat + b1.toNat := by
  have h1 := b1.toNat_lt
  rw [UInt16.toNat_or, octet_high_toNat, UInt8.toNat_toUInt16]
  have hor := Nat.shiftLeft_add_eq_or_of_lt (i := 8) (b := b1.toNat) h1 b0.toNat
  rw [Nat.shiftLeft_eq, Nat.mul_comm] at hor
  exact hor.symm

theorem sumOctets_toNat (data : List UInt8) (acc : UInt32)
    (hacc : acc.toNat + networkSum (data.map UInt8.toNat) < 2 ^ 32) :
    (sumOctets acc data).toNat = acc.toNat + networkSum (data.map UInt8.toNat) := by
  induction acc, data using sumOctets.induct with
  | case1 acc b0 b1 rest ih =>
      rw [List.map_cons, List.map_cons, networkSum] at hacc ⊢
      have hadd : (acc + ((b0.toUInt16 <<< 8) ||| b1.toUInt16).toUInt32).toNat =
          acc.toNat + (256 * b0.toNat + b1.toNat) := by
        rw [UInt32.toNat_add, UInt16.toNat_toUInt32, octet_word_toNat]
        exact Nat.mod_eq_of_lt (by omega)
      rw [hadd] at ih
      rw [sumOctets, ih (by omega)]
      omega
  | case2 acc b =>
      simp only [List.map_cons, List.map_nil, networkSum] at hacc ⊢
      rw [sumOctets, UInt32.toNat_add, UInt16.toNat_toUInt32, octet_high_toNat]
      exact Nat.mod_eq_of_lt hacc
  | case3 acc =>
      rfl

/-- The second fold of version 1 is skipped only if there is nothing to fold. -/
theorem carry_zero_iff (u : UInt32) : u &&& 0xffff0000 = 0 -> u.toNat <= 65535 := by
  intro h
  have hlt := u.toNat_lt
  have hnat : u.toNat &&& 0xffff0000 = 0 := by
    have := congrArg UInt32.toNat h
    rwa [UInt32.toNat_and] at this
  have hshift : (u.toNat &&& 0xffff0000) >>> 16 = u.toNat / 65536 := by
    rw [Nat.shiftRight_and_distrib, Nat.shiftRight_eq_div_pow]
    change u.toNat / 65536 &&& 2 ^ 16 - 1 = _
    rw [Nat.and_two_pow_sub_one_eq_mod]
    exact Nat.mod_eq_of_lt (by omega)
  rw [hnat, Nat.zero_shiftRight] at hshift
  omega

theorem lwipStandardChksumV1_represents (data : List UInt8) (hlength : data.length <= 0x20000) :
    Represents 65535 (lwipStandardChksumV1 data).toNat (bytesValue data) := by
  have hbytes : forall x, x ∈ data.map UInt8.toNat -> x < 256 := by
    intro x hx
    rcases List.mem_map.mp hx with ⟨b, _, hb⟩
    rw [← hb]
    exact b.toNat_lt
  have hle := networkSum_le hbytes
  rw [List.length_map] at hle
  have hsum := sumOctets_toNat data 0 (by
    change 0 + _ < 2 ^ 32
    omega)
  change _ = 0 + _ at hsum
  rw [Nat.zero_add] at hsum
  have hsame : SameSum 65535 (sumOctets 0 data).toNat (256 * bytesValue data) := by
    rw [hsum]
    exact (sameSum_networkSum _).trans
      ((sameSum_wordSum word_halves _).mul_left (by decide))
  have hword : Represents 65535
      (if foldU32T (sumOctets 0 data) &&& 0xffff0000 ≠ 0
        then foldU32T (foldU32T (sumOctets 0 data))
        else foldU32T (sumOctets 0 data)).toNat (256 * bytesValue data) := by
    split
    · exact (foldU32T_twice _).congr hsame
    · next hcarry =>
        refine ⟨carry_zero_iff _ (not_not.mp hcarry), ?_⟩
        rw [foldU32T_toNat]
        exact (sameSum_foldWord _ _).trans hsame
  change Represents 65535 (lwipHtons (UInt32.toUInt16 (if
      foldU32T (sumOctets 0 data) &&& 0xffff0000 ≠ 0
        then foldU32T (foldU32T (sumOctets 0 data))
        else foldU32T (sumOctets 0 data)))).toNat _
  rw [lwipHtons_toNat, toUInt16_toNat_of_represents hword]
  exact (hword.swap word_halves).congr (sameSum_sq word_halves _)

/--
For every buffer up to the documented length of 0x20000 bytes, at an even or an odd
address, the algorithm of the build computes what the reference algorithm does.
-/
theorem lwipStandardChksum_eq_reference (odd : Bool) (data : List UInt8)
    (hlength : data.length <= 0x20000) :
    lwipStandardChksum odd data = lwipStandardChksumV1 data := by
  apply UInt16.toNat_inj.mp
  exact (lwipStandardChksum_represents odd data hlength).unique
    (lwipStandardChksumV1_represents data hlength) (SameSum.refl _ _)

theorem lwipStandardChksum_eq_reference_at_odd :
    lwipStandardChksum true [0x45, 0x00, 0xff] = lwipStandardChksumV1 [0x45, 0x00, 0xff] :=
  lwipStandardChksum_eq_reference true [0x45, 0x00, 0xff] (by decide)

/-!
# Chains as one buffer

`sum` of a chain is kept with its bytes exchanged while an odd number of bytes has
been summed.
-/

/-- The sum that the accumulator stands for. -/
def orient (swapped : Bool) (n : Nat) : Nat :=
  if swapped then 256 * n else n

theorem orient_add (swapped : Bool) (n k : Nat) :
    orient swapped (n + k) = orient swapped n + orient swapped k := by
  cases swapped with
  | false => rfl
  | true => exact Nat.mul_add 256 n k

theorem orient_orient (swapped : Bool) (n : Nat) :
    SameSum 65535 (orient swapped (orient swapped n)) n := by
  cases swapped with
  | false => exact SameSum.refl _ n
  | true => exact sameSum_sq word_halves n

theorem orient_not (swapped : Bool) (n : Nat) :
    SameSum 65535 (orient (!swapped) n) (256 * orient swapped n) := by
  cases swapped with
  | false => exact SameSum.refl _ _
  | true => exact (sameSum_sq word_halves n).symm

theorem sameSum_orient {n k : Nat} (swapped : Bool) (h : SameSum 65535 n k) :
    SameSum 65535 (orient swapped n) (orient swapped k) := by
  cases swapped with
  | false => exact h
  | true => exact h.mul_left (by decide)

def chainBytes (p : List ChksumPbuf) : List UInt8 :=
  p.flatMap ChksumPbuf.payload

theorem chainValue_cons_even (q : ChksumPbuf) (next : List ChksumPbuf)
    (heven : q.payload.length % 2 = 0) :
    SameSum 65535 (bytesValue (chainBytes (q :: next)))
      (bytesValue q.payload + bytesValue (chainBytes next)) := by
  unfold bytesValue chainBytes
  rw [List.flatMap_cons, List.map_append]
  exact sameSum_append_even word_halves _ _ (by rwa [List.length_map])

theorem chainValue_cons_odd (q : ChksumPbuf) (next : List ChksumPbuf)
    (hodd : q.payload.length % 2 = 1) :
    SameSum 65535 (bytesValue (chainBytes (q :: next)))
      (bytesValue q.payload + 256 * bytesValue (chainBytes next)) := by
  unfold bytesValue chainBytes
  rw [List.flatMap_cons, List.map_append]
  exact sameSum_append_odd word_halves _ _ (by rwa [List.length_map])

/-- Adding the sum of a pbuf to the accumulator. -/
theorem addPbuf_represents (q : ChksumPbuf) {acc : UInt32} {n : Nat}
    (hacc : Represents 65535 acc.toNat n) :
    Represents 65535
      (foldU32T (acc + (lwipStandardChksum q.odd q.payload).toUInt32)).toNat
      (n + bytesValue q.payload) := by
  have hlt := q.length_lt
  have hchksum := lwipStandardChksum_represents q.odd q.payload (by omega)
  have hle := hacc.le
  have hchksumLe := hchksum.le
  have hadd : (acc + (lwipStandardChksum q.odd q.payload).toUInt32).toNat =
      acc.toNat + (lwipStandardChksum q.odd q.payload).toNat := by
    rw [UInt32.toNat_add, UInt16.toNat_toUInt32]
    exact Nat.mod_eq_of_lt (by omega)
  apply foldU32T_represents
  · omega
  · rw [hadd]
    exact hacc.same.add hchksum.same

theorem sumChain_represents (p : List ChksumPbuf) (acc : UInt32) (swapped : Bool) (n : Nat)
    (hacc : Represents 65535 acc.toNat (orient swapped n)) :
    Represents 65535 (sumChain acc swapped p).1.toNat
      (orient (sumChain acc swapped p).2 (n + orient swapped (bytesValue (chainBytes p)))) := by
  induction p generalizing acc swapped n with
  | nil =>
      have hzero : orient swapped 0 = 0 := by
        cases swapped <;> rfl
      change Represents 65535 acc.toNat (orient swapped (n + orient swapped 0))
      rw [hzero, Nat.add_zero]
      exact hacc
  | cons q next ih =>
      have hadd := addPbuf_represents q hacc
      -- the new sum, seen from before this pbuf
      have htotal : SameSum 65535 (orient swapped n + bytesValue q.payload)
          (orient swapped (n + orient swapped (bytesValue q.payload))) := by
        rw [orient_add]
        exact (SameSum.refl _ _).add (orient_orient swapped _).symm
      rw [sumChain]
      split
      · next hodd =>
          have hswap := swapBytesInWord_represents hadd
          have hnext := ih _ (!swapped) (n + orient swapped (bytesValue q.payload))
            (hswap.congr ((htotal.mul_left (by decide)).trans (orient_not swapped _).symm))
          apply hnext.congr
          apply sameSum_orient
          rw [Nat.add_assoc]
          apply (SameSum.refl _ _).add
          have hcons := sameSum_orient swapped (chainValue_cons_odd q next (by omega))
          rw [orient_add] at hcons
          apply SameSum.trans _ hcons.symm
          apply (SameSum.refl _ _).add
          cases swapped with
          | false => exact SameSum.refl _ _
          | true => exact (sameSum_sq word_halves _).symm
      · next heven =>
          have hnext := ih _ swapped (n + orient swapped (bytesValue q.payload))
            (hadd.congr htotal)
          apply hnext.congr
          apply sameSum_orient
          rw [Nat.add_assoc, ← orient_add]
          apply (SameSum.refl _ _).add
          exact sameSum_orient swapped (chainValue_cons_even q next (by omega)).symm

/-- The accumulator at the end of the chain, turned back. -/
theorem sumChain_end_represents (p : List ChksumPbuf) {acc : UInt32} {n : Nat}
    (hacc : Represents 65535 acc.toNat n) :
    Represents 65535
      (if (sumChain acc false p).2 then swapBytesInWord (sumChain acc false p).1
        else (sumChain acc false p).1).toNat
      (n + bytesValue (chainBytes p)) := by
  have hchain := sumChain_represents p acc false n hacc
  cases hswapped : (sumChain acc false p).2 with
  | false =>
      rw [hswapped] at hchain
      exact hchain
  | true =>
      rw [hswapped] at hchain
      exact (swapBytesInWord_represents hchain).congr (sameSum_sq word_halves _)

/-- The end of both chain functions: the complement of the word. -/
theorem complement_eq_inetChksum {acc : UInt32} {data : List UInt8} (odd : Bool)
    (hlength : data.length <= 0x20000)
    (hacc : Represents 65535 acc.toNat (bytesValue data)) :
    ~~~ (acc &&& 0xffff).toUInt16 = inetChksum odd data := by
  unfold inetChksum
  congr 1
  apply UInt16.toNat_inj.mp
  have hle := hacc.le
  have hlow : (acc &&& 0xffff).toUInt16.toNat = acc.toNat := by
    rw [UInt32.toNat_toUInt16, and_low_toNat]
    omega
  rw [hlow]
  exact hacc.unique (lwipStandardChksum_represents odd data hlength) (SameSum.refl _ _)

/--
The checksum of a chain is that of its bytes in one buffer, for every way of
cutting the bytes into pbufs, odd lengths and odd addresses included.
-/
theorem inetChksumPbuf_eq_flat (p : List ChksumPbuf) (odd : Bool)
    (hlength : (chainBytes p).length <= 0x20000) :
    inetChksumPbuf p = inetChksum odd (chainBytes p) := by
  have hzero : Represents 65535 (0 : UInt32).toNat 0 := ⟨Nat.zero_le _, SameSum.refl _ _⟩
  have hend := sumChain_end_represents p hzero
  rw [Nat.zero_add] at hend
  exact complement_eq_inetChksum odd hlength hend

theorem inetChksumPbuf_eq_flat_split :
    inetChksumPbuf [⟨true, [0x08, 0x00, 0x12], by decide⟩, ⟨false, [0x34, 0xab], by decide⟩] =
      inetChksum false [0x08, 0x00, 0x12, 0x34, 0xab] :=
  inetChksumPbuf_eq_flat
    [⟨true, [0x08, 0x00, 0x12], by decide⟩, ⟨false, [0x34, 0xab], by decide⟩] false (by decide)

/-!
# The pseudo header
-/

/-- The bytes of a 32-bit word in memory. -/
def wordBytes (a : UInt32) : List UInt8 :=
  [a.toUInt8, (a >>> 8).toUInt8, (a >>> 16).toUInt8, (a >>> 24).toUInt8]

/-- The header that precedes a segment in its checksum: addresses, zero, protocol, length. -/
def pseudoHeader (proto : UInt8) (protoLen : UInt16) (src dest : UInt32) : List UInt8 :=
  wordBytes src ++ wordBytes dest ++ [0, proto, (protoLen >>> 8).toUInt8, protoLen.toUInt8]

theorem toUInt8_shr_toNat (a : UInt32) :
    a.toUInt8.toNat = a.toNat % 256 ∧ (a >>> 8).toUInt8.toNat = a.toNat / 256 % 256 ∧
      (a >>> 16).toUInt8.toNat = a.toNat / 65536 % 256 ∧
      (a >>> 24).toUInt8.toNat = a.toNat / 16777216 % 256 := by
  rw [UInt32.toNat_toUInt8, UInt32.toNat_toUInt8, UInt32.toNat_toUInt8, UInt32.toNat_toUInt8,
    UInt32.toNat_shiftRight, UInt32.toNat_shiftRight, UInt32.toNat_shiftRight]
  refine ⟨rfl, ?_, ?_, ?_⟩
  · exact congrArg (· % 256) (Nat.shiftRight_eq_div_pow a.toNat 8)
  · exact congrArg (· % 256) (Nat.shiftRight_eq_div_pow a.toNat 16)
  · exact congrArg (· % 256) (Nat.shiftRight_eq_div_pow a.toNat 24)

theorem wordBytes_wordSum (a : UInt32) :
    wordSum 256 ((wordBytes a).map UInt8.toNat) = a.toNat % 65536 + a.toNat / 65536 := by
  have hlt := a.toNat_lt
  have hbytes := toUInt8_shr_toNat a
  simp only [wordBytes, List.map_cons, List.map_nil, wordSum, hbytes.left, hbytes.right.left,
    hbytes.right.right.left, hbytes.right.right.right]
  omega

/-- The words that `inet_chksum_pseudo` adds for the addresses. -/
theorem addressSum_toNat (src dest : UInt32) :
    ((src &&& (0xffff : UInt32)) + ((src >>> 16) &&& (0xffff : UInt32)) +
        (dest &&& (0xffff : UInt32)) + ((dest >>> 16) &&& (0xffff : UInt32))).toNat =
      (src.toNat % 65536 + src.toNat / 65536) + (dest.toNat % 65536 + dest.toNat / 65536) := by
  have hsrc := src.toNat_lt
  have hdest := dest.toNat_lt
  have hsrcHigh : src.toNat / 65536 % 65536 = src.toNat / 65536 := Nat.mod_eq_of_lt (by omega)
  have hdestHigh : dest.toNat / 65536 % 65536 = dest.toNat / 65536 :=
    Nat.mod_eq_of_lt (by omega)
  simp only [UInt32.toNat_add, and_low_toNat, shr_high_toNat, hsrcHigh, hdestHigh]
  omega

theorem sameSum_bytes_append {xs ys : List UInt8} (heven : xs.length % 2 = 0) :
    SameSum 65535 (bytesValue (xs ++ ys)) (bytesValue xs + bytesValue ys) := by
  unfold bytesValue
  rw [List.map_append]
  exact sameSum_append_even word_halves _ _ (by rwa [List.length_map])

theorem sameSum_bytes_wordSum (xs : List UInt8) :
    SameSum 65535 (wordSum 256 (xs.map UInt8.toNat)) (bytesValue xs) :=
  sameSum_wordSum word_halves _

theorem pseudoHeader_sameSum (proto : UInt8) (protoLen : UInt16) (src dest : UInt32) :
    SameSum 65535
      ((src.toNat % 65536 + src.toNat / 65536) + (dest.toNat % 65536 + dest.toNat / 65536) +
        ((lwipHtons proto.toUInt16).toNat + (lwipHtons protoLen).toNat))
      (bytesValue (pseudoHeader proto protoLen src dest)) := by
  have hproto := proto.toNat_lt
  have hlen := protoLen.toNat_lt
  have htail : wordSum 256 (([0, proto, (protoLen >>> 8).toUInt8, protoLen.toUInt8] :
      List UInt8).map UInt8.toNat) =
        (lwipHtons proto.toUInt16).toNat + (lwipHtons protoLen).toNat := by
    have hhigh : (protoLen >>> 8).toUInt8.toNat = protoLen.toNat / 256 := by
      rw [UInt16.toNat_toUInt8, UInt16.toNat_shiftRight]
      change protoLen.toNat >>> 8 % 256 = _
      rw [Nat.shiftRight_eq_div_pow]
      exact Nat.mod_eq_of_lt (by omega)
    simp only [List.map_cons, List.map_nil, wordSum, hhigh, lwipHtons_toNat, swapHalves,
      UInt8.toNat_toUInt16, UInt16.toNat_toUInt8, UInt8.toNat_zero]
    omega
  have hsrc := sameSum_bytes_wordSum (wordBytes src)
  have hdest := sameSum_bytes_wordSum (wordBytes dest)
  have hrest := sameSum_bytes_wordSum [0, proto, (protoLen >>> 8).toUInt8, protoLen.toUInt8]
  rw [wordBytes_wordSum] at hsrc hdest
  rw [htail] at hrest
  unfold pseudoHeader
  apply SameSum.trans _ (sameSum_bytes_append (by simp [wordBytes])).symm
  apply SameSum.add _ hrest
  apply SameSum.trans _ (sameSum_bytes_append (by simp [wordBytes])).symm
  exact hsrc.add hdest

/-- Adding protocol and length, and the last two folds. -/
theorem pseudoEnd_represents {acc : UInt32} {n : Nat} (hacc : Represents 65535 acc.toNat n)
    (proto : UInt8) (protoLen : UInt16) :
    Represents 65535
      (foldU32T (foldU32T (acc + (lwipHtons proto.toUInt16).toUInt32 +
        (lwipHtons protoLen).toUInt32))).toNat
      (n + ((lwipHtons proto.toUInt16).toNat + (lwipHtons protoLen).toNat)) := by
  have hle := hacc.le
  have hproto := (lwipHtons proto.toUInt16).toNat_lt
  have hlen := (lwipHtons protoLen).toNat_lt
  have hadd : (acc + (lwipHtons proto.toUInt16).toUInt32 +
      (lwipHtons protoLen).toUInt32).toNat =
        acc.toNat + ((lwipHtons proto.toUInt16).toNat + (lwipHtons protoLen).toNat) := by
    simp only [UInt32.toNat_add, UInt16.toNat_toUInt32]
    omega
  apply (foldU32T_twice _).congr
  rw [hadd]
  exact hacc.same.add (SameSum.refl _ _)

/--
The TCP and UDP checksum is the Internet checksum of the pseudo header followed by
the bytes of the chain, for every way of cutting the bytes into pbufs.
-/
theorem inetChksumPseudo_eq_flat (p : List ChksumPbuf) (proto : UInt8) (protoLen : UInt16)
    (src dest : UInt32) (odd : Bool) (hlength : (chainBytes p).length + 12 <= 0x20000) :
    inetChksumPseudo p proto protoLen src dest =
      inetChksum odd (pseudoHeader proto protoLen src dest ++ chainBytes p) := by
  have hbegin := foldU32T_twice ((src &&& (0xffff : UInt32)) +
    ((src >>> 16) &&& (0xffff : UInt32)) + (dest &&& (0xffff : UInt32)) +
    ((dest >>> 16) &&& (0xffff : UInt32)))
  rw [addressSum_toNat] at hbegin
  have hend := pseudoEnd_represents (sumChain_end_represents p hbegin) proto protoLen
  apply complement_eq_inetChksum odd
  · rw [List.length_append]
    change 12 + _ <= _
    omega
  · apply hend.congr
    apply SameSum.trans _ (sameSum_bytes_append (by simp [pseudoHeader, wordBytes])).symm
    have hheader := (pseudoHeader_sameSum proto protoLen src dest).add
      (SameSum.refl 65535 (bytesValue (chainBytes p)))
    rw [Nat.add_right_comm] at hheader
    exact hheader

theorem inetChksumPseudo_eq_flat_split :
    inetChksumPseudo [⟨true, [0x00, 0x50, 0xc0], by decide⟩, ⟨true, [0x01], by decide⟩]
        6 4 0x0101a8c0 0x0201a8c0 =
      inetChksum false (pseudoHeader 6 4 0x0101a8c0 0x0201a8c0 ++ [0x00, 0x50, 0xc0, 0x01]) :=
  inetChksumPseudo_eq_flat
    [⟨true, [0x00, 0x50, 0xc0], by decide⟩, ⟨true, [0x01], by decide⟩] 6 4
    0x0101a8c0 0x0201a8c0 false (by decide)

end Net
end Ch579HttpLed
