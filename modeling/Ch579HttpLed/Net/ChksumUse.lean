import Ch579HttpLed.Net.InetChksum

/-!
# Where checksums are stored and checked

A checksum is stored in a 16-bit field of the data that it covers, and the data is
checked by summing it with the field in place: the check passes exactly if the
result is zero.  `ip4_output_if_src` adds up the words of the IP header while
it writes them, and `icmp_input` turns an echo request into its reply by
correcting the checksum that it has just checked.
-/

namespace Ch579HttpLed
namespace Net

open Foundation

/-!
# A 16-bit field
-/

/-- The bytes of a 16-bit word in memory. -/
def wordBytes16 (w : UInt16) : List UInt8 :=
  [w.toUInt8, (w >>> 8).toUInt8]

/-- Stores a word at a byte offset. -/
def storeU16 (data : List UInt8) (offset : Nat) (w : UInt16) : List UInt8 :=
  data.take offset ++ (wordBytes16 w ++ data.drop (offset + 2))

theorem wordBytes16_value (w : UInt16) : bytesValue (wordBytes16 w) = w.toNat := by
  have hlt := w.toNat_lt
  have hhigh : (w >>> 8).toUInt8.toNat = w.toNat / 256 := by
    rw [UInt16.toNat_toUInt8, UInt16.toNat_shiftRight]
    change w.toNat >>> 8 % 256 = _
    rw [Nat.shiftRight_eq_div_pow]
    exact Nat.mod_eq_of_lt (by omega)
  simp only [bytesValue, wordBytes16, List.map_cons, List.map_nil, Nat.ofDigits_cons,
    Nat.ofDigits_nil, hhigh, UInt16.toNat_toUInt8]
  omega

theorem storeU16_length {data : List UInt8} {offset : Nat} (hfield : offset + 2 <= data.length)
    (w : UInt16) : (storeU16 data offset w).length = data.length := by
  simp only [storeU16, wordBytes16, List.length_append, List.length_take, List.length_cons,
    List.length_nil, List.length_drop]
  omega

/-- The last store to a field wins. -/
theorem storeU16_storeU16 {data : List UInt8} {offset : Nat} (hfield : offset + 2 <= data.length)
    (v w : UInt16) : storeU16 (storeU16 data offset v) offset w = storeU16 data offset w := by
  have hprefix : (data.take offset).length = offset := by
    rw [List.length_take]
    omega
  have htake : (storeU16 data offset v).take offset = data.take offset := by
    unfold storeU16
    exact List.take_left' hprefix
  have hdrop : (storeU16 data offset v).drop (offset + 2) = data.drop (offset + 2) := by
    unfold storeU16
    rw [← List.append_assoc]
    apply List.drop_left'
    rw [List.length_append, hprefix]
    rfl
  rw [storeU16, htake, hdrop]
  rfl

/-- A field at an even offset adds its word to the sum of the rest. -/
theorem storeU16_sameSum {data : List UInt8} {offset : Nat} (heven : offset % 2 = 0)
    (hfield : offset + 2 <= data.length) (w : UInt16) :
    SameSum 65535 (bytesValue (storeU16 data offset w))
      (bytesValue (storeU16 data offset 0) + w.toNat) := by
  have hprefix : (data.take offset).length % 2 = 0 := by
    rw [List.length_take]
    omega
  have hsplit : forall v : UInt16, SameSum 65535 (bytesValue (storeU16 data offset v))
      (bytesValue (data.take offset) + (v.toNat + bytesValue (data.drop (offset + 2)))) := by
    intro v
    apply (sameSum_bytes_append hprefix).trans
    apply (SameSum.refl _ _).add
    rw [← wordBytes16_value]
    exact sameSum_bytes_append (by simp [wordBytes16])
  have hzero := (hsplit 0).symm.add (SameSum.refl 65535 w.toNat)
  apply (hsplit w).trans
  apply SameSum.trans _ hzero
  have hmove : bytesValue (data.take offset) +
      (w.toNat + bytesValue (data.drop (offset + 2))) =
        bytesValue (data.take offset) +
          ((0 : UInt16).toNat + bytesValue (data.drop (offset + 2))) + w.toNat := by
    change _ = _ + (0 + _) + _
    omega
  rw [hmove]
  exact SameSum.refl _ _

/-!
# The check
-/

theorem inetChksum_toNat (odd : Bool) (data : List UInt8) :
    (inetChksum odd data).toNat = 65535 - (lwipStandardChksum odd data).toNat := by
  unfold inetChksum
  rw [UInt16.toNat_not]
  rfl

/-- A buffer passes the check exactly if its value is a positive multiple of 65535. -/
theorem inetChksum_eq_zero_iff (odd : Bool) {data : List UInt8}
    (hlength : data.length <= 0x20000) :
    inetChksum odd data = 0 <-> 65535 ∣ bytesValue data ∧ bytesValue data ≠ 0 := by
  have hrep := lwipStandardChksum_represents odd data hlength
  have hle := hrep.le
  rw [← hrep.eq_max_iff (by decide), ← UInt16.toNat_inj, inetChksum_toNat]
  change 65535 - _ = 0 <-> _
  omega

/-- A sum with a field passes exactly for the complement, up to the two zeros. -/
theorem field_passes_iff {r s f n : Nat} (hs : Represents 65535 r s)
    (hsame : SameSum 65535 n (s + f)) (hf : f <= 65535) :
    65535 ∣ n ∧ n ≠ 0 <-> f = 65535 - r ∨ (65535 - r = 0 ∧ f = 65535) := by
  have hle := hs.le
  have hzero := hs.same.zero
  have hnzero := hsame.zero
  have hclass : n % 65535 = (r + f) % 65535 :=
    hsame.modEq.trans (hs.same.modEq.symm.add_right f)
  rw [Nat.dvd_iff_mod_eq_zero, hclass]
  omega

/--
Whoever checks data with a stored checksum accepts exactly the checksum that was
computed with the field at zero, or 0xffff where that is 0.
-/
theorem inetChksum_accepts_iff (odd odd' : Bool) {data : List UInt8} {offset : Nat}
    (heven : offset % 2 = 0) (hfield : offset + 2 <= data.length)
    (hlength : data.length <= 0x20000) (chksum : UInt16) :
    inetChksum odd' (storeU16 data offset chksum) = 0 <->
      chksum = inetChksum odd (storeU16 data offset 0) ∨
        (inetChksum odd (storeU16 data offset 0) = 0 ∧ chksum = 0xffff) := by
  have hchksum := chksum.toNat_lt
  have hrep := lwipStandardChksum_represents odd (storeU16 data offset 0)
    (by rwa [storeU16_length hfield])
  rw [inetChksum_eq_zero_iff odd' (by rwa [storeU16_length hfield]),
    field_passes_iff hrep (storeU16_sameSum heven hfield chksum) (by omega),
    ← inetChksum_toNat, ← UInt16.toNat_inj, ← UInt16.toNat_inj, ← UInt16.toNat_inj]
  exact Iff.rfl

/-!
# Segments

The sender sums its chain with the checksum field at zero; the receiver sums the
chain that it was delivered, which may be cut differently.
-/

theorem storeU16_append (header data : List UInt8) (offset : Nat) (w : UInt16) :
    header ++ storeU16 data offset w =
      storeU16 (header ++ data) (header.length + offset) w := by
  unfold storeU16
  rw [Nat.add_assoc, List.take_length_add_append, List.drop_length_add_append,
    List.append_assoc]

/--
`tcp_input` accepts a segment exactly if its checksum field holds what
`tcp_output_segment` computed for the same bytes, or 0xffff where that is 0; the
two chains may be cut and aligned in any way.
-/
theorem segmentChksum_accepts_iff (p p' : List ChksumPbuf) (proto : UInt8) (protoLen : UInt16)
    (src dest : UInt32) (data : List UInt8) (offset : Nat) (chksum : UInt16)
    (heven : offset % 2 = 0) (hfield : offset + 2 <= data.length)
    (hlength : data.length < 65536)
    (hsent : chainBytes p = storeU16 data offset 0)
    (hreceived : chainBytes p' = storeU16 data offset chksum) :
    inetChksumPseudo p' proto protoLen src dest = 0 <->
      chksum = inetChksumPseudo p proto protoLen src dest ∨
        (inetChksumPseudo p proto protoLen src dest = 0 ∧ chksum = 0xffff) := by
  have hheader : (pseudoHeader proto protoLen src dest).length = 12 := rfl
  have hbound : forall w, (storeU16 data offset w).length + 12 <= 0x20000 := by
    intro w
    rw [storeU16_length hfield]
    omega
  rw [inetChksumPseudo_eq_flat p proto protoLen src dest false (by rw [hsent]; exact hbound 0),
    inetChksumPseudo_eq_flat p' proto protoLen src dest false
      (by rw [hreceived]; exact hbound chksum),
    hsent, hreceived, storeU16_append, storeU16_append]
  apply inetChksum_accepts_iff
  · omega
  · rw [List.length_append]
    omega
  · rw [List.length_append]
    omega

theorem segmentChksum_accepts_resegmented :
    inetChksumPseudo [⟨false, [0, 80], by decide⟩, ⟨true, [0x75, 0x50, 7], by decide⟩]
      6 5 0x0101a8c0 0x0201a8c0 = 0 :=
  (segmentChksum_accepts_iff [⟨false, [0, 80, 0, 0, 7], by decide⟩]
    [⟨false, [0, 80], by decide⟩, ⟨true, [0x75, 0x50, 7], by decide⟩] 6 5
    0x0101a8c0 0x0201a8c0 [0, 80, 0, 0, 7] 2 0x5075 (by decide) (by decide) (by decide)
    (by decide) (by decide)).mpr (Or.inl (by decide))

/-!
# The IP header

Header of `ip4_output_if_src`, the name that this function has in a build without
support for options.  The checksum is summed up word by word while the fields are
written.
-/

structure Ip4Fields where
  tos : UInt8
  totLen : UInt16      -- p->tot_len
  ipId : UInt16
  ttl : UInt8
  proto : UInt8
  src : UInt32
  dest : UInt32
deriving DecidableEq, Repr

/-- Version 4 and a header of five words. -/
def ip4Vhl : UInt8 := 0x45

/-- The header in memory with a given checksum word. -/
def ip4Header (f : Ip4Fields) (chksum : UInt16) : List UInt8 :=
  [ip4Vhl, f.tos] ++ wordBytes16 (lwipHtons f.totLen) ++ wordBytes16 (lwipHtons f.ipId) ++
    wordBytes16 0 ++ [f.ttl, f.proto] ++ wordBytes16 chksum ++ wordBytes f.src ++
    wordBytes f.dest

/-- `chk_sum` when all fields are written. -/
def ip4ChkSum (f : Ip4Fields) : UInt32 :=
  let chkSum : UInt32 := 0
  let chkSum := chkSum + (lwipHtons (f.proto.toUInt16 ||| (f.ttl.toUInt16 <<< 8))).toUInt32
  let chkSum := chkSum + (f.dest &&& (0xffff : UInt32))
  let chkSum := chkSum + (f.dest >>> 16)
  let chkSum := chkSum + (lwipHtons (f.tos.toUInt16 ||| (ip4Vhl.toUInt16 <<< 8))).toUInt32
  let chkSum := chkSum + (lwipHtons f.totLen).toUInt32
  let chkSum := chkSum + (lwipHtons f.ipId).toUInt32
  let chkSum := chkSum + (f.src &&& (0xffff : UInt32))
  chkSum + (f.src >>> 16)

/-- The checksum that is stored; the second fold does not mask. -/
def ip4InlineChksum (f : Ip4Fields) : UInt16 :=
  let chkSum := ip4ChkSum f
  let chkSum := (chkSum >>> 16) + (chkSum &&& (0xffff : UInt32))
  let chkSum := (chkSum >>> 16) + chkSum
  let chkSum := ~~~ chkSum
  chkSum.toUInt16

/-- A pair of bytes written as a 16-bit expression and turned to network order. -/
theorem htons_pair_toNat (low high : UInt8) :
    (lwipHtons (low.toUInt16 ||| (high.toUInt16 <<< 8))).toNat =
      high.toNat + 256 * low.toNat := by
  have hlow := low.toNat_lt
  have hhigh := high.toNat_lt
  have hpair : (low.toUInt16 ||| (high.toUInt16 <<< 8)).toNat =
      256 * high.toNat + low.toNat := by
    rw [UInt16.or_comm]
    exact octet_word_toNat high low
  rw [lwipHtons_toNat, hpair]
  unfold swapHalves
  omega

/-- The sum of the words of the header without its checksum. -/
def ip4WordSum (f : Ip4Fields) : Nat :=
  (ip4Vhl.toNat + 256 * f.tos.toNat) + (lwipHtons f.totLen).toNat + (lwipHtons f.ipId).toNat +
    (f.ttl.toNat + 256 * f.proto.toNat) + (f.src.toNat % 65536 + f.src.toNat / 65536) +
    (f.dest.toNat % 65536 + f.dest.toNat / 65536)

theorem wordBytes16_words (w : UInt16) (rest : List Nat) :
    wordSum 256 ((wordBytes16 w).map UInt8.toNat ++ rest) = w.toNat + wordSum 256 rest := by
  have hvalue := wordBytes16_value w
  simp only [bytesValue, wordBytes16, List.map_cons, List.map_nil, Nat.ofDigits_cons,
    Nat.ofDigits_nil, Nat.mul_zero, Nat.add_zero] at hvalue
  simp only [wordBytes16, List.map_cons, List.map_nil, List.cons_append, List.nil_append,
    wordSum, hvalue]

theorem ip4Header_sameSum (f : Ip4Fields) (chksum : UInt16) :
    SameSum 65535 (ip4WordSum f + chksum.toNat) (bytesValue (ip4Header f chksum)) := by
  have hsrc := wordBytes_wordSum f.src
  have hdest := wordBytes_wordSum f.dest
  simp only [wordBytes, List.map_cons, List.map_nil, wordSum] at hsrc hdest
  have hwords : wordSum 256 ((ip4Header f chksum).map UInt8.toNat) =
      ip4WordSum f + chksum.toNat := by
    simp only [ip4Header, List.map_append, List.append_assoc, wordBytes16_words, wordBytes,
      List.map_cons, List.map_nil, List.cons_append, List.nil_append, wordSum, ip4WordSum,
      UInt16.toNat_zero]
    omega
  rw [← hwords]
  exact sameSum_bytes_wordSum _

theorem ip4WordSum_le (f : Ip4Fields) : ip4WordSum f <= 8 * 65535 := by
  have htos := f.tos.toNat_lt
  have httl := f.ttl.toNat_lt
  have hproto := f.proto.toNat_lt
  have hlen := (lwipHtons f.totLen).toNat_lt
  have hid := (lwipHtons f.ipId).toNat_lt
  have hsrc := f.src.toNat_lt
  have hdest := f.dest.toNat_lt
  have hvhl : ip4Vhl.toNat = 0x45 := rfl
  unfold ip4WordSum
  omega

/-- The unmasked second fold is right for the few carries of a header. -/
theorem inlineFold_toNat {u : UInt32} (hu : u.toNat <= 8 * 65535) :
    (~~~ ((foldU32T u >>> 16) + foldU32T u)).toUInt16.toNat =
      65535 - (foldU32T (foldU32T u)).toNat := by
  have hfold : (foldU32T u).toNat = u.toNat / 65536 + u.toNat % 65536 := foldU32T_toNat u
  have hsecond : (foldU32T (foldU32T u)).toNat =
      (foldU32T u).toNat / 65536 + (foldU32T u).toNat % 65536 := foldU32T_toNat _
  have hadd : ((foldU32T u >>> 16) + foldU32T u).toNat =
      (foldU32T u).toNat / 65536 + (foldU32T u).toNat := by
    rw [UInt32.toNat_add, shr_high_toNat]
    exact Nat.mod_eq_of_lt (by omega)
  rw [UInt32.toUInt16_not, UInt16.toNat_not, UInt32.toNat_toUInt16, hadd, hsecond]
  change 65536 - 1 - _ % 65536 = _
  omega

theorem ip4ChkSum_toNat (f : Ip4Fields) : (ip4ChkSum f).toNat = ip4WordSum f := by
  have hle := ip4WordSum_le f
  unfold ip4WordSum at *
  simp only [ip4ChkSum, UInt32.toNat_add, UInt16.toNat_toUInt32, htons_pair_toNat,
    and_low_toNat, shr_high_toNat, UInt32.toNat_zero]
  omega

theorem ip4Header_length (f : Ip4Fields) (chksum : UInt16) :
    (ip4Header f chksum).length <= 0x20000 := by
  change 20 <= 0x20000
  decide

/--
The checksum that is summed up in line is the one that `inet_chksum` computes over
the finished header with its field at zero, and the header passes the check of
`ip4_input`, for every packet.
-/
theorem ip4InlineChksum_verifies (f : Ip4Fields) (odd : Bool) :
    ip4InlineChksum f = inetChksum odd (ip4Header f 0) ∧
      inetChksum odd (ip4Header f (ip4InlineChksum f)) = 0 := by
  have hle := ip4WordSum_le f
  have hinline : (ip4InlineChksum f).toNat =
      65535 - (foldU32T (foldU32T (ip4ChkSum f))).toNat :=
    inlineFold_toNat (by rw [ip4ChkSum_toNat]; exact hle)
  have hfold := foldU32T_twice (ip4ChkSum f)
  rw [ip4ChkSum_toNat] at hfold
  constructor
  · have hzero := ip4Header_sameSum f 0
    rw [UInt16.toNat_zero, Nat.add_zero] at hzero
    have hword := (hfold.congr hzero).unique
      (lwipStandardChksum_represents odd (ip4Header f 0) (ip4Header_length f 0))
      (SameSum.refl _ _)
    apply UInt16.toNat_inj.mp
    rw [hinline, inetChksum_toNat, hword]
  · have hlt := (ip4InlineChksum f).toNat_lt
    apply (inetChksum_eq_zero_iff odd (ip4Header_length f _)).mpr
    apply (field_passes_iff hfold (ip4Header_sameSum f (ip4InlineChksum f)).symm (by omega)).mpr
    exact Or.inl hinline

/-!
# Echo requests

`icmp_input` on the packet that `ip4_input` hands over: the IP header, and the
chain of the ICMP message.  The reply is the message with the type changed and
the checksum corrected by the difference, behind the header with the addresses
exchanged and a new checksum.
-/

def ipHlen : Nat := 20

def icmpEr : UInt8 := 0
def icmpEcho : UInt8 := 8
def icmpTtl : UInt8 := 255

inductive IcmpOutcome where
  | lenerr
  | icmperr
  | chkerr
  | noReply                                        -- echo replies and other types
  | reply (iphdr : List UInt8) (message : List UInt8)
deriving DecidableEq, Repr

/-- What the environment decides: the destination of the packet and the room for its reply. -/
structure IcmpContext where
  destMulticast : Bool
  destBroadcast : Bool
  room : Bool                     -- the packet has room for a link header, or a copy was made
  src : UInt32                    -- ip4_current_src_addr
  dest : UInt32                   -- ip4_current_dest_addr
deriving DecidableEq, Repr

/-- The checksum of the message after its type has changed. -/
def adjustEchoChksum (chksum : UInt16) : UInt16 :=
  if lwipHtons ((0xffff : UInt16) - (icmpEcho.toUInt16 <<< 8)) < chksum then
    chksum + lwipHtons (icmpEcho.toUInt16 <<< 8) + 1
  else chksum + lwipHtons (icmpEcho.toUInt16 <<< 8)

def echoReplyMessage : List UInt8 -> List UInt8
  | _ :: code :: c0 :: c1 :: rest =>
      icmpEr :: code :: (wordBytes16 (adjustEchoChksum (loadU16 c0 c1)) ++ rest)
  | message => message

/-- The header with the addresses, the time to live and the checksum field rewritten. -/
def echoReplyHeader (ctx : IcmpContext) (iphdr : List UInt8) : List UInt8 :=
  let iphdr := iphdr.take 12 ++ (wordBytes ctx.dest ++ wordBytes ctx.src ++ iphdr.drop 20)
  let iphdr := iphdr.take 8 ++ (icmpTtl :: iphdr.drop 9)
  let iphdr := storeU16 iphdr 10 0
  storeU16 iphdr 10 (inetChksum false iphdr)

def icmpInput (ctx : IcmpContext) (iphdr : List UInt8) (p : List ChksumPbuf) : IcmpOutcome :=
  if iphdr.length < ipHlen then .lenerr
  else
    match p with
    | [] => .lenerr
    | q :: _ =>
        if q.payload.length < 4 then .lenerr
        else if q.payload.headD 0 ≠ icmpEcho then .noReply
        else if ctx.destMulticast then .icmperr
        else if ctx.destBroadcast then .icmperr
        else if (chainBytes p).length < 8 then .lenerr
        else if inetChksumPbuf p ≠ 0 then .chkerr
        else if !ctx.room then .icmperr
        else .reply (echoReplyHeader ctx iphdr) (echoReplyMessage (chainBytes p))

theorem adjustEchoChksum_toNat (chksum : UInt16) :
    (adjustEchoChksum chksum).toNat =
      if 0xfff7 < chksum.toNat then chksum.toNat + 9 - 65536 else chksum.toNat + 8 := by
  have hlt := chksum.toNat_lt
  have hlimit : lwipHtons ((0xffff : UInt16) - (icmpEcho.toUInt16 <<< 8)) = 0xfff7 := by
    decide
  have hstep : lwipHtons (icmpEcho.toUInt16 <<< 8) = 8 := by
    decide
  have hless : (0xfff7 : UInt16) < chksum <-> 0xfff7 < chksum.toNat :=
    UInt16.lt_iff_toNat_lt
  unfold adjustEchoChksum
  rw [hlimit, hstep]
  rcases Nat.lt_or_ge 0xfff7 chksum.toNat with hcarry | hfits
  · rw [if_pos (hless.mpr hcarry), if_pos hcarry, UInt16.toNat_add, UInt16.toNat_add]
    change ((chksum.toNat + 8) % 2 ^ 16 + 1) % 2 ^ 16 = _
    omega
  · have hnot : ¬ 0xfff7 < chksum.toNat := Nat.not_lt.mpr hfits
    rw [if_neg (fun h => hnot (hless.mp h)), if_neg hnot, UInt16.toNat_add]
    change (chksum.toNat + 8) % 2 ^ 16 = _
    omega

/-- A message starts with its type and code, its checksum and the rest. -/
theorem message_sameSum (type code c0 c1 : UInt8) (rest : List UInt8) :
    SameSum 65535 (bytesValue (type :: code :: c0 :: c1 :: rest))
      ((type.toNat + 256 * code.toNat) + ((loadU16 c0 c1).toNat + bytesValue rest)) := by
  have hsplit := (sameSum_bytes_wordSum (type :: code :: c0 :: c1 :: rest)).symm
  have hrest := sameSum_bytes_wordSum rest
  simp only [List.map_cons, wordSum] at hsplit
  apply hsplit.trans
  rw [loadU16_toNat]
  exact (SameSum.refl _ _).add ((SameSum.refl _ _).add hrest)

/-- Changing the type and correcting the checksum keeps a message that passes the check. -/
theorem echoReplyMessage_passes {code c0 c1 : UInt8} {rest : List UInt8}
    (h : 65535 ∣ bytesValue (icmpEcho :: code :: c0 :: c1 :: rest) ∧
      bytesValue (icmpEcho :: code :: c0 :: c1 :: rest) ≠ 0) :
    65535 ∣ bytesValue (echoReplyMessage (icmpEcho :: code :: c0 :: c1 :: rest)) ∧
      bytesValue (echoReplyMessage (icmpEcho :: code :: c0 :: c1 :: rest)) ≠ 0 := by
  have hrequest := message_sameSum icmpEcho code c0 c1 rest
  have hword := (loadU16 c0 c1).toNat_lt
  have hadjust := adjustEchoChksum_toNat (loadU16 c0 c1)
  have hreply : SameSum 65535
      (bytesValue (echoReplyMessage (icmpEcho :: code :: c0 :: c1 :: rest)))
      ((0 + 256 * code.toNat) +
        ((adjustEchoChksum (loadU16 c0 c1)).toNat + bytesValue rest)) := by
    have hsplit := (sameSum_bytes_wordSum
      (echoReplyMessage (icmpEcho :: code :: c0 :: c1 :: rest))).symm
    apply hsplit.trans
    rw [echoReplyMessage, List.map_cons, List.map_cons, List.map_append, wordSum,
      wordBytes16_words]
    exact (SameSum.refl _ _).add ((SameSum.refl _ _).add (sameSum_bytes_wordSum rest))
  have hrequestClass : bytesValue (icmpEcho :: code :: c0 :: c1 :: rest) % 65535 = _ :=
    hrequest.modEq
  have hreplyClass : bytesValue (echoReplyMessage (icmpEcho :: code :: c0 :: c1 :: rest)) %
      65535 = _ := hreply.modEq
  have hreplyZero := hreply.zero
  have htype : icmpEcho.toNat = 8 := rfl
  rw [Nat.dvd_iff_mod_eq_zero, hrequestClass, htype] at h
  rw [Nat.dvd_iff_mod_eq_zero, hreplyClass, hadjust]
  rw [hadjust] at hreplyZero
  split at hreplyZero
  · next hcarry =>
      rw [if_pos hcarry]
      omega
  · next hfits =>
      rw [if_neg hfits]
      omega

/-- What a reply says about the request. -/
theorem icmpInput_reply {ctx : IcmpContext} {iphdr iphdr' message : List UInt8}
    {p : List ChksumPbuf} (h : icmpInput ctx iphdr p = .reply iphdr' message) :
    ipHlen <= iphdr.length ∧ inetChksumPbuf p = 0 ∧
      iphdr' = echoReplyHeader ctx iphdr ∧ message = echoReplyMessage (chainBytes p) ∧
      exists code c0 c1 rest, chainBytes p = icmpEcho :: code :: c0 :: c1 :: rest := by
  cases p with
  | nil =>
      simp only [icmpInput] at h
      split at h <;> cases h
  | cons q next =>
      simp only [icmpInput] at h
      -- every guard but the last ends the input without a reply
      split at h
      · cases h
      rename_i hheader
      split at h
      · cases h
      rename_i hfirst
      split at h
      · cases h
      rename_i htype
      split at h
      · cases h
      split at h
      · cases h
      split at h
      · cases h
      split at h
      · cases h
      rename_i hsum
      split at h
      · cases h
      cases h
      refine ⟨Nat.not_lt.mp hheader, not_not.mp hsum, rfl, rfl, ?_⟩
      have hbytes : chainBytes (q :: next) = q.payload ++ chainBytes next := rfl
      match hpayload : q.payload with
      | type :: code :: c0 :: c1 :: rest =>
          rw [hpayload] at htype hbytes
          have htypeEcho : type = icmpEcho := not_not.mp htype
          exact ⟨code, c0, c1, rest ++ chainBytes next, by rw [hbytes, htypeEcho]; rfl⟩
      | [] | [_] | [_, _] | [_, _, _] =>
          rw [hpayload] at hfirst
          exact absurd (by simp) hfirst

/-- The rewritten header has the length of the old one and passes the check. -/
theorem echoReplyHeader_passes (ctx : IcmpContext) {iphdr : List UInt8} (odd : Bool)
    (hmin : ipHlen <= iphdr.length) (hmax : iphdr.length <= 60) :
    inetChksum odd (echoReplyHeader ctx iphdr) = 0 := by
  have haddresses : (iphdr.take 12 ++ (wordBytes ctx.dest ++ wordBytes ctx.src ++
      iphdr.drop 20)).length = iphdr.length := by
    simp only [wordBytes, List.length_append, List.length_take, List.length_drop,
      List.length_cons, List.length_nil]
    unfold ipHlen at hmin
    omega
  unfold echoReplyHeader
  generalize iphdr.take 12 ++ (wordBytes ctx.dest ++ wordBytes ctx.src ++ iphdr.drop 20) =
    exchanged at haddresses
  have hlength : (exchanged.take 8 ++ (icmpTtl :: exchanged.drop 9)).length = iphdr.length := by
    simp only [List.length_append, List.length_take, List.length_drop, List.length_cons]
    unfold ipHlen at hmin
    omega
  have hfield : 10 + 2 <= (exchanged.take 8 ++ (icmpTtl :: exchanged.drop 9)).length := by
    unfold ipHlen at hmin
    omega
  dsimp only
  rw [storeU16_storeU16 hfield]
  exact (inetChksum_accepts_iff false odd (by decide) hfield (by omega) _).mpr (Or.inl rfl)

/-- The fields of the header that a reply rewrites, and those that it keeps. -/
theorem echoReplyHeader_parts (ctx : IcmpContext) {iphdr : List UInt8}
    (hmin : ipHlen <= iphdr.length) :
    exists front ttl proto old0 old1 addresses options chksum,
      front.length = 8 ∧ addresses.length = 8 ∧
      iphdr = front ++ ttl :: proto :: old0 :: old1 :: (addresses ++ options) ∧
      echoReplyHeader ctx iphdr = front ++ 255 :: proto ::
        (wordBytes16 chksum ++ (wordBytes ctx.dest ++ wordBytes ctx.src ++ options)) := by
  unfold ipHlen at hmin
  have hfront : (iphdr.take 8).length = 8 := by
    rw [List.length_take]
    omega
  have hrest : 12 <= (iphdr.drop 8).length := by
    rw [List.length_drop]
    omega
  rw [← List.take_append_drop 8 iphdr]
  match iphdr.take 8, hfront, iphdr.drop 8, hrest with
  | [b0, b1, b2, b3, b4, b5, b6, b7], _, ttl :: proto :: old0 :: old1 ::
      s0 :: s1 :: s2 :: s3 :: d0 :: d1 :: d2 :: d3 :: options, _ =>
      exact ⟨[b0, b1, b2, b3, b4, b5, b6, b7], ttl, proto, old0, old1,
        [s0, s1, s2, s3, d0, d1, d2, d3], options, _, rfl, rfl, rfl, rfl⟩

/-- The corrected checksum is one that the receiver would have computed. -/
theorem echoReplyMessage_chksum {code : UInt8} {chksum : UInt16} {rest : List UInt8}
    (odd odd' : Bool) (hlength : rest.length + 4 <= 0x20000)
    (h : inetChksum odd' (0 :: code :: (wordBytes16 chksum ++ rest)) = 0) :
    chksum = inetChksum odd (0 :: code :: 0 :: 0 :: rest) ∨
      (inetChksum odd (0 :: code :: 0 :: 0 :: rest) = 0 ∧ chksum = 0xffff) := by
  have hstored : forall w, storeU16 (0 :: code :: 0 :: 0 :: rest) 2 w =
      0 :: code :: (wordBytes16 w ++ rest) := fun _ => rfl
  have hzero : wordBytes16 0 ++ rest = 0 :: 0 :: rest := rfl
  have haccepts := @inetChksum_accepts_iff odd odd' (0 :: code :: 0 :: 0 :: rest) 2
    (by decide) (by simp) (by simp only [List.length_cons]; omega) chksum
  rw [hstored, hstored, hzero] at haccepts
  exact haccepts.mp h

/--
Whatever echo request is answered, its checksum was right, and the reply passes
the checks of its receiver: the IP header, and the message in every way of cutting
it into pbufs.  The message is the request with type 0 and the checksum raised by 8
with end-around carry, which is the checksum computed anew up to the two zeros.  The
header has its time to live, checksum and addresses rewritten and nothing else.
-/
theorem icmpInput_reply_verifies (ctx : IcmpContext) (iphdr iphdr' message : List UInt8)
    (p p' : List ChksumPbuf) (odd : Bool) (hmax : iphdr.length <= 60)
    (hlength : (chainBytes p).length < 65536)
    (hreply : icmpInput ctx iphdr p = .reply iphdr' message)
    (hsent : chainBytes p' = message) :
    inetChksumPbuf p = 0 ∧ inetChksum odd iphdr' = 0 ∧ inetChksumPbuf p' = 0 ∧
      (exists code old0 old1 chksum rest,
        chainBytes p = 8 :: code :: old0 :: old1 :: rest ∧
        message = 0 :: code :: (wordBytes16 chksum ++ rest) ∧
        chksum.toNat =
          (if 0xffff < (loadU16 old0 old1).toNat + 8 then (loadU16 old0 old1).toNat + 8 - 0xffff
          else (loadU16 old0 old1).toNat + 8) ∧
        (chksum = inetChksum odd (0 :: code :: 0 :: 0 :: rest) ∨
          (inetChksum odd (0 :: code :: 0 :: 0 :: rest) = 0 ∧ chksum = 0xffff))) ∧
      (exists front ttl proto old0 old1 addresses options chksum,
        front.length = 8 ∧ addresses.length = 8 ∧
        iphdr = front ++ ttl :: proto :: old0 :: old1 :: (addresses ++ options) ∧
        iphdr' = front ++ 255 :: proto ::
          (wordBytes16 chksum ++ (wordBytes ctx.dest ++ wordBytes ctx.src ++ options))) := by
  rcases icmpInput_reply hreply with ⟨hmin, hchecked, hheader, hmessage, code, c0, c1, rest, hbytes⟩
  have hlen : (chainBytes p).length = rest.length + 4 := by
    rw [hbytes]
    rfl
  have hreplied : message =
      0 :: code :: (wordBytes16 (adjustEchoChksum (loadU16 c0 c1)) ++ rest) := by
    rw [hmessage, hbytes]
    rfl
  have hpassed := hchecked
  rw [inetChksumPbuf_eq_flat p false (by omega), inetChksum_eq_zero_iff false (by omega),
    hbytes] at hpassed
  have hshort : message.length <= 0x20000 := by
    rw [hreplied]
    simp only [wordBytes16, List.length_cons, List.length_append, List.length_nil]
    omega
  have hverifies : inetChksum false message = 0 := by
    rw [inetChksum_eq_zero_iff false hshort, hmessage, hbytes]
    exact echoReplyMessage_passes hpassed
  refine ⟨hchecked, ?_, ?_, ?_, ?_⟩
  · rw [hheader]
    exact echoReplyHeader_passes ctx odd hmin hmax
  · rw [inetChksumPbuf_eq_flat p' false (by rw [hsent]; exact hshort), hsent]
    exact hverifies
  · refine ⟨code, c0, c1, adjustEchoChksum (loadU16 c0 c1), rest, hbytes, hreplied, ?_, ?_⟩
    · rw [adjustEchoChksum_toNat]
      split
      · next hcarry =>
          rw [if_pos (by omega)]
          omega
      · next hfits =>
          rw [if_neg (by omega)]
    · rw [hreplied] at hverifies
      exact echoReplyMessage_chksum odd false (by omega) hverifies
  · rw [hheader]
    exact echoReplyHeader_parts ctx hmin

/-- A request of eight bytes in two pbufs, answered from 192.168.1.1. -/
theorem icmpInput_reply_verifies_at_ping :
    let ctx : IcmpContext := ⟨false, false, true, 0x0201a8c0, 0x0101a8c0⟩
    let iphdr := [0x45, 0, 0, 28, 0, 1, 0, 0, 64, 1, 247, 140, 192, 168, 1, 2, 192, 168, 1, 1]
    let iphdr' := [0x45, 0, 0, 28, 0, 1, 0, 0, 255, 1, 56, 140, 192, 168, 1, 1, 192, 168, 1, 2]
    let p : List ChksumPbuf := [⟨false, [8, 0, 0xf6, 0xff, 0], by decide⟩,
      ⟨false, [0, 1, 0], by decide⟩]
    let message := [0, 0, 0xfe, 0xff, 0, 0, 1, 0]
    icmpInput ctx iphdr p = .reply iphdr' message ∧ inetChksumPbuf p = 0 ∧
      inetChksum false iphdr' = 0 ∧ inetChksumPbuf [⟨false, message, by decide⟩] = 0 := by
  intro ctx iphdr iphdr' p message
  have hreply : icmpInput ctx iphdr p = .reply iphdr' message := by
    decide
  rcases icmpInput_reply_verifies ctx iphdr iphdr' message p [⟨false, message, by decide⟩] false
    (by decide) (by decide) hreply (by decide) with ⟨hchecked, hheader, hmessage, _, _⟩
  exact ⟨hreply, hchecked, hheader, hmessage⟩

end Net
end Ch579HttpLed
