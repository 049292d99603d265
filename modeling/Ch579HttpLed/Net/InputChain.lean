import Ch579HttpLed.Net.Ethernetif

/-!
# One frame for one call

A call of `low_level_input` is meant to move one ring entry into the chain it
returns.  It does so exactly if the chain has a single pbuf: a second pbuf takes
the next entry when there is one, and is left as the allocation found it when
there is none.
-/

namespace Ch579HttpLed
namespace Net

open Driver Foundation

/-- The call gives up exactly one entry and returns a chain with the bytes of `f`. -/
def TakesOneFrame (s : EthIf) (chain : PbufChain) (f : Frame) : Prop :=
  let r := lowLevelInput (fun _ => some chain) s
  r.2.mac.para.remainCout + 1 = s.mac.para.remainCout ∧
    r.2.mac.para.readIndex = ringSlot rxQueueNum s.mac.para.readIndex 1 ∧
    r.1.map PbufChain.bytes = some f.bytes

section HeadFrame

variable {L : EthLayout} {s : EthIf} {f : Frame} {rest : List Frame}

theorem remainCout_ne_zero (h : RxRepresents L s.mac (f :: rest)) :
    s.mac.para.remainCout ≠ 0 := by
  rw [h.count]
  simp

theorem getRecvMacDataLen_eq (h : RxRepresents L s.mac (f :: rest)) :
    getRecvMacDataLen s.mac = f.len := by
  have hhead : SlotHolds L s.mac s.mac.para.readIndex f :=
    ringHolds_head h.indices.read_lt h.slots
  unfold getRecvMacDataLen
  rw [if_neg (remainCout_ne_zero h)]
  exact hhead.left

theorem Frame.len_ne_zero (hpos : 1 <= f.bytes.length) : f.len ≠ 0 := by
  intro hzero
  have hlen := f.len_toNat
  rw [hzero] at hlen
  simp at hlen
  lia

/-- What a call returns and leaves behind when the allocation succeeds. -/
theorem lowLevelInput_takes (h : RxRepresents L s.mac (f :: rest))
    (hpos : 1 <= f.bytes.length) (chain : PbufChain) :
    (lowLevelInput (fun _ => some chain) s).1.map PbufChain.bytes =
        some (fillChain s.mac chain.payloads).1.flatten ∧
      (lowLevelInput (fun _ => some chain) s).2.mac =
        (fillChain s.mac chain.payloads).2 := by
  have hne : getRecvMacDataLen s.mac ≠ 0 := by
    rw [getRecvMacDataLen_eq h]
    exact Frame.len_ne_zero hpos
  have hcall : (lowLevelInput (fun _ => some chain) s).1.map PbufChain.payloads =
        some (fillChain s.mac chain.payloads).1 ∧
      (lowLevelInput (fun _ => some chain) s).2.mac =
        (fillChain s.mac chain.payloads).2 :=
    lowLevelInput_of_alloc hne rfl
  refine ⟨?_, hcall.right⟩
  cases hr : (lowLevelInput (fun _ => some chain) s).1 with
  | none =>
      rw [hr] at hcall
      simp at hcall
  | some p =>
      rw [hr] at hcall
      have hpay : p.payloads = (fillChain s.mac chain.payloads).1 := by
        simpa using hcall.left
      rw [← hpay]
      rfl

/-!
# The first pbuf
-/

theorem ofNat_length_toNat {q : List UInt8} (hq : q.length <= f.bytes.length) :
    (UInt16.ofNat q.length).toNat = q.length := by
  have hle := f.length_le
  unfold rxBufSize at hle
  rw [UInt16.toNat_ofNat']
  lia

/-- A pbuf no longer than the head frame is filled with a prefix of it. -/
theorem ethRecX_buf_eq_take (h : RxRepresents L s.mac (f :: rest))
    {q : List UInt8} (hq : q.length <= f.bytes.length) :
    (ethRecX q (UInt16.ofNat q.length) s.mac).buf = f.bytes.take q.length := by
  have hcopy := (ethRecX_simulates_pop h q (UInt16.ofNat q.length)).left
  unfold deliver at hcopy
  rw [ofNat_length_toNat hq, Nat.min_eq_right hq] at hcopy
  have hbuf : (ethRecX q (UInt16.ofNat q.length) s.mac).buf =
      overwrite q (f.bytes.take q.length) := by
    injection hcopy
  rw [hbuf, overwrite_of_length_le]
  rw [List.length_take, Nat.min_eq_left hq]

theorem takesOneFrame_single (h : RxRepresents L s.mac (f :: rest))
    (hpos : 1 <= f.bytes.length) {chain : PbufChain}
    (hlens : chain.lens = [f.bytes.length]) : TakesOneFrame s chain f := by
  rcases lowLevelInput_takes h hpos chain with ⟨hbytes, hmac⟩
  unfold PbufChain.lens at hlens
  rcases List.map_eq_singleton_iff.mp hlens with ⟨q, hpay, hqlen⟩
  rcases fillChain_counts h.indices chain.payloads with ⟨-, hcount, hslot⟩
  have hone : chain.payloads.length = 1 := by
    rw [hpay]
    rfl
  have hremain := remainCout_ne_zero h
  rw [hone] at hcount hslot
  refine ⟨?_, ?_, ?_⟩
  · rw [hmac, hcount]
    lia
  · rw [hmac, hslot]
    congr 1
    lia
  · rw [hbytes, hpay, fillChain]
    have hbuf := ethRecX_buf_eq_take h (Nat.le_of_eq hqlen)
    simp only [fillChain, hbuf, List.flatten_singleton]
    rw [hqlen, List.take_length]

/-!
# A second pbuf

`constantChain` is a chain whose payloads were all filled with one value before
the call.  Nothing in the call tells that value from the bytes of the frame.
-/

def constantChain (v : UInt8) (lens : List Nat) (hne : lens ≠ [])
    (hsum : lens.sum < 65536) : PbufChain where
  payloads := lens.map (fun n => List.replicate n v)
  nonempty := by simpa using hne
  length_lt := by
    rw [List.length_flatten, List.map_map]
    have hmap : List.map (List.length ∘ fun n => List.replicate n v) lens = lens := by
      simp [Function.comp_def]
    rw [hmap]
    exact hsum

theorem constantChain_lens (v : UInt8) (lens : List Nat) (hne : lens ≠ [])
    (hsum : lens.sum < 65536) : (constantChain v lens hne hsum).lens = lens := by
  simp [PbufChain.lens, constantChain, Function.comp_def]

/-- With no further entry the byte behind the first pbuf is the one found there. -/
theorem second_pbuf_untouched (h : RxRepresents L s.mac (f :: rest))
    (hlast : s.mac.para.remainCout = 1) (hpos : 1 <= f.bytes.length) (v : UInt8)
    {m n : Nat} {ns : List Nat} (hne : m :: n :: ns ≠ [])
    (hlt : (m :: n :: ns).sum < 65536) (hm : m <= f.bytes.length) (hn : 1 <= n)
    (htakes : TakesOneFrame s (constantChain v (m :: n :: ns) hne hlt) f) :
    f.bytes[m]? = some v := by
  have hbytes := (lowLevelInput_takes h hpos (constantChain v (m :: n :: ns) hne hlt)).left
  rw [htakes.right.right] at hbytes
  have hflat : f.bytes =
      (fillChain s.mac (constantChain v (m :: n :: ns) hne hlt).payloads).1.flatten := by
    simpa using hbytes
  have hqlen : (List.replicate m v).length <= f.bytes.length := by
    simpa using hm
  have hbuf := ethRecX_buf_eq_take h hqlen
  have hempty : (ethRecX (List.replicate m v)
      (UInt16.ofNat (List.replicate m v).length) s.mac).mac.para.remainCout = 0 := by
    have hremain := (ethRecX_nonempty h.indices (remainCout_ne_zero h)
      (List.replicate m v) (UInt16.ofNat (List.replicate m v).length)).right.left
    lia
  have hfill : (fillChain s.mac (constantChain v (m :: n :: ns) hne hlt).payloads).1 =
      f.bytes.take m ::
        List.replicate n v :: ns.map (fun k => List.replicate k v) := by
    show (fillChain s.mac (List.replicate m v :: List.replicate n v ::
      ns.map (fun k => List.replicate k v))).1 = _
    rw [fillChain, fillChain_empty hempty, hbuf, List.length_replicate]
  rw [hfill, List.flatten_cons, List.flatten_cons] at hflat
  have hget := congrArg (fun bs => bs[m]?) hflat
  have htake : (f.bytes.take m).length = m := by
    rw [List.length_take, Nat.min_eq_left hm]
  rw [hget, List.getElem?_append_right (Nat.le_of_eq htake), htake, Nat.sub_self,
    List.getElem?_append_left (by rw [List.length_replicate]; exact hn),
    List.getElem?_replicate]
  exact if_pos hn

/-- A chain layout with a second pbuf fails for some contents of the chain. -/
theorem not_takesOneFrame_of_two (h : RxRepresents L s.mac (f :: rest))
    (hpos : 1 <= f.bytes.length) {m n : Nat} {ns : List Nat} (hn : 1 <= n)
    (hsum : (m :: n :: ns).sum = f.bytes.length) :
    ¬ forall chain : PbufChain, chain.lens = m :: n :: ns ->
        TakesOneFrame s chain f := by
  intro hall
  have hle := f.length_le
  have hm : m <= f.bytes.length := by
    rw [← hsum, List.sum_cons]
    lia
  have hne : m :: n :: ns ≠ [] := by
    simp
  have hlt : (m :: n :: ns).sum < 65536 := by
    unfold rxBufSize at hle
    lia
  have htakes : forall v, TakesOneFrame s (constantChain v (m :: n :: ns) hne hlt) f := by
    intro v
    exact hall _ (constantChain_lens v _ hne hlt)
  by_cases hlast : s.mac.para.remainCout = 1
  · have hzero := second_pbuf_untouched h hlast hpos 0 hne hlt hm hn (htakes 0)
    have hone := second_pbuf_untouched h hlast hpos 1 hne hlt hm hn (htakes 1)
    rw [hzero] at hone
    simp at hone
  · have hmac := (lowLevelInput_takes h hpos (constantChain 0 (m :: n :: ns) hne hlt)).right
    have hcount := (fillChain_counts h.indices
      (constantChain 0 (m :: n :: ns) hne hlt).payloads).right.left
    have hremain := (htakes 0).left
    rw [hmac, hcount] at hremain
    have hlen : (constantChain 0 (m :: n :: ns) hne hlt).payloads.length =
        ns.length + 2 := by
      simp [constantChain]
    have hpending := remainCout_ne_zero h
    lia

end HeadFrame

/-!
# The exact condition
-/

theorem takesOneFrame_iff_single {L : EthLayout} {s : EthIf} {f : Frame}
    {rest : List Frame} (h : RxRepresents L s.mac (f :: rest))
    (hpos : 1 <= f.bytes.length) {lens : List Nat}
    (hlens : forall n, n ∈ lens -> 1 <= n) (hsum : lens.sum = f.bytes.length) :
    (forall chain : PbufChain, chain.lens = lens -> TakesOneFrame s chain f) <->
      lens.length = 1 := by
  match lens with
  | [] =>
      simp at hsum
      lia
  | [n] =>
      have hn : n = f.bytes.length := by
        simpa using hsum
      subst hn
      simp only [List.length_singleton, iff_true]
      intro chain hchain
      exact takesOneFrame_single h hpos hchain
  | m :: n :: ns =>
      have hfails := not_takesOneFrame_of_two h hpos (hlens n (by simp)) hsum
      constructor
      · intro hall
        exact absurd hall hfails
      · intro hlen
        simp at hlen

/--
In every reachable ring state with a nonempty head frame, a call takes exactly
that frame whatever the chain held before if and only if the chain has one
pbuf; for the layout that the pool gives, if and only if the frame fits into
one pool buffer.
-/
theorem lowLevelInput_takesOneFrame_iff (L : EthLayout) (mac : EthMac)
    (ops : List RxOp) (gpio : GpioB) (ledCount : UInt8) (f : Frame)
    (rest : List Frame) (hhead : undelivered ops = f :: rest)
    (hpos : 1 <= f.bytes.length) :
    let s : EthIf := ⟨answeringRun rxStep (ethStart L mac) ops, gpio, ledCount⟩
    (forall (B : Nat) (lens : List Nat), (forall n, n ∈ lens -> 1 <= n ∧ n <= B) ->
        lens.sum = f.bytes.length ->
        ((forall chain : PbufChain, chain.lens = lens -> TakesOneFrame s chain f) <->
          lens.length = 1)) ∧
      forall B, 0 < poolCapacity B ->
        ((forall chain : PbufChain,
            chain.lens = pbufPoolLens (poolCapacity B) f.bytes.length ->
            TakesOneFrame s chain f) <->
          f.bytes.length <= poolCapacity B) := by
  intro s
  have hrep : RxRepresents L s.mac (f :: rest) := by
    rw [← hhead]
    exact (rxRun_represents L mac ops).right
  constructor
  · intro B lens hlens hsum
    exact takesOneFrame_iff_single hrep hpos (fun n hn => (hlens n hn).left) hsum
  · intro B hcap
    rw [← pbufPoolLens_length_eq_one_iff hcap]
    exact takesOneFrame_iff_single hrep hpos
      (fun n hn => (pbufPoolLens_bounds hcap hpos hn).left) (pbufPoolLens_sum hcap hpos)

/-- A frame of `n` zero bytes. -/
def zeroFrame (n : Nat) (h : n <= rxBufSize) : Frame where
  bytes := List.replicate n 0
  length_le := by simpa using h

theorem lowLevelInput_takesOneFrame_iff_at_sample :
    let f := zeroFrame 60 (by decide)
    let s : EthIf := ⟨answeringRun rxStep (ethStart EthLayout.lowest EthMac.blank)
      [.arrive f], GpioB.reset, 0⟩
    undelivered [.arrive f] = [f] ∧
      ((forall chain : PbufChain, chain.lens = [60] -> TakesOneFrame s chain f) <->
        [60].length = 1) := by
  intro f s
  have hlens : forall n, n ∈ [60] -> 1 <= n ∧ n <= 1088 := by
    simp
  exact ⟨rfl, (lowLevelInput_takesOneFrame_iff EthLayout.lowest EthMac.blank
    [.arrive f] GpioB.reset 0 f [] rfl (by decide)).left 1088 [60] hlens rfl⟩

/-- With buffers of 128 bytes, one call for a frame of 200 bytes empties a ring of two. -/
theorem lowLevelInput_takes_two_frames :
    let f := zeroFrame 200 (by decide)
    let s : EthIf := ⟨answeringRun rxStep (ethStart EthLayout.lowest EthMac.blank)
      [.arrive f, .arrive f], GpioB.reset, 0⟩
    let chain := constantChain 0 [128, 72] (by decide) (by decide)
    chain.lens = pbufPoolLens (poolCapacity 128) f.bytes.length ∧
      s.mac.para.remainCout = 2 ∧
      (lowLevelInput (fun _ => some chain) s).2.mac.para.remainCout = 0 ∧
      ¬ TakesOneFrame s chain f := by
  intro f s chain
  have hrep : RxRepresents EthLayout.lowest s.mac [f, f] :=
    (rxRun_represents EthLayout.lowest EthMac.blank [.arrive f, .arrive f]).right
  have hbefore : s.mac.para.remainCout = 2 := hrep.count
  have hlen : f.bytes.length = 200 := List.length_replicate
  have hafter : (lowLevelInput (fun _ => some chain) s).2.mac.para.remainCout = 0 := by
    rw [(lowLevelInput_takes hrep (by lia) chain).right,
      (fillChain_counts hrep.indices chain.payloads).right.left, hbefore]
    rfl
  have hlayout : chain.lens = pbufPoolLens (poolCapacity 128) f.bytes.length := by
    rw [hlen]
    exact constantChain_lens 0 [128, 72] (by decide) (by decide)
  refine ⟨hlayout, hbefore, hafter, ?_⟩
  intro htakes
  have hcount := htakes.left
  rw [hafter, hbefore] at hcount
  exact absurd hcount (by decide)

end Net
end Ch579HttpLed
