import Ch579HttpLed.Net.InputChain

/-!
# Receiving while frames arrive

A call of `low_level_input` asks for the length of the head entry, allocates a
chain and copies, each by a call of its own, and frames may arrive in between.
Here the call is the sequence of these three calls, and an arrival with its run
of `ETH_IRQHandler` may fall between any two of them.

An arrival writes behind the pending entries or, on a full ring, into the one
slot that no pending entry uses.  So the head entry is the same when it is
measured and when it is copied, and it stays the head over any number of failed
allocations.
-/

namespace Ch579HttpLed
namespace Net

open Driver Foundation

/-!
# Frames and allocations of the build
-/

/-- A frame as the MAC stores it, which is never empty. -/
structure MacFrame extends Frame where
  length_pos : 1 <= bytes.length

/-- `pbuf_alloc(PBUF_RAW, len, PBUF_POOL)`: it may fail, and it lays out what it grants. -/
structure PoolAlloc where
  alloc : UInt16 -> Option PbufChain
  lens_eq : forall len p, alloc len = some p ->
    p.lens = pbufPoolLens (poolCapacity pbufPoolBufsize) len.toNat

/-!
# The calls inside `low_level_input`

The constructors are named after the call that runs next.  `recv` has the
payloads filled so far, the pbuf `q` of the loop and the pbufs behind it.
-/

inductive InputPc where
  | getLen
  | alloc (len : UInt16)
  | recv (len : UInt16) (filled : List (List UInt8)) (q : List UInt8)
      (next : List (List UInt8))
deriving DecidableEq, Repr

/--
The interface and the position in `low_level_input`.  `returned` has the payloads
of the chain that the last call returned, `none` for NULL.  The last two fields
are ghosts: the accepted frames that were not copied yet, and the oldest of them
at the time the length was last read.
-/
structure InputSchedule where
  eth : EthIf
  pc : InputPc
  returned : Option (List (List UInt8))
  pending : List Frame
  atLen : Option Frame

inductive ScheduleEvent where
  | arrive (f : MacFrame)
  | exec (pool : PoolAlloc)

/-- The test of the loop `for(q = p; q != NULL; q = q->next)`. -/
def loopPbufs (len : UInt16) (filled rest : List (List UInt8)) (s : InputSchedule) :
    InputSchedule :=
  match rest with
  | [] => { s with pc := .getLen, returned := some filled }
  | q :: next => { s with pc := .recv len filled q next }

/-- The next of the calls, with the statements up to the one after it. -/
def execInput (pool : PoolAlloc) (s : InputSchedule) : InputSchedule :=
  match s.pc with
  | .getLen =>
      let len := getRecvMacDataLen s.eth.mac
      let s := if 0 < len then { s with eth := countFrame s.eth } else s
      if len = 0 then { s with returned := none }
      else { s with pc := .alloc len, atLen := s.pending.head? }
  | .alloc len =>
      match pool.alloc len with
      | none => { s with pc := .getLen, returned := none }
      | some p => loopPbufs len [] p.payloads s
  | .recv len filled q next =>
      let r := ethRecX q (UInt16.ofNat q.length) s.eth.mac
      loopPbufs len (filled ++ [r.buf]) next
        { s with eth := { s.eth with mac := r.mac }, pending := s.pending.tail }

/-- A frame was accepted iff the handler advanced `RecvIndex`. -/
def scheduleStep (s : InputSchedule) : ScheduleEvent -> InputSchedule
  | .arrive f =>
      { s with
        eth := { s.eth with mac := frameArrival f.toFrame s.eth.mac }
        pending :=
          if (frameArrival f.toFrame s.eth.mac).para.recvIndex ≠
              s.eth.mac.para.recvIndex then
            s.pending ++ [f.toFrame]
          else s.pending }
  | .exec pool => execInput pool s

def scheduleStart (L : EthLayout) (mac : EthMac) (gpio : GpioB) (ledCount : UInt8) :
    InputSchedule where
  eth := ⟨ethStart L mac, gpio, ledCount⟩
  pc := .getLen
  returned := none
  pending := []
  atLen := none

/-!
# Agreement with the whole call
-/

theorem run_loopPbufs (pool : PoolAlloc) (len : UInt16) (rest : List (List UInt8))
    (filled : List (List UInt8)) (s : InputSchedule) :
    let t := run scheduleStep (loopPbufs len filled rest s)
      (List.replicate rest.length (.exec pool))
    t.pc = .getLen ∧
      t.eth = { s.eth with mac := (fillChain s.eth.mac rest).2 } ∧
      t.returned = some (filled ++ (fillChain s.eth.mac rest).1) := by
  induction rest generalizing filled s with
  | nil =>
      refine ⟨rfl, rfl, ?_⟩
      change some filled = some (filled ++ [])
      rw [List.append_nil]
  | cons q next ih =>
      -- one `ETHRecX` leads to the same loop over the rest of the chain
      have hrest := ih (filled ++ [(ethRecX q (UInt16.ofNat q.length) s.eth.mac).buf])
        { s with
          pc := .recv len filled q next
          eth := { s.eth with mac := (ethRecX q (UInt16.ofNat q.length) s.eth.mac).mac }
          pending := s.pending.tail }
      refine ⟨hrest.left, hrest.right.left, ?_⟩
      rw [fillChain, List.append_cons]
      exact hrest.right.right

/-- With no arrival in between, the calls add up to `low_level_input`. -/
theorem schedule_call_agrees (pool : PoolAlloc) (s : InputSchedule)
    (hpc : s.pc = .getLen) :
    exists n, 0 < n ∧
      let t := run scheduleStep s (List.replicate n (.exec pool))
      t.pc = .getLen ∧ t.eth = (lowLevelInput pool.alloc s.eth).2 ∧
        t.returned = (lowLevelInput pool.alloc s.eth).1.map PbufChain.payloads := by
  rcases s with ⟨eth, pc, returned, pending, atLen⟩
  subst hpc
  by_cases hzero : getRecvMacDataLen eth.mac = 0
  · refine ⟨1, Nat.one_pos, ?_⟩
    rw [lowLevelInput_of_len_eq_zero pool.alloc hzero]
    simp [scheduleStep, execInput, hzero]
  · have hpos : 0 < getRecvMacDataLen eth.mac := UInt16.pos_iff_ne_zero.mpr hzero
    cases halloc : pool.alloc (getRecvMacDataLen eth.mac) with
    | none =>
        refine ⟨2, Nat.two_pos, ?_⟩
        simp [List.replicate, scheduleStep, execInput, lowLevelInput, hzero, hpos, halloc]
    | some p =>
        refine ⟨p.payloads.length + 2, Nat.succ_pos _, ?_⟩
        have hloop := run_loopPbufs pool (getRecvMacDataLen eth.mac) p.payloads []
          ⟨countFrame eth, .alloc (getRecvMacDataLen eth.mac), returned, pending,
            pending.head?⟩
        simpa [List.replicate, scheduleStep, execInput, lowLevelInput, hzero, hpos,
          halloc, PbufChain.refill] using hloop

/-!
# The head entry

Once the length was read, the ring keeps the frame it was read from at its head
until the copy.  A frame fits one pool buffer, so the chain has one pbuf.
-/

/-- `f` is at the head now, and was when the length was last read. -/
def HeadSince (s : InputSchedule) (f : Frame) : Prop :=
  s.pending.head? = some f ∧ s.atLen = some f

/-- What a position inside the call relies on, for a property of the measured frame. -/
def HeadFacts (Since : Frame -> Prop) : InputPc -> Prop
  | .getLen => True
  | .alloc len => exists f, Since f ∧ len = f.len
  | .recv len filled q next =>
      exists f, Since f ∧ len = f.len ∧ filled = [] ∧ next = [] ∧
        q.length = f.bytes.length

theorem headFacts_mono {Since Since' : Frame -> Prop} {pc : InputPc}
    (hmono : forall f, Since f -> Since' f) (h : HeadFacts Since pc) :
    HeadFacts Since' pc := by
  cases pc with
  | getLen => exact True.intro
  | alloc len =>
      rcases h with ⟨f, hf, hrest⟩
      exact ⟨f, hmono f hf, hrest⟩
  | recv len filled q next =>
      rcases h with ⟨f, hf, hrest⟩
      exact ⟨f, hmono f hf, hrest⟩

structure ScheduleInv (L : EthLayout) (s : InputSchedule) : Prop where
  ring : RxRepresents L s.eth.mac s.pending
  pending_pos : forall f, f ∈ s.pending -> 1 <= f.bytes.length
  facts : HeadFacts (HeadSince s) s.pc

theorem scheduleStart_inv (L : EthLayout) (mac : EthMac) (gpio : GpioB)
    (ledCount : UInt8) : ScheduleInv L (scheduleStart L mac gpio ledCount) where
  ring := ethStart_represents L mac
  pending_pos := by
    intro f hf
    cases hf
  facts := True.intro

/-- What the pool grants for a frame of the ring is a single pbuf. -/
theorem PoolAlloc.single (pool : PoolAlloc) {f : Frame} {p : PbufChain}
    (halloc : pool.alloc f.len = some p) :
    exists q, p.payloads = [q] ∧ q.length = f.bytes.length := by
  have hle := f.length_le
  have hlens := pool.lens_eq f.len p halloc
  rw [f.len_toNat] at hlens
  have hcap : f.bytes.length <= poolCapacity pbufPoolBufsize :=
    Nat.le_trans hle (by decide)
  have hone : pbufPoolLens (poolCapacity pbufPoolBufsize) f.bytes.length =
      [f.bytes.length] := by
    simp [pbufPoolLens, pbufPoolLensLoop, Nat.min_eq_left hcap]
  rw [hone] at hlens
  exact List.map_eq_singleton_iff.mp hlens

/-!
# What one call does
-/

section Exec

variable {L : EthLayout} {s : InputSchedule} {pool : PoolAlloc}

theorem execInput_getLen_empty (h : ScheduleInv L s) (hpc : s.pc = .getLen)
    (hq : s.pending = []) : execInput pool s = { s with returned := none } := by
  have hcount := h.ring.count
  rw [hq] at hcount
  have hlen : getRecvMacDataLen s.eth.mac = 0 := if_pos hcount
  simp [execInput, hpc, hlen]

theorem execInput_getLen_head (h : ScheduleInv L s) (hpc : s.pc = .getLen)
    {f : Frame} {rest : List Frame} (hq : s.pending = f :: rest) :
    execInput pool s =
      { s with eth := countFrame s.eth, pc := .alloc f.len, atLen := some f } := by
  have hring := h.ring
  rw [hq] at hring
  have hlen : getRecvMacDataLen s.eth.mac = f.len := getRecvMacDataLen_eq hring
  have hne : f.len ≠ 0 := Frame.len_ne_zero (h.pending_pos f (by simp [hq]))
  have hpos : 0 < f.len := UInt16.pos_iff_ne_zero.mpr hne
  simp [execInput, hpc, hlen, hne, hpos, hq]

theorem execInput_alloc_null {len : UInt16} (hpc : s.pc = .alloc len)
    (halloc : pool.alloc len = none) :
    execInput pool s = { s with pc := .getLen, returned := none } := by
  simp [execInput, hpc, halloc]

theorem execInput_alloc_granted (h : ScheduleInv L s) {len : UInt16}
    (hpc : s.pc = .alloc len) {p : PbufChain} (halloc : pool.alloc len = some p) :
    exists f q, HeadSince s f ∧ len = f.len ∧ q.length = f.bytes.length ∧
      execInput pool s = { s with pc := .recv len [] q [] } := by
  have hfacts := h.facts
  rw [hpc] at hfacts
  rcases hfacts with ⟨f, hhead, hlen⟩
  rw [hlen] at halloc
  rcases pool.single halloc with ⟨q, hpay, hqlen⟩
  refine ⟨f, q, hhead, hlen, hqlen, ?_⟩
  simp [execInput, hpc, hlen, halloc, hpay, loopPbufs]

/-- The copy takes the whole frame whose length was read, and returns it. -/
theorem execInput_recv (h : ScheduleInv L s) {len : UInt16}
    {filled : List (List UInt8)} {q : List UInt8} {next : List (List UInt8)}
    (hpc : s.pc = .recv len filled q next) :
    exists f rest, s.pending = f :: rest ∧ s.atLen = some f ∧
      (ethRecX q (UInt16.ofNat q.length) s.eth.mac).recvLen = len ∧
      RxRepresents L (ethRecX q (UInt16.ofNat q.length) s.eth.mac).mac rest ∧
      forall pool, execInput pool s =
        { s with
          eth := { s.eth with mac := (ethRecX q (UInt16.ofNat q.length) s.eth.mac).mac }
          pc := .getLen
          returned := some [f.bytes]
          pending := rest } := by
  have hfacts := h.facts
  rw [hpc] at hfacts
  rcases hfacts with ⟨f, hhead, hlen, hfilled, hnext, hqlen⟩
  rcases List.head?_eq_some_iff.mp hhead.left with ⟨rest, hq⟩
  have hring := h.ring
  rw [hq] at hring
  have hbuf : (ethRecX q (UInt16.ofNat q.length) s.eth.mac).buf = f.bytes := by
    rw [ethRecX_buf_eq_take hring (Nat.le_of_eq hqlen), hqlen, List.take_length]
  rcases ethRecX_simulates_pop hring q (UInt16.ofNat q.length) with ⟨hcopy, hrest⟩
  refine ⟨f, rest, hq, hhead.right, ?_, hrest, ?_⟩
  · unfold deliver at hcopy
    injection hcopy with hcount _
    rw [hlen]
    apply UInt16.toNat_inj.mp
    rw [hcount, ofNat_length_toNat (Nat.le_of_eq hqlen), f.len_toNat, hqlen, Nat.min_self]
  · intro pool
    simp [execInput, hpc, loopPbufs, hfilled, hnext, hbuf, hq]

end Exec

/-!
# The invariant
-/

section Invariant

variable {L : EthLayout} {s : InputSchedule}

theorem execInput_inv (h : ScheduleInv L s) (pool : PoolAlloc) :
    ScheduleInv L (execInput pool s) := by
  cases hpc : s.pc with
  | getLen =>
      cases hq : s.pending with
      | nil =>
          rw [execInput_getLen_empty h hpc hq]
          exact ⟨h.ring, h.pending_pos, h.facts⟩
      | cons f rest =>
          rw [execInput_getLen_head h hpc hq]
          refine ⟨?_, h.pending_pos, ⟨f, ⟨?_, rfl⟩, rfl⟩⟩
          · rw [countFrame_mac]
            exact h.ring
          · rw [hq]
            rfl
  | alloc len =>
      cases halloc : pool.alloc len with
      | none =>
          rw [execInput_alloc_null hpc halloc]
          exact ⟨h.ring, h.pending_pos, True.intro⟩
      | some p =>
          rcases execInput_alloc_granted h hpc halloc with ⟨f, q, hhead, hlen, hqlen, hexec⟩
          rw [hexec]
          exact ⟨h.ring, h.pending_pos, ⟨f, hhead, hlen, rfl, rfl, hqlen⟩⟩
  | recv len filled q next =>
      rcases execInput_recv h hpc with ⟨f, rest, hq, -, -, hrest, hexec⟩
      rw [hexec pool]
      refine ⟨hrest, ?_, True.intro⟩
      intro g hg
      apply h.pending_pos
      rw [hq]
      exact List.mem_cons_of_mem _ hg

/-- An arrival appends to the pending frames or leaves them. -/
theorem arrive_pending (h : ScheduleInv L s) (f : MacFrame) :
    (scheduleStep s (.arrive f)).pending =
      (fifoPush (rxQueueNum - 1) s.pending f.toFrame).2 := by
  have haccepts := frameArrival_accepts h.ring f.toFrame
  unfold fifoPush at haccepts ⊢
  change (if (frameArrival f.toFrame s.eth.mac).para.recvIndex ≠
      s.eth.mac.para.recvIndex then s.pending ++ [f.toFrame] else s.pending) = _
  split at haccepts
  · next hroom =>
      rw [if_pos (of_decide_eq_true haccepts), if_pos hroom]
  · next hfull =>
      rw [if_neg (of_decide_eq_false haccepts), if_neg hfull]

theorem arrive_head (h : ScheduleInv L s) (f : MacFrame) {g : Frame}
    (hhead : s.pending.head? = some g) :
    (scheduleStep s (.arrive f)).pending.head? = some g := by
  rcases List.head?_eq_some_iff.mp hhead with ⟨rest, hq⟩
  rw [arrive_pending h, hq]
  unfold fifoPush
  split <;> rfl

theorem arrive_inv (h : ScheduleInv L s) (f : MacFrame) :
    ScheduleInv L (scheduleStep s (.arrive f)) where
  ring := by
    rw [arrive_pending h]
    exact frameArrival_simulates_push h.ring f.toFrame
  pending_pos := by
    intro g hg
    rw [arrive_pending h] at hg
    unfold fifoPush at hg
    split at hg
    · rcases List.mem_append.mp hg with hold | hnew
      · exact h.pending_pos g hold
      · rw [List.mem_singleton.mp hnew]
        exact f.length_pos
    · exact h.pending_pos g hg
  facts := by
    refine headFacts_mono ?_ h.facts
    intro g hhead
    exact ⟨arrive_head h f hhead.left, hhead.right⟩

theorem scheduleStep_inv (s : InputSchedule) (e : ScheduleEvent)
    (h : ScheduleInv L s) : ScheduleInv L (scheduleStep s e) := by
  cases e with
  | arrive f => exact arrive_inv h f
  | exec pool => exact execInput_inv h pool

end Invariant

/-!
# Retries
-/

def InputPc.isRecv : InputPc -> Bool
  | .recv _ _ _ _ => true
  | _ => false

/-- The event runs the copy of a call. -/
def Copies (s : InputSchedule) : ScheduleEvent -> Prop
  | .arrive _ => False
  | .exec _ => s.pc.isRecv = true

instance (s : InputSchedule) : (e : ScheduleEvent) -> Decidable (Copies s e)
  | .arrive _ => inferInstanceAs (Decidable False)
  | .exec _ => inferInstanceAs (Decidable (s.pc.isRecv = true))

/-- Only a copy takes the head from the ring. -/
theorem scheduleStep_head {L : EthLayout} {s : InputSchedule} (h : ScheduleInv L s)
    {f : Frame} (hhead : s.pending.head? = some f) {e : ScheduleEvent}
    (hcopy : ¬ Copies s e) : (scheduleStep s e).pending.head? = some f := by
  cases e with
  | arrive g => exact arrive_head h g hhead
  | exec pool =>
      change (execInput pool s).pending.head? = some f
      rcases List.head?_eq_some_iff.mp hhead with ⟨rest, hq⟩
      cases hpc : s.pc with
      | getLen =>
          rw [execInput_getLen_head h hpc hq]
          exact hhead
      | alloc len =>
          cases halloc : pool.alloc len with
          | none =>
              rw [execInput_alloc_null hpc halloc]
              exact hhead
          | some p =>
              rcases execInput_alloc_granted h hpc halloc with ⟨_, _, _, _, _, hexec⟩
              rw [hexec]
              exact hhead
      | recv len filled q next =>
          have hrecv : s.pc.isRecv = true := by
            rw [hpc]
            rfl
          exact absurd hrecv hcopy

theorem run_head {L : EthLayout} {s : InputSchedule} (h : ScheduleInv L s)
    {f : Frame} (hhead : s.pending.head? = some f) {es : List ScheduleEvent}
    (hcopy : AllSteps scheduleStep (fun t e => ¬ Copies t e) s es) :
    ScheduleInv L (run scheduleStep s es) ∧
      (run scheduleStep s es).pending.head? = some f := by
  have hstep : forall t e, ScheduleInv L t ∧ t.pending.head? = some f -> ¬ Copies t e ->
      ScheduleInv L (scheduleStep t e) ∧
        (scheduleStep t e).pending.head? = some f := by
    intro t e ht he
    exact ⟨scheduleStep_inv t e ht.left, scheduleStep_head ht.left ht.right he⟩
  exact run_invariant_of_allSteps hstep ⟨h, hhead⟩ hcopy

/-!
# Every schedule
-/

/-- Reading the length leaves the driver alone and measures the head of a nonempty ring. -/
def MeasuresHead (s : InputSchedule) : Prop :=
  s.pc = .getLen -> forall pool,
    (scheduleStep s (.exec pool)).eth.mac = s.eth.mac ∧
      forall f rest, s.pending = f :: rest ->
        (scheduleStep s (.exec pool)).pc = .alloc f.len ∧
          (scheduleStep s (.exec pool)).atLen = some f

/-- A copy that runs now moves as many bytes as were measured, and the call returns `f`. -/
def CopyReturns (s : InputSchedule) (f : Frame) : Prop :=
  forall len filled q next, s.pc = .recv len filled q next ->
    (ethRecX q (UInt16.ofNat q.length) s.eth.mac).recvLen = len ∧
      forall pool, (scheduleStep s (.exec pool)).pc = .getLen ∧
        (scheduleStep s (.exec pool)).returned = some [f.bytes]

/--
A failed allocation makes the call return NULL and leaves the driver alone, and
the next copy returns `f`.
-/
def FailsSafely (s : InputSchedule) (f : Frame) : Prop :=
  forall len pool, s.pc = .alloc len -> pool.alloc len = none ->
    let t := scheduleStep s (.exec pool)
    t.pc = .getLen ∧ t.returned = none ∧ t.eth = s.eth ∧
      forall later, AllSteps scheduleStep (fun u e => ¬ Copies u e) t later ->
        CopyReturns (run scheduleStep t later) f

theorem measuresHead_of_inv {L : EthLayout} {s : InputSchedule} (h : ScheduleInv L s) :
    MeasuresHead s := by
  intro hpc pool
  change (execInput pool s).eth.mac = s.eth.mac ∧ forall f rest, s.pending = f :: rest ->
    (execInput pool s).pc = .alloc f.len ∧ (execInput pool s).atLen = some f
  cases hq : s.pending with
  | nil =>
      rw [execInput_getLen_empty h hpc hq]
      constructor
      · rfl
      · intro f rest hcons
        cases hcons
  | cons g rest =>
      rw [execInput_getLen_head h hpc hq]
      constructor
      · exact countFrame_mac s.eth
      · intro f rest' hcons
        rw [(List.cons.inj hcons).left]
        exact ⟨rfl, rfl⟩

theorem copyReturns_of_head {L : EthLayout} {s : InputSchedule} (h : ScheduleInv L s)
    {f : Frame} (hhead : s.pending.head? = some f) : CopyReturns s f := by
  intro len filled q next hpc
  rcases execInput_recv h hpc with ⟨g, rest, hq, -, hlen, -, hexec⟩
  have hgf : g = f := by
    rw [hq] at hhead
    exact Option.some.inj hhead
  constructor
  · exact hlen
  · intro pool
    change (execInput pool s).pc = .getLen ∧ (execInput pool s).returned = some [f.bytes]
    rw [hexec pool, hgf]
    exact ⟨rfl, rfl⟩

theorem failsSafely_of_head {L : EthLayout} {s : InputSchedule} (h : ScheduleInv L s)
    {f : Frame} (hhead : s.pending.head? = some f) : FailsSafely s f := by
  intro len pool hpc halloc t
  have ht : t = { s with pc := .getLen, returned := none } :=
    execInput_alloc_null hpc halloc
  have hinv : ScheduleInv L t := scheduleStep_inv s (.exec pool) h
  have hkept : t.pending.head? = some f := by
    rw [ht]
    exact hhead
  refine ⟨by rw [ht], by rw [ht], by rw [ht], ?_⟩
  intro later hcopy
  have hrun := run_head hinv hkept hcopy
  exact copyReturns_of_head hrun.left hrun.right

/--
In every state of every schedule the ring holds the pending frames, a length is
read from the head, and between the reading and the copy the frame `f` that was
the head then is the one that matters: the length is that of `f`, a granted
allocation is followed by a copy of all of `f`, and a failed one by a return of
NULL that costs nothing, after which the next copy returns `f`, whatever arrives
and however many further allocations fail before it.
-/
theorem lowLevelInput_schedule (L : EthLayout) (mac : EthMac) (gpio : GpioB)
    (ledCount : UInt8) (es : List ScheduleEvent) :
    let s := run scheduleStep (scheduleStart L mac gpio ledCount) es
    RxRepresents L s.eth.mac s.pending ∧ MeasuresHead s ∧
      (forall len, s.pc = .alloc len ->
        exists f, s.atLen = some f ∧ len.toNat = f.bytes.length ∧ FailsSafely s f ∧
          forall pool p, pool.alloc len = some p ->
            exists q, scheduleStep s (.exec pool) = { s with pc := .recv len [] q [] }) ∧
      (forall len filled q next, s.pc = .recv len filled q next ->
        exists f, s.atLen = some f ∧ len.toNat = f.bytes.length ∧ CopyReturns s f) := by
  intro s
  have hinv : ScheduleInv L s :=
    run_invariant scheduleStep_inv (scheduleStart_inv L mac gpio ledCount) es
  refine ⟨hinv.ring, measuresHead_of_inv hinv, ?_, ?_⟩
  · intro len hpc
    have hfacts := hinv.facts
    rw [hpc] at hfacts
    rcases hfacts with ⟨f, hhead, hlen⟩
    refine ⟨f, hhead.right, ?_, failsSafely_of_head hinv hhead.left, ?_⟩
    · rw [hlen, f.len_toNat]
    · intro pool p halloc
      rcases execInput_alloc_granted hinv hpc halloc with ⟨_, q, _, _, _, hexec⟩
      exact ⟨q, hexec⟩
  · intro len filled q next hpc
    have hfacts := hinv.facts
    rw [hpc] at hfacts
    rcases hfacts with ⟨f, hhead, hlen, -⟩
    refine ⟨f, hhead.right, ?_, copyReturns_of_head hinv hhead.left⟩
    rw [hlen, f.len_toNat]

/-- A pool with no buffer left. -/
def PoolAlloc.exhausted : PoolAlloc where
  alloc := fun _ => none
  lens_eq := by
    intro len p h
    cases h

theorem pbufPoolLens_ne_nil (capacity length : Nat) :
    pbufPoolLens capacity length ≠ [] := by
  rw [pbufPoolLens, pbufPoolLensLoop]
  split <;> simp

theorem pbufPoolLens_sum_lt (len : UInt16) :
    (pbufPoolLens (poolCapacity pbufPoolBufsize) len.toNat).sum < 65536 := by
  have hlt : len.toNat < 65536 := len.toNat_lt
  rcases Nat.eq_zero_or_pos len.toNat with hzero | hpos
  · rw [hzero]
    decide
  · rw [pbufPoolLens_sum (by decide) hpos]
    exact hlt

/-- A pool that grants every request with buffers of zeros. -/
def PoolAlloc.zeroed : PoolAlloc where
  alloc := fun len => some (constantChain 0
    (pbufPoolLens (poolCapacity pbufPoolBufsize) len.toNat)
    (pbufPoolLens_ne_nil _ _) (pbufPoolLens_sum_lt len))
  lens_eq := by
    intro len p h
    cases h
    exact constantChain_lens _ _ _ _

/-- A frame of one byte. -/
def byteFrame (b : UInt8) : MacFrame where
  bytes := [b]
  length_le := Nat.le_trans (Nat.le_refl 1) (by decide)
  length_pos := Nat.le_refl 1

/-- The allocation for frame 1 fails, frame 2 fills the ring and frames 3 and 4 overflow it. -/
theorem lowLevelInput_schedule_at_overflow :
    let s := run scheduleStep (scheduleStart EthLayout.lowest EthMac.blank GpioB.reset 0)
      [.arrive (byteFrame 1), .exec .exhausted]
    let later := [.arrive (byteFrame 2), .arrive (byteFrame 3), .exec .zeroed,
      .arrive (byteFrame 4), .exec .zeroed]
    s.pc = .alloc 1 ∧
      (run scheduleStep (scheduleStep s (.exec .exhausted)) later).pc =
        .recv 1 [] [0] [] ∧
      (scheduleStep (run scheduleStep (scheduleStep s (.exec .exhausted)) later)
        (.exec .zeroed)).returned = some [[1]] := by
  intro s later
  have hpc : s.pc = .alloc 1 := by decide +kernel
  have hcopy : (run scheduleStep (scheduleStep s (.exec .exhausted)) later).pc =
      .recv 1 [] [0] [] := by decide +kernel
  refine ⟨hpc, hcopy, ?_⟩
  rcases (lowLevelInput_schedule EthLayout.lowest EthMac.blank GpioB.reset 0
    [.arrive (byteFrame 1), .exec .exhausted]).right.right.left 1 hpc with
    ⟨f, hatLen, -, hfails, -⟩
  have hf : some f = some (byteFrame 1).toFrame := by
    rw [← hatLen]
    decide +kernel
  have hreturns := (hfails 1 .exhausted hpc rfl).right.right.right later
    ⟨id, id, by decide +kernel, id, by decide +kernel, True.intro⟩
  rw [Option.some.inj hf] at hreturns
  exact ((hreturns 1 [] [0] [] hcopy).right .zeroed).right

end Net
end Ch579HttpLed
