import Ch579HttpLed.Http.Httpd

/-!
# What a connection sends

The model of the server takes the outcome of a write as given.  Here `http_write`
is modelled with its loop, which offers `tcp_write` less and less data, against a
control block that answers every call as it likes, and the bytes that were taken
are recorded.  Every step is a step of the server for some outcome of the write.
Whatever a client sends and however TCP answers, a connection sends a front part
of one response, the one for the URI that the hook was called with, and calls
`http_eof` only when it has sent all of it.
-/

namespace Ch579HttpLed
namespace Http

open App Driver Foundation Net

/-!
# Writing
-/

inductive ErrT where
  | ok
  | mem
  | other
deriving DecidableEq, Repr

def tcpMss : Nat := 1088

def tcpSndBuf : Nat := 2 * tcpMss

def tcpSndQueuelen : Nat := 2 * tcpSndBuf / tcpMss

/-- The result of one `tcp_write`, and what the control block shows after it. -/
structure TcpAnswer where
  err : ErrT
  sndbuf : UInt16
  sndqueuelen : UInt16

/-- A control block during one callback: its answers by the number of the call. -/
structure TcpPcb where
  sndbuf : UInt16
  mss : UInt16
  answer : Nat -> TcpAnswer
  closed : Bool          -- tcp_close succeeds

/-- The `do` loop of `http_write`; the result is the last error and the last length. -/
def httpWriteLoop (answer : Nat -> TcpAnswer) : Nat -> Nat -> Nat -> ErrT × Nat
  | 0, _, len => (.mem, len)
  | fuel + 1, call, len =>
      let a := answer call
      if a.err = .mem then
        let len := if a.sndbuf = 0 ∨ a.sndqueuelen.toNat >= tcpSndQueuelen then 1 else len / 2
        if len > 1 then httpWriteLoop answer fuel (call + 1) len else (.mem, len)
      else
        (a.err, len)

/-- The length that `http_write` offers first. -/
def firstLen (pcb : TcpPcb) (length : Nat) : Nat :=
  min (min length pcb.sndbuf.toNat) (2 * pcb.mss.toNat % 65536)

-- A `u16_t` is halved at most sixteen times before it is one.
def httpWrite (pcb : TcpPcb) (length : Nat) : ErrT × Nat :=
  if length = 0 then (.ok, 0)
  else
    match httpWriteLoop pcb.answer 17 0 (firstLen pcb length) with
    | (.ok, len) => (.ok, len)
    | (err, _) => (err, 0)

/-!
# Serving with a control block
-/

/-- A connection with a record of what it was asked and what it sent. -/
structure Served where
  sys : HttpSystem
  request : Option (List UInt8)  -- the data in which a complete request was found
  wire : List UInt8              -- the bytes that tcp_write has taken
  eof : Bool                     -- http_eof was called

def Served.setConn (s : Served) (c : HttpConn) : Served :=
  { s with sys := { s.sys with conn := c } }

def Served.close (s : Served) (pcb : TcpPcb) : Served :=
  s.setConn (httpCloseConn ⟨none, pcb.closed⟩)

/-- `http_eof` on a connection that is not persistent. -/
def httpEof (pcb : TcpPcb) (s : Served) : Served :=
  { s.close pcb with eof := true }

/-- `tcp_write` took the next `len` bytes of the file. -/
def Served.wrote (s : Served) (hs : HttpState) (len : Nat) : Served where
  sys := { s.sys with conn := { s.sys.conn with
    hs := some { hs with
      file := hs.file.map (fun data => data.drop len)
      left := hs.left - len } } }
  request := s.request
  wire := s.wire ++ (hs.file.getD []).take len
  eof := s.eof

def httpSendDataNonssi (pcb : TcpPcb) (hs : HttpState) (s : Served) : Served :=
  match httpWrite pcb (min hs.left 0xffff) with
  | (.ok, len) => s.wrote hs len
  | (_, _) => s

def httpSendPcb (pcb : TcpPcb) (s : Served) : Served :=
  match s.sys.conn.hs with
  | none => s
  | some hs =>
      if hs.left = 0 then httpEof pcb s
      else
        let s := httpSendDataNonssi pcb hs s
        match s.sys.conn.hs with
        | some hs => if hs.left = 0 then httpEof pcb s else s
        | none => s

def httpRecvPcb (fsRoot : List FsdataFile) (ok : Bool) (p : Option PbufChain)
    (pcb : TcpPcb) (s : Served) : Served :=
  match ok, p, s.sys.conn.hs with
  | true, some p, some hs =>
      if hs.handle.isNone then
        match httpParseRequest fsRoot p.payloads hs s.sys.hook with
        | (.inProgress, hs, h) =>
            { s with sys := { conn := { s.sys.conn with hs := some hs }, hook := h } }
        | (.ok, found, h) =>
            httpSendPcb pcb { s with
              sys := { conn := { s.sys.conn with hs := some { found with req := [] } }, hook := h }
              request := some (reqData (hs.req ++ p.payloads)) }
        | (.arg, _, h) => { s with sys := { conn := httpCloseConn ⟨none, pcb.closed⟩, hook := h } }
        | (.use, hs, h) =>
            { s with sys :=
              { conn := { s.sys.conn with hs := some { hs with req := [] } }, hook := h } }
      else s
  | _, _, _ => s.close pcb

def httpSentPcb (pcb : TcpPcb) (s : Served) : Served :=
  match s.sys.conn.hs with
  | none => s
  | some hs =>
      httpSendPcb pcb (s.setConn { s.sys.conn with hs := some { hs with retries := 0 } })

def httpPollPcb (pcb : TcpPcb) (s : Served) : Served :=
  match s.sys.conn.hs with
  | none => s.close pcb
  | some hs =>
      let hs := { hs with retries := hs.retries + 1 }
      let s := s.setConn { s.sys.conn with hs := some hs }
      if hs.retries = httpdMaxRetries then s.close pcb
      else if hs.handle.isSome then httpSendPcb pcb s
      else s

inductive ServeEvent where
  | recv (ok : Bool) (p : Option PbufChain) (pcb : TcpPcb)
  | sent (pcb : TcpPcb)
  | poll (pcb : TcpPcb)
  | err

def serveStep (fsRoot : List FsdataFile) (s : Served) : ServeEvent -> Served
  | .recv ok p pcb => if s.sys.conn.recvSet then httpRecvPcb fsRoot ok p pcb s else s
  | .sent pcb => if s.sys.conn.sentSet then httpSentPcb pcb s else s
  | .poll pcb => if s.sys.conn.pollSet then httpPollPcb pcb s else s
  | .err => s.setConn ⟨none, false, false, false⟩

def serveStart (actions : Actions) : Served where
  sys := { conn := httpAccept, hook := { actions := actions, called := [] } }
  request := none
  wire := []
  eof := false

/-!
# The loop of writes
-/

section Writes

variable {answer : Nat -> TcpAnswer} {pcb : TcpPcb}

/-- One more turn of the fuel changes nothing: the length is one before it runs out. -/
theorem httpWriteLoop_fuel (fuel call : Nat) {len : Nat} (hlen : len < 2 ^ (fuel + 1)) :
    httpWriteLoop answer (fuel + 2) call len = httpWriteLoop answer (fuel + 1) call len := by
  induction fuel generalizing call len with
  | zero =>
      have hshort : forall c : Prop, [Decidable c] -> ¬ (if c then 1 else len / 2) > 1 := by
        intro c _
        split
        · lia
        · lia
      unfold httpWriteLoop
      simp only [if_neg (hshort _)]
  | succ fuel ih =>
      rw [httpWriteLoop]
      conv_rhs => rw [httpWriteLoop]
      simp only
      have hhalf : forall c : Prop, [Decidable c] ->
          (if c then 1 else len / 2) < 2 ^ (fuel + 1) := by
        intro c _
        split
        · exact Nat.one_lt_two_pow (Nat.succ_ne_zero fuel)
        · rw [Nat.pow_succ] at hlen
          lia
      rw [ih (call + 1) (hhalf _)]

theorem httpWriteLoop_ok_le {fuel call len n : Nat}
    (h : httpWriteLoop answer fuel call len = (.ok, n)) : n <= len := by
  induction fuel generalizing call len with
  | zero =>
      cases h
  | succ fuel ih =>
      rw [httpWriteLoop] at h
      simp only at h
      split at h
      · split at h
        · rw [if_neg (Nat.lt_irrefl 1)] at h
          cases h
        · split at h
          · exact Nat.le_trans (ih h) (Nat.div_le_self len 2)
          · cases h
      · exact Nat.le_of_eq (congrArg Prod.snd h).symm

theorem httpWrite_ok_le {length n : Nat} (h : httpWrite pcb length = (.ok, n)) :
    n <= length := by
  unfold httpWrite at h
  split at h
  · cases h
    exact Nat.zero_le _
  · split at h
    next hloop =>
      cases h
      apply Nat.le_trans (httpWriteLoop_ok_le hloop)
      unfold firstLen
      lia
    next =>
      have hzero : 0 = n := congrArg Prod.snd h
      rw [← hzero]
      exact Nat.zero_le _

end Writes

/-!
# Steps of the server
-/

section Simulation

variable {fsRoot : List FsdataFile} {s : Served} {pcb : TcpPcb} {hs : HttpState}

/-- All that a send can do with an open connection. -/
theorem httpSendPcb_cases (pcb : TcpPcb) (hhs : s.sys.conn.hs = some hs) :
    (hs.left = 0 ∧ httpSendPcb pcb s = httpEof pcb s) ∨
    (hs.left ≠ 0 ∧ (httpWrite pcb (min hs.left 0xffff)).1 ≠ .ok ∧ httpSendPcb pcb s = s) ∨
    (exists len, hs.left ≠ 0 ∧ len <= min hs.left 0xffff ∧
      httpWrite pcb (min hs.left 0xffff) = (.ok, len) ∧
      httpSendPcb pcb s =
        if hs.left - len = 0 then httpEof pcb (s.wrote hs len) else s.wrote hs len) := by
  unfold httpSendPcb
  rw [hhs]
  simp only
  rcases Decidable.em (hs.left = 0) with hzero | hsome
  · rw [if_pos hzero]
    exact Or.inl ⟨hzero, rfl⟩
  · apply Or.inr
    rw [if_neg hsome]
    unfold httpSendDataNonssi
    cases hwrite : httpWrite pcb (min hs.left 0xffff) with
    | mk err len =>
        cases err with
        | ok =>
            exact Or.inr ⟨len, hsome, httpWrite_ok_le hwrite, rfl, rfl⟩
        | mem =>
            apply Or.inl
            simp only [hhs]
            exact ⟨hsome, by decide, if_neg hsome⟩
        | other =>
            apply Or.inl
            simp only [hhs]
            exact ⟨hsome, by decide, if_neg hsome⟩

end Simulation

/-!
# One response, from its start and complete at the end
-/

/-- The file behind its first empty line, or all of it without one. -/
def withoutHeader (data : List UInt8) : List UInt8 :=
  match lwipStrnstr data (crlf ++ crlf) with
  | some i => data.drop (i + 4)
  | none => data

/-- The bytes of the response: the file, without its header for HTTP/0.9, nothing without a file. -/
def responseOf (fsRoot : List FsdataFile) (uri : List UInt8) (is09 : Bool) : List UInt8 :=
  match findRequestedFile fsRoot uri with
  | none => []
  | some f => if is09 && f.headerIncluded then withoutHeader f.data else f.data

/-- A connection that was asked for a URI, by the data that it recorded. -/
structure Asked (s : Served) (uri : List UInt8) (is09 : Bool) : Prop where
  request : exists data, s.request = some data ∧ scanRequest data = .complete uri is09
  called : s.sys.hook.called = [uri]

theorem Asked.setConn {s : Served} {uri : List UInt8} {is09 : Bool} (h : Asked s uri is09)
    (c : HttpConn) : Asked (s.setConn c) uri is09 :=
  ⟨h.request, h.called⟩

theorem Asked.eof {s : Served} {uri : List UInt8} {is09 : Bool} (h : Asked s uri is09)
    (pcb : TcpPcb) : Asked (httpEof pcb s) uri is09 :=
  ⟨h.request, h.called⟩

theorem Asked.wrote {s : Served} {uri : List UInt8} {is09 : Bool} (h : Asked s uri is09)
    (hs : HttpState) (len : Nat) : Asked (s.wrote hs len) uri is09 :=
  ⟨h.request, h.called⟩

theorem Asked.scan {s : Served} {uri : List UInt8} {is09 : Bool} (h : Asked s uri is09)
    {data : List UInt8} (hdata : s.request = some data) :
    scanRequest data = .complete uri is09 := by
  rcases h.request with ⟨data', hdata', hscan⟩
  have hsame : data' = data := Option.some.inj (hdata'.symm.trans hdata)
  rw [← hsame]
  exact hscan

/-- The phases of a connection. -/
inductive Phase (fsRoot : List FsdataFile) (s : Served) : Prop where
  | waiting (hs : HttpState) (hconn : s.sys.conn.hs = some hs) (hhandle : hs.handle = none)
      (hfile : hs.file = none) (hleft : hs.left = 0) (hcalled : s.sys.hook.called = [])
      (hrequest : s.request = none) (hwire : s.wire = []) (heof : s.eof = false)
  | gone (hconn : s.sys.conn.hs = none) (hcalled : s.sys.hook.called = [])
      (hrequest : s.request = none) (hwire : s.wire = [])
  | sending (uri : List UInt8) (is09 : Bool) (hs : HttpState) (rest : List UInt8)
      (hconn : s.sys.conn.hs = some hs) (hhandle : hs.handle.isSome = true)
      (hfile : hs.file = some rest) (hleft : hs.left = rest.length) (hpos : hs.left ≠ 0)
      (hasked : Asked s uri is09) (hwire : s.wire ++ rest = responseOf fsRoot uri is09)
      (heof : s.eof = false)
  | done (uri : List UInt8) (is09 : Bool) (hconn : s.sys.conn.hs = none)
      (hasked : Asked s uri is09) (hwire : s.wire <+: responseOf fsRoot uri is09)
      (heof : s.eof = true -> s.wire = responseOf fsRoot uri is09)

section Phases

variable {fsRoot : List FsdataFile} {s : Served} {pcb : TcpPcb}

theorem Phase.ofClosed (h : Phase fsRoot s) {c : HttpConn} (hc : c.hs = none) :
    Phase fsRoot (s.setConn c) := by
  cases h with
  | waiting hs hconn hhandle hfile hleft hcalled hrequest hwire heof =>
      exact .gone hc hcalled hrequest hwire
  | gone hconn hcalled hrequest hwire =>
      exact .gone hc hcalled hrequest hwire
  | sending uri is09 hs rest hconn hhandle hfile hleft hpos hasked hwire heof =>
      refine .done uri is09 hc (hasked.setConn c) ⟨rest, hwire⟩ ?_
      intro hc'
      rw [show (s.setConn c).eof = s.eof from rfl, heof] at hc'
      cases hc'
  | done uri is09 hconn hasked hwire heof =>
      exact .done uri is09 hc (hasked.setConn c) hwire heof

/-- A send of the file keeps the response together. -/
theorem Phase.send {uri : List UInt8} {is09 : Bool} {hs : HttpState} {rest : List UInt8}
    (hconn : s.sys.conn.hs = some hs) (hhandle : hs.handle.isSome = true)
    (hfile : hs.file = some rest) (hleft : hs.left = rest.length)
    (hasked : Asked s uri is09) (hwire : s.wire ++ rest = responseOf fsRoot uri is09)
    (heof : s.eof = false) (pcb : TcpPcb) : Phase fsRoot (httpSendPcb pcb s) := by
  rcases httpSendPcb_cases pcb hconn with
    ⟨hzero, heq⟩ | ⟨hpos, _, heq⟩ | ⟨len, _, _, _, heq⟩
  · rw [heq]
    rw [hleft] at hzero
    rw [List.eq_nil_of_length_eq_zero hzero, List.append_nil] at hwire
    exact .done uri is09 rfl ⟨hasked.request, hasked.called⟩ (hwire ▸ List.prefix_rfl)
      (fun _ => hwire)
  · rw [heq]
    exact .sending uri is09 hs rest hconn hhandle hfile hleft hpos hasked hwire heof
  · have hwrote : (s.wrote hs len).wire = s.wire ++ rest.take len := by
      unfold Served.wrote
      rw [hfile]
      rfl
    have htotal : (s.wrote hs len).wire ++ rest.drop len = responseOf fsRoot uri is09 := by
      rw [hwrote, List.append_assoc, List.take_append_drop, hwire]
    rw [heq]
    split
    next hend =>
      have hall : rest.drop len = [] := by
        apply List.eq_nil_of_length_eq_zero
        rw [List.length_drop, ← hleft]
        exact hend
      rw [hall, List.append_nil] at htotal
      exact .done uri is09 rfl ⟨hasked.request, hasked.called⟩ (htotal ▸ List.prefix_rfl)
        (fun _ => htotal)
    next hmore =>
      refine .sending uri is09 _ (rest.drop len) rfl hhandle ?_ ?_ hmore
        ⟨hasked.request, hasked.called⟩ htotal heof
      · rw [hfile]
        rfl
      · rw [List.length_drop, ← hleft]

/-- Opening a file leaves its response to be sent. -/
theorem httpInitFile_file (hs : HttpState) (f : FsFile) (is09 : Bool) :
    (httpInitFile hs (some f) is09).handle.isSome = true ∧
      (httpInitFile hs (some f) is09).file =
        some (if is09 && f.headerIncluded then withoutHeader f.data else f.data) ∧
      (httpInitFile hs (some f) is09).left =
        (if is09 && f.headerIncluded then withoutHeader f.data else f.data).length := by
  unfold httpInitFile withoutHeader
  simp only
  split
  · cases lwipStrnstr f.data (crlf ++ crlf) with
    | none => exact ⟨rfl, rfl, rfl⟩
    | some i => exact ⟨rfl, rfl, (List.length_drop ..).symm⟩
  · exact ⟨rfl, rfl, rfl⟩

/-- What a parse on a connection without a file can answer. -/
theorem httpParseRequest_cases {hs : HttpState} (hhandle : hs.handle = none)
    (hfile : hs.file = none) (inp : List (List UInt8)) (h : HookState) :
    (exists req, httpParseRequest fsRoot inp hs h = (.inProgress, { hs with req := req }, h)) ∨
    (exists hs', httpParseRequest fsRoot inp hs h = (.arg, hs', h)) ∨
    (exists req uri is09, scanRequest (reqData (hs.req ++ inp)) = .complete uri is09 ∧
      httpParseRequest fsRoot inp hs h =
        (.ok, httpInitFile { hs with req := req } (findRequestedFile fsRoot uri) is09,
          callHook uri h)) := by
  unfold httpParseRequest
  rw [hhandle, hfile]
  simp only [Option.isSome_none, Bool.or_self, Bool.false_eq_true, if_false]
  cases hscan : scanRequest (reqData (hs.req ++ inp)) with
  | incomplete =>
      simp only
      split
      · exact Or.inl ⟨hs.req ++ inp, rfl⟩
      · exact Or.inr (Or.inl ⟨_, rfl⟩)
  | unsupported =>
      exact Or.inr (Or.inl ⟨_, rfl⟩)
  | complete uri is09 =>
      exact Or.inr (Or.inr ⟨hs.req ++ inp, uri, is09, rfl, rfl⟩)

/-- The send behind a complete request starts the response from its first byte. -/
theorem Phase.answer {uri : List UInt8} {is09 : Bool} {hs : HttpState} {c : HttpConn}
    (hasked : Asked s uri is09) (hwire : s.wire = []) (heof : s.eof = false)
    (hconn : s.sys.conn = { c with
      hs := some { httpInitFile hs (findRequestedFile fsRoot uri) is09 with req := [] } }) :
    Phase fsRoot (httpSendPcb pcb s) := by
  cases hfound : findRequestedFile fsRoot uri with
  | none =>
      rw [hfound] at hconn
      have hnothing : responseOf fsRoot uri is09 = [] := by
        unfold responseOf
        rw [hfound]
      have hsend : httpSendPcb pcb s = httpEof pcb s := by
        unfold httpSendPcb
        rw [hconn]
        rfl
      have hall : s.wire = responseOf fsRoot uri is09 := by
        rw [hnothing]
        exact hwire
      rw [hsend]
      exact .done uri is09 rfl (hasked.eof pcb) (hall ▸ List.prefix_rfl) (fun _ => hall)
  | some f =>
      rw [hfound] at hconn
      rcases httpInitFile_file hs f is09 with ⟨hhandle, hfile, hleft⟩
      have hopen : s.sys.conn.hs =
          some { httpInitFile hs (some f) is09 with req := [] } := by
        rw [hconn]
      have hresponse : s.wire ++ (if is09 && f.headerIncluded then withoutHeader f.data
          else f.data) = responseOf fsRoot uri is09 := by
        unfold responseOf
        rw [hfound, hwire]
        rfl
      exact Phase.send hopen hhandle hfile hleft hasked hresponse heof pcb

theorem Phase.recv (h : Phase fsRoot s) (ok : Bool) (p : Option PbufChain) (pcb : TcpPcb) :
    Phase fsRoot (httpRecvPcb fsRoot ok p pcb s) := by
  have hclose : Phase fsRoot (s.close pcb) := h.ofClosed rfl
  cases ok with
  | false => exact hclose
  | true =>
      cases p with
      | none => exact hclose
      | some p =>
          unfold httpRecvPcb
          cases h with
          | waiting hs hconn hhandle hfile hleft hcalled hrequest hwire heof =>
              rw [hconn]
              simp only [hhandle, Option.isNone_none, if_true]
              rcases httpParseRequest_cases hhandle hfile p.payloads s.sys.hook with
                ⟨req, hparse⟩ | ⟨hs', hparse⟩ | ⟨req, uri, is09, hscan, hparse⟩
              · rw [hparse]
                exact .waiting _ rfl hhandle hfile hleft hcalled hrequest hwire heof
              · rw [hparse]
                exact hclose
              · rw [hparse]
                have hcall : (callHook uri s.sys.hook).called = [uri] := by
                  simp [callHook, hcalled]
                exact Phase.answer ⟨⟨_, rfl, hscan⟩, hcall⟩ hwire heof rfl
          | gone hconn hcalled hrequest hwire =>
              rw [hconn]
              exact hclose
          | sending uri is09 hs rest hconn hhandle hfile hleft hpos hasked hwire heof =>
              rw [hconn]
              simp only
              have hopen : ¬ hs.handle.isNone = true := by
                rw [Option.isNone_iff_eq_none]
                exact Option.isSome_iff_ne_none.mp hhandle
              rw [if_neg hopen]
              exact .sending uri is09 hs rest hconn hhandle hfile hleft hpos hasked hwire heof
          | done uri is09 hconn hasked hwire heof =>
              rw [hconn]
              exact hclose

theorem Phase.sent (h : Phase fsRoot s) (pcb : TcpPcb) : Phase fsRoot (httpSentPcb pcb s) := by
  unfold httpSentPcb
  cases h with
  | waiting hs hconn hhandle hfile hleft hcalled hrequest hwire heof =>
      rw [hconn]
      have hsend : httpSendPcb pcb (s.setConn { s.sys.conn with
          hs := some { hs with retries := 0 } }) =
            httpEof pcb (s.setConn { s.sys.conn with hs := some { hs with retries := 0 } }) := by
        unfold httpSendPcb
        exact if_pos hleft
      simp only [hsend]
      exact .gone rfl hcalled hrequest hwire
  | gone hconn hcalled hrequest hwire =>
      rw [hconn]
      exact .gone hconn hcalled hrequest hwire
  | sending uri is09 hs rest hconn hhandle hfile hleft hpos hasked hwire heof =>
      have hopen : (s.setConn { s.sys.conn with
          hs := some { hs with retries := 0 } }).sys.conn.hs =
            some { hs with retries := 0 } := rfl
      rw [hconn]
      exact Phase.send hopen hhandle hfile hleft (hasked.setConn _) hwire heof pcb
  | done uri is09 hconn hasked hwire heof =>
      rw [hconn]
      exact .done uri is09 hconn hasked hwire heof

theorem Phase.poll (h : Phase fsRoot s) (pcb : TcpPcb) : Phase fsRoot (httpPollPcb pcb s) := by
  have hclose : Phase fsRoot (s.close pcb) := h.ofClosed rfl
  unfold httpPollPcb
  cases h with
  | waiting hs hconn hhandle hfile hleft hcalled hrequest hwire heof =>
      rw [hconn]
      simp only
      split
      · exact hclose
      · rw [if_neg (by rw [hhandle]; decide)]
        exact .waiting _ rfl hhandle hfile hleft hcalled hrequest hwire heof
  | gone hconn hcalled hrequest hwire =>
      rw [hconn]
      exact hclose
  | sending uri is09 hs rest hconn hhandle hfile hleft hpos hasked hwire heof =>
      have hopen : (s.setConn { s.sys.conn with
          hs := some { hs with retries := hs.retries + 1 } }).sys.conn.hs =
            some { hs with retries := hs.retries + 1 } := rfl
      rw [hconn]
      simp only [hhandle, if_true]
      split
      · exact hclose
      · exact Phase.send hopen hhandle hfile hleft (hasked.setConn _) hwire heof pcb
  | done uri is09 hconn hasked hwire heof =>
      rw [hconn]
      exact hclose

theorem serveStep_phase (s : Served) (e : ServeEvent) (h : Phase fsRoot s) :
    Phase fsRoot (serveStep fsRoot s e) := by
  cases e with
  | recv ok p pcb =>
      unfold serveStep
      dsimp only
      split
      · exact h.recv ok p pcb
      · exact h
  | sent pcb =>
      unfold serveStep
      dsimp only
      split
      · exact h.sent pcb
      · exact h
  | poll pcb =>
      unfold serveStep
      dsimp only
      split
      · exact h.poll pcb
      · exact h
  | err =>
      exact h.ofClosed rfl

theorem run_phase (fsRoot : List FsdataFile) (actions : Actions) (es : List ServeEvent) :
    Phase fsRoot (run (serveStep fsRoot) (serveStart actions) es) :=
  run_invariant serveStep_phase (.waiting httpStateInit rfl rfl rfl rfl rfl rfl rfl rfl) es

/-- What a later state of a connection keeps: the request, and the bytes already sent. -/
structure Extends (s t : Served) : Prop where
  request : forall data, s.request = some data -> t.request = some data
  wire : s.wire <+: t.wire

theorem Extends.refl (s : Served) : Extends s s :=
  ⟨fun _ h => h, List.prefix_rfl⟩

theorem Extends.trans {s t u : Served} (h : Extends s t) (h' : Extends t u) : Extends s u :=
  ⟨fun data hdata => h'.request data (h.request data hdata), h.wire.trans h'.wire⟩

/-- A connection is asked once. -/
theorem Extends.asked {s t : Served} (h : Extends s t) {uri uri' : List UInt8}
    {is09 is09' : Bool} (hs : Asked s uri is09) (ht : Asked t uri' is09') :
    uri' = uri ∧ is09' = is09 := by
  rcases hs.request with ⟨data, hdata, hscan⟩
  have hscan' := ht.scan (h.request data hdata)
  rw [hscan] at hscan'
  cases hscan'
  exact ⟨rfl, rfl⟩

theorem httpSendPcb_extends (pcb : TcpPcb) (s : Served) : Extends s (httpSendPcb pcb s) := by
  cases hhs : s.sys.conn.hs with
  | none =>
      have hidle : httpSendPcb pcb s = s := by
        unfold httpSendPcb
        rw [hhs]
      rw [hidle]
      exact Extends.refl s
  | some hs =>
      rcases httpSendPcb_cases pcb hhs with ⟨_, heq⟩ | ⟨_, _, heq⟩ | ⟨len, _, _, _, heq⟩
      · rw [heq]
        exact ⟨fun _ h => h, List.prefix_rfl⟩
      · rw [heq]
        exact Extends.refl s
      · rw [heq]
        split
        · exact ⟨fun _ h => h, List.prefix_append _ _⟩
        · exact ⟨fun _ h => h, List.prefix_append _ _⟩

/-- A connection that knows its request parses no second one. -/
theorem httpRecvPcb_extends (h : Phase fsRoot s) (ok : Bool) (p : Option PbufChain)
    (pcb : TcpPcb) : Extends s (httpRecvPcb fsRoot ok p pcb s) := by
  have hclose : Extends s (s.close pcb) := ⟨fun _ hdata => hdata, List.prefix_rfl⟩
  unfold httpRecvPcb
  split
  next p hs hhs =>
    split
    next hhandle =>
      have hnone : s.request = none := by
        cases h with
        | waiting _ _ _ _ _ _ hrequest _ _ => exact hrequest
        | gone hconn _ _ _ =>
            rw [hconn] at hhs
            cases hhs
        | sending _ _ hs' _ hconn hopen _ _ _ _ _ _ =>
            rw [hconn] at hhs
            cases hhs
            rw [Option.isNone_iff_eq_none] at hhandle
            rw [hhandle] at hopen
            cases hopen
        | done _ _ hconn _ _ _ =>
            rw [hconn] at hhs
            cases hhs
      have hfirst : forall t : Served, s.wire <+: t.wire -> Extends s t := by
        intro t hwire
        refine ⟨fun data hdata => ?_, hwire⟩
        rw [hnone] at hdata
        cases hdata
      apply hfirst
      split
      · exact List.prefix_rfl
      · refine List.IsPrefix.trans ?_ (httpSendPcb_extends pcb _).wire
        exact List.prefix_rfl
      · exact List.prefix_rfl
      · exact List.prefix_rfl
    next =>
      exact Extends.refl s
  next =>
    exact hclose

theorem httpSentPcb_extends (pcb : TcpPcb) (s : Served) : Extends s (httpSentPcb pcb s) := by
  unfold httpSentPcb
  split
  · exact Extends.refl s
  next hs hhs =>
    have hkept : Extends s (s.setConn { s.sys.conn with hs := some { hs with retries := 0 } }) :=
      ⟨fun _ h => h, List.prefix_rfl⟩
    exact hkept.trans (httpSendPcb_extends pcb _)

theorem httpPollPcb_extends (pcb : TcpPcb) (s : Served) : Extends s (httpPollPcb pcb s) := by
  unfold httpPollPcb
  split
  · exact ⟨fun _ h => h, List.prefix_rfl⟩
  next hs hhs =>
    have hkept : Extends s
        (s.setConn { s.sys.conn with hs := some { hs with retries := hs.retries + 1 } }) :=
      ⟨fun _ h => h, List.prefix_rfl⟩
    dsimp only
    split
    · exact ⟨fun _ h => h, List.prefix_rfl⟩
    · split
      · exact hkept.trans (httpSendPcb_extends pcb _)
      · exact hkept

theorem serveStep_extends (h : Phase fsRoot s) (e : ServeEvent) :
    Extends s (serveStep fsRoot s e) := by
  cases e with
  | recv ok p pcb =>
      unfold serveStep
      dsimp only
      split
      · exact httpRecvPcb_extends h ok p pcb
      · exact Extends.refl s
  | sent pcb =>
      unfold serveStep
      dsimp only
      split
      · exact httpSentPcb_extends pcb s
      · exact Extends.refl s
  | poll pcb =>
      unfold serveStep
      dsimp only
      split
      · exact httpPollPcb_extends pcb s
      · exact Extends.refl s
  | err =>
      exact ⟨fun _ hdata => hdata, List.prefix_rfl⟩

theorem run_extends (h : Phase fsRoot s) (es : List ServeEvent) :
    Extends s (run (serveStep fsRoot) s es) := by
  induction es generalizing s with
  | nil =>
      exact Extends.refl s
  | cons e es ih =>
      exact (serveStep_extends h e).trans (ih (serveStep_phase s e h))

/-- What the phases say about a connection that recorded a request. -/
theorem Phase.response (h : Phase fsRoot s) {data : List UInt8} (hdata : s.request = some data) :
    exists uri is09, Asked s uri is09 ∧ s.wire <+: responseOf fsRoot uri is09 ∧
      (s.eof = true -> s.wire = responseOf fsRoot uri is09) := by
  cases h with
  | waiting hs hconn hhandle hfile hleft hcalled hrequest hwire heof =>
      rw [hrequest] at hdata
      cases hdata
  | gone hconn hcalled hrequest hwire =>
      rw [hrequest] at hdata
      cases hdata
  | sending uri is09 hs rest hconn hhandle hfile hleft hpos hasked hwire heof =>
      refine ⟨uri, is09, hasked, ⟨rest, hwire⟩, fun hend => ?_⟩
      rw [heof] at hend
      cases hend
  | done uri is09 hconn hasked hwire heof =>
      exact ⟨uri, is09, hasked, hwire, heof⟩

theorem Phase.unasked (h : Phase fsRoot s) (hnone : s.request = none) :
    s.sys.hook.called = [] ∧ s.wire = [] := by
  have habsurd : forall {uri is09}, Asked s uri is09 -> False := by
    intro uri is09 hasked
    rcases hasked.request with ⟨data, hdata, _⟩
    rw [hnone] at hdata
    cases hdata
  cases h with
  | waiting hs hconn hhandle hfile hleft hcalled hrequest hwire heof => exact ⟨hcalled, hwire⟩
  | gone hconn hcalled hrequest hwire => exact ⟨hcalled, hwire⟩
  | sending uri is09 hs rest hconn hhandle hfile hleft hpos hasked hwire heof =>
      exact absurd hasked habsurd
  | done uri is09 hconn hasked hwire heof => exact absurd hasked habsurd

/--
A connection answers at most one request.  The recorded data of that request fix
its URI and version for good, the hook was called with this URI only, and what was
sent is in every state a front part of the one response and never taken back.
-/
theorem connection_sends_one_response (fsRoot : List FsdataFile) (actions : Actions)
    (es : List ServeEvent) :
    let s := run (serveStep fsRoot) (serveStart actions) es
    (s.request = none -> s.sys.hook.called = [] ∧ s.wire = []) ∧
    (forall data, s.request = some data ->
      exists uri is09, scanRequest data = .complete uri is09 ∧
        s.sys.hook.called = [uri] ∧
        s.wire <+: responseOf fsRoot uri is09 ∧
        (s.eof = true -> s.wire = responseOf fsRoot uri is09) ∧
        forall later, let t := run (serveStep fsRoot) s later
          t.request = some data ∧ s.wire <+: t.wire ∧ t.sys.hook.called = [uri] ∧
            t.wire <+: responseOf fsRoot uri is09) := by
  intro s
  have hphase : Phase fsRoot s := run_phase fsRoot actions es
  refine ⟨hphase.unasked, ?_⟩
  intro data hdata
  rcases hphase.response hdata with ⟨uri, is09, hasked, hwire, heof⟩
  refine ⟨uri, is09, hasked.scan hdata, hasked.called, hwire, heof, ?_⟩
  intro later t
  have hext : Extends s t := run_extends hphase later
  have hlater : Phase fsRoot t := run_invariant serveStep_phase hphase later
  rcases hlater.response (hext.request data hdata) with ⟨uri', is09', hasked', hwire', _⟩
  rcases hext.asked hasked hasked' with ⟨huri, hversion⟩
  rw [huri, hversion] at hwire'
  rw [huri] at hasked'
  exact ⟨hext.request data hdata, hext.wire, hasked'.called, hwire'⟩

end Phases

/-!
# Acknowledgements finish the response
-/

/-- The control block has room and takes what `http_write` offers it first. -/
structure Ready (pcb : TcpPcb) : Prop where
  room : pcb.sndbuf ≠ 0
  mss : 0 < pcb.mss.toNat
  small : pcb.mss.toNat <= tcpMss
  took : (pcb.answer 0).err = .ok

theorem Ready.write {pcb : TcpPcb} (h : Ready pcb) {length : Nat} (hlength : 0 < length) :
    exists len, 0 < len ∧ httpWrite pcb length = (.ok, len) := by
  have hsndbuf : 0 < pcb.sndbuf.toNat := by
    apply Nat.pos_of_ne_zero
    intro hzero
    exact h.room (UInt16.toNat_inj.mp hzero)
  refine ⟨firstLen pcb length, ?_, ?_⟩
  · have hmss := h.mss
    have hsmall := h.small
    unfold firstLen
    unfold tcpMss at hsmall
    lia
  · unfold httpWrite
    rw [if_neg (Nat.ne_of_gt hlength), httpWriteLoop]
    simp only [h.took]
    rfl

def bytesLeft (c : HttpConn) : Nat :=
  match c.hs with
  | none => 0
  | some hs => hs.left

/-- The callbacks are registered as long as the connection has a state. -/
def Listening (s : Served) : Prop :=
  s.sys.conn.hs ≠ none -> s.sys.conn.recvSet = true ∧ s.sys.conn.sentSet = true ∧
    s.sys.conn.pollSet = true

section Progress

variable {fsRoot : List FsdataFile} {s : Served}

theorem Listening.send (h : Listening s) (pcb : TcpPcb) : Listening (httpSendPcb pcb s) := by
  cases hhs : s.sys.conn.hs with
  | none =>
      have hidle : httpSendPcb pcb s = s := by
        unfold httpSendPcb
        rw [hhs]
      rw [hidle]
      exact h
  | some hs =>
      have hset := h (by rw [hhs]; exact Option.some_ne_none hs)
      rcases httpSendPcb_cases pcb hhs with ⟨_, heq⟩ | ⟨_, _, heq⟩ | ⟨len, _, _, _, heq⟩
      · rw [heq]
        exact fun hc => absurd rfl hc
      · rw [heq]
        exact h
      · rw [heq]
        split
        · exact fun hc => absurd rfl hc
        · exact fun _ => hset

theorem serveStep_listening (s : Served) (e : ServeEvent) (h : Listening s) :
    Listening (serveStep fsRoot s e) := by
  have hclose : forall pcb, Listening (s.close pcb) := fun pcb hc => absurd rfl hc
  cases e with
  | recv ok p pcb =>
      unfold serveStep
      dsimp only
      split
      next hset =>
        unfold httpRecvPcb
        split
        next hs hhs =>
          have hkeep := h (by rw [hhs]; exact Option.some_ne_none hs)
          split
          · split
            · exact fun _ => hkeep
            · apply Listening.send
              exact fun _ => hkeep
            · exact fun hc => absurd rfl hc
            · exact fun _ => hkeep
          · exact h
        next =>
          exact hclose pcb
      next =>
        exact h
  | sent pcb =>
      unfold serveStep httpSentPcb
      dsimp only
      split
      · cases hhs : s.sys.conn.hs with
        | none => exact h
        | some hs =>
            have hkeep := h (by rw [hhs]; exact Option.some_ne_none hs)
            apply Listening.send
            exact fun _ => hkeep
      · exact h
  | poll pcb =>
      unfold serveStep httpPollPcb
      dsimp only
      split
      · cases hhs : s.sys.conn.hs with
        | none => exact hclose pcb
        | some hs =>
            have hkeep := h (by rw [hhs]; exact Option.some_ne_none hs)
            dsimp only
            split
            · exact fun hc => absurd rfl hc
            · split
              · apply Listening.send
                exact fun _ => hkeep
              · exact fun _ => hkeep
      · exact h
  | err =>
      exact fun hc => absurd rfl hc

theorem run_listening (fsRoot : List FsdataFile) (actions : Actions) (es : List ServeEvent) :
    Listening (run (serveStep fsRoot) (serveStart actions) es) :=
  run_invariant serveStep_listening (fun _ => ⟨rfl, rfl, rfl⟩) es

/-- An acknowledgement that finds room sends at least one byte, or ends the response. -/
theorem sent_progress {pcb : TcpPcb} (hlisten : Listening s) (hready : Ready pcb)
    (hbusy : 0 < bytesLeft s.sys.conn) :
    (serveStep fsRoot s (.sent pcb)).eof = true ∨
      (0 < bytesLeft (serveStep fsRoot s (.sent pcb)).sys.conn ∧
        bytesLeft (serveStep fsRoot s (.sent pcb)).sys.conn < bytesLeft s.sys.conn) := by
  unfold bytesLeft at hbusy
  cases hhs : s.sys.conn.hs with
  | none =>
      rw [hhs] at hbusy
      exact absurd hbusy (Nat.lt_irrefl 0)
  | some hs =>
      rw [hhs] at hbusy
      have hset := (hlisten (by rw [hhs]; exact Option.some_ne_none hs)).right.left
      have hopen : (s.setConn { s.sys.conn with
          hs := some { hs with retries := 0 } }).sys.conn.hs =
            some { hs with retries := 0 } := rfl
      have hstep : serveStep fsRoot s (.sent pcb) = httpSendPcb pcb (s.setConn
          { s.sys.conn with hs := some { hs with retries := 0 } }) := by
        unfold serveStep httpSentPcb
        rw [hhs]
        exact if_pos hset
      have hleft : bytesLeft s.sys.conn = hs.left := by
        unfold bytesLeft
        rw [hhs]
      rcases hready.write (show 0 < min hs.left 0xffff by simp only at hbusy; lia) with
        ⟨n, hn, hwrite⟩
      rw [hstep, hleft]
      rcases httpSendPcb_cases pcb hopen with
        ⟨_, heq⟩ | ⟨_, hrefused, _⟩ | ⟨len, hpos, hle, hwrote, heq⟩
      · rw [heq]
        exact Or.inl rfl
      · rw [hwrite] at hrefused
        exact absurd rfl hrefused
      · rw [heq]
        split
        · exact Or.inl rfl
        next hmore =>
          apply Or.inr
          have hlen : len = n := congrArg Prod.snd (hwrote.symm.trans hwrite)
          change 0 < hs.left - len ∧ hs.left - len < hs.left
          simp only at hmore hpos
          lia

theorem sent_keeps_eof {pcb : TcpPcb} (h : s.eof = true) :
    (serveStep fsRoot s (.sent pcb)).eof = true := by
  unfold serveStep httpSentPcb
  dsimp only
  split
  · cases hhs : s.sys.conn.hs with
    | none => exact h
    | some hs =>
        have hopen : (s.setConn { s.sys.conn with
            hs := some { hs with retries := 0 } }).sys.conn.hs =
              some { hs with retries := 0 } := rfl
        rcases httpSendPcb_cases pcb hopen with
          ⟨_, heq⟩ | ⟨_, _, heq⟩ | ⟨len, _, _, _, heq⟩
        · simp only [heq]
          rfl
        · simp only [heq]
          exact h
        · simp only [heq]
          split
          · rfl
          · exact h
  · exact h

theorem run_sent_eof {pcbs : List TcpPcb} (hlisten : Listening s)
    (hready : forall pcb, pcb ∈ pcbs -> Ready pcb)
    (hstate : s.eof = true ∨
      (0 < bytesLeft s.sys.conn ∧ bytesLeft s.sys.conn <= pcbs.length)) :
    (run (serveStep fsRoot) s (pcbs.map ServeEvent.sent)).eof = true := by
  induction pcbs generalizing s with
  | nil =>
      rcases hstate with heof | ⟨hbusy, henough⟩
      · exact heof
      · exact absurd hbusy (Nat.not_lt.mpr henough)
  | cons pcb pcbs ih =>
      rw [List.map_cons, run_cons]
      apply ih (serveStep_listening s _ hlisten)
        (fun p hp => hready p (List.mem_cons_of_mem _ hp))
      rcases hstate with heof | ⟨hbusy, henough⟩
      · exact Or.inl (sent_keeps_eof heof)
      · rcases sent_progress hlisten (hready pcb List.mem_cons_self) hbusy with
          heof | ⟨hbusy', hless⟩
        · exact Or.inl heof
        · rw [List.length_cons] at henough
          exact Or.inr ⟨hbusy', by lia⟩

/-- The part of the response that is still to be sent. -/
def unsent (c : HttpConn) : List UInt8 :=
  match c.hs with
  | none => []
  | some hs => hs.file.getD []

/-- A connection with bytes left is sending. -/
theorem Phase.of_busy (h : Phase fsRoot s) (hbusy : 0 < bytesLeft s.sys.conn) :
    exists uri is09, Asked s uri is09 ∧
      s.wire ++ unsent s.sys.conn = responseOf fsRoot uri is09 := by
  unfold bytesLeft at hbusy
  cases h with
  | waiting hs hconn hhandle hfile hleft hcalled hrequest hwire heof =>
      rw [hconn] at hbusy
      exact absurd hleft (Nat.ne_of_gt hbusy)
  | gone hconn hcalled hrequest hwire =>
      rw [hconn] at hbusy
      exact absurd hbusy (Nat.lt_irrefl 0)
  | sending uri is09 hs rest hconn hhandle hfile hleft hpos hasked hwire heof =>
      refine ⟨uri, is09, hasked, ?_⟩
      unfold unsent
      rw [hconn]
      simp only [hfile]
      exact hwire
  | done uri is09 hconn hasked hwire heof =>
      rw [hconn] at hbusy
      exact absurd hbusy (Nat.lt_irrefl 0)

theorem Phase.closed_of_eof (h : Phase fsRoot s) (heof : s.eof = true) :
    s.sys.conn.hs = none := by
  cases h with
  | waiting hs hconn hhandle hfile hleft hcalled hrequest hwire hrunning =>
      rw [heof] at hrunning
      cases hrunning
  | gone hconn hcalled hrequest hwire => exact hconn
  | sending uri is09 hs rest hconn hhandle hfile hleft hpos hasked hwire hrunning =>
      rw [heof] at hrunning
      cases hrunning
  | done uri is09 hconn hasked hwire hall => exact hconn

/--
A response in progress is sent to its end when every acknowledgement finds room to
write: behind the bytes already sent follow the bytes that were left, and no others.
-/
theorem response_completes (fsRoot : List FsdataFile) (actions : Actions)
    (es : List ServeEvent) (pcbs : List TcpPcb)
    (hbusy : 0 < bytesLeft (run (serveStep fsRoot) (serveStart actions) es).sys.conn)
    (hready : forall pcb, pcb ∈ pcbs -> Ready pcb)
    (henough : bytesLeft (run (serveStep fsRoot) (serveStart actions) es).sys.conn <=
      pcbs.length) :
    let s := run (serveStep fsRoot) (serveStart actions) es
    let t := run (serveStep fsRoot) (serveStart actions) (es ++ pcbs.map ServeEvent.sent)
    t.wire = s.wire ++ unsent s.sys.conn ∧ t.eof = true ∧ t.sys.conn.hs = none ∧
      exists data uri is09, s.request = some data ∧ scanRequest data = .complete uri is09 ∧
        t.sys.hook.called = [uri] ∧ t.wire = responseOf fsRoot uri is09 := by
  intro s t
  have hphase : Phase fsRoot s := run_phase fsRoot actions es
  have hend : t = run (serveStep fsRoot) s (pcbs.map ServeEvent.sent) := run_append ..
  have hphaseEnd : Phase fsRoot t := run_phase fsRoot actions _
  have hext : Extends s t := by
    rw [hend]
    exact run_extends hphase _
  have heof : t.eof = true := by
    rw [hend]
    exact run_sent_eof (run_listening fsRoot actions es) hready (Or.inr ⟨hbusy, henough⟩)
  rcases hphase.of_busy hbusy with ⟨uri, is09, hasked, hrest⟩
  rcases hasked.request with ⟨data, hdata, hscan⟩
  rcases hphaseEnd.response (hext.request data hdata) with ⟨uri', is09', hasked', _, hall⟩
  rcases hext.asked hasked hasked' with ⟨huri, hversion⟩
  have hwire := hall heof
  rw [huri, hversion] at hwire
  rw [huri] at hasked'
  exact ⟨hwire.trans hrest.symm, heof, hphaseEnd.closed_of_eof heof,
    data, uri, is09, hdata, hscan, hasked'.called, hwire⟩

/-- A control block that takes one byte at a time. -/
def oneBytePcb : TcpPcb where
  sndbuf := 1
  mss := 536
  answer := fun _ => ⟨.ok, 0, 1⟩
  closed := true

def twoBytePage : List FsdataFile :=
  [⟨cString "/index.html", ⟨[72, 105], true⟩⟩]

def indexRequest : ServeEvent :=
  .recv true (some (PbufChain.single (cString "GET / HTTP/1.0\r\n\r\n") (by decide))) oneBytePcb

/-- A two-byte page, asked for and acknowledged once. -/
theorem response_completes_index :
    let s := run (serveStep twoBytePage) (serveStart ⟨false, GpioB.reset⟩) [indexRequest]
    let t := run (serveStep twoBytePage) (serveStart ⟨false, GpioB.reset⟩)
      ([indexRequest] ++ [oneBytePcb].map ServeEvent.sent)
    s.wire = [72] ∧ t.wire = [72, 105] ∧ t.eof = true := by
  intro s t
  have hready : forall pcb, pcb ∈ [oneBytePcb] -> Ready pcb := by
    intro pcb hpcb
    rw [List.mem_singleton.mp hpcb]
    exact ⟨by decide, by decide, by decide, rfl⟩
  rcases response_completes twoBytePage ⟨false, GpioB.reset⟩ [indexRequest] [oneBytePcb]
    (by decide +kernel) hready (by decide +kernel) with ⟨hwire, heof, _⟩
  have hfirst : s.wire = [72] := by
    decide +kernel
  have hrest : unsent s.sys.conn = [105] := by
    decide +kernel
  rw [hfirst, hrest] at hwire
  exact ⟨hfirst, hwire, heof⟩

end Progress

end Http
end Ch579HttpLed
