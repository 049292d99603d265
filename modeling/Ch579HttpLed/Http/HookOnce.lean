import Mathlib.Data.List.Induction
import Ch579HttpLed.Http.Httpd

/-!
# A request acts once

Every received segment makes the server parse the collected request again from
its start.  For a well-formed GET request cut into at most five segments, all
parses but the last find it incomplete, the last one calls the hook with the
requested URI, and the connection never parses again.
-/

namespace Ch579HttpLed
namespace Http

open App Driver Foundation Net

/-!
# Requests
-/

def requestBytes (uri : List UInt8) (version : UInt8) (headers : List (List UInt8)) :
    List UInt8 :=
  getMethod ++ uri ++ cString " HTTP/1." ++ [version] ++ crlf ++
    (headers.map (fun header => header ++ crlf)).flatten ++ crlf

/-- A GET request that fits the request buffer and ends at its first empty line. -/
structure GetRequest where
  uri : List UInt8
  version : UInt8
  headers : List (List UInt8)
  uri_ne_nil : uri ≠ []
  uri_plain : forall b, b ∈ uri -> b ≠ 32 ∧ b ≠ 13 ∧ b ≠ 10
  no_nul : 0 ∉ requestBytes uri version headers
  length_le : (requestBytes uri version headers).length <= httpdMaxReqLength
  end_only : forall i, crlf ++ crlf <+: (requestBytes uri version headers).drop i ->
    i + (crlf ++ crlf).length = (requestBytes uri version headers).length

def GetRequest.bytes (r : GetRequest) : List UInt8 :=
  requestBytes r.uri r.version r.headers

/-- What follows the URI and the space behind it. -/
def GetRequest.afterUri (r : GetRequest) : List UInt8 :=
  cString "HTTP/1." ++ [r.version] ++ crlf ++
    (r.headers.map (fun header => header ++ crlf)).flatten ++ crlf

theorem GetRequest.bytes_eq (r : GetRequest) :
    r.bytes = getMethod ++ (r.uri ++ 32 :: r.afterUri) := by
  have hversion : cString " HTTP/1." = 32 :: cString "HTTP/1." := rfl
  unfold GetRequest.bytes requestBytes GetRequest.afterUri
  rw [hversion]
  simp

theorem GetRequest.take_method (r : GetRequest) : r.bytes.take 4 = getMethod := by
  rw [r.bytes_eq]
  exact List.take_left' rfl

theorem GetRequest.drop_method (r : GetRequest) :
    r.bytes.drop 4 = r.uri ++ 32 :: r.afterUri := by
  rw [r.bytes_eq]
  exact List.drop_left' rfl

theorem GetRequest.bytes_end (r : GetRequest) :
    exists front, r.bytes = front ++ (crlf ++ crlf) := by
  unfold GetRequest.bytes requestBytes
  rcases r.headers.eq_nil_or_concat with hnil | ⟨headers, header, hlast⟩
  · rw [hnil]
    exact ⟨getMethod ++ r.uri ++ cString " HTTP/1." ++ [r.version], by simp⟩
  · rw [hlast]
    exact ⟨getMethod ++ r.uri ++ cString " HTTP/1." ++ [r.version] ++ crlf ++
      (headers.map (fun header => header ++ crlf)).flatten ++ header, by simp⟩

theorem GetRequest.uri_no_nul (r : GetRequest) : 0 ∉ r.uri := by
  intro hmem
  have hall : 0 ∉ r.bytes := r.no_nul
  rw [r.bytes_eq] at hall
  simp [hmem] at hall

/-!
# Scanning
-/

/-- The URI ends at the first space behind the method. -/
theorem GetRequest.uriEnd_eq (r : GetRequest) :
    uriEnd (r.bytes.drop 4) = (some r.uri.length, false) := by
  have hfound : lwipStrnstr (r.uri ++ 32 :: r.afterUri) [32] = some r.uri.length := by
    apply findToken_singleton (by decide) r.uri_no_nul
    intro hmem
    exact (r.uri_plain 32 hmem).left rfl
  unfold uriEnd
  rw [r.drop_method, hfound]

/-- Terminating the method and the URI in place leaves the URI as a C string. -/
theorem GetRequest.cStringAt_uri (r : GetRequest) :
    cStringAt ((r.bytes.set 3 0).set (4 + r.uri.length) 0) 4 = r.uri := by
  have hcut : ((r.bytes.set 3 0).set (4 + r.uri.length) 0).drop 4 =
      r.uri ++ 0 :: r.afterUri := by
    rw [List.drop_set, if_neg (by lia), List.drop_set, if_pos (by decide), r.drop_method,
      Nat.add_sub_cancel_left, List.set_append_right _ _ (Nat.le_refl _)]
    simp
  unfold cStringAt
  rw [hcut, List.takeWhile_append_of_pos]
  · simp
  · intro b hb
    have hne : b ≠ 0 := by
      intro hzero
      exact r.uri_no_nul (hzero ▸ hb)
    simpa using hne

theorem GetRequest.minReqLen_le (r : GetRequest) : ¬ r.bytes.length < minReqLen := by
  have hlen := congrArg List.length r.bytes_eq
  simp [GetRequest.afterUri, getMethod, cString, crlf] at hlen
  unfold minReqLen
  lia

theorem GetRequest.scan_bytes (r : GetRequest) :
    scanRequest r.bytes = .complete r.uri false := by
  have hnul : 0 ∉ r.bytes := r.no_nul
  rcases r.bytes_end with ⟨front, hfront⟩
  have hline : lwipStrnstr r.bytes crlf ≠ none := by
    apply findToken_ne_none hnul (by decide)
    show crlf <+: r.bytes.drop front.length
    rw [hfront, List.drop_left]
    exact List.prefix_append _ _
  have hend : lwipStrnstr r.bytes (crlf ++ crlf) ≠ none := by
    apply findToken_ne_none hnul (by decide)
    show crlf ++ crlf <+: r.bytes.drop front.length
    rw [hfront, List.drop_left]
  unfold scanRequest
  rw [if_neg r.minReqLen_le]
  cases hcrlf : lwipStrnstr r.bytes crlf with
  | none => exact absurd hcrlf hline
  | some i =>
      cases hempty : lwipStrnstr r.bytes (crlf ++ crlf) with
      | none => exact absurd hempty hend
      | some j =>
          simp only [r.take_method, if_true, r.uriEnd_eq, r.cStringAt_uri]

/-- Every proper prefix of a request is incomplete. -/
theorem GetRequest.scan_take (r : GetRequest) {n : Nat} (hn : n < r.bytes.length) :
    scanRequest (r.bytes.take n) = .incomplete := by
  have hend : lwipStrnstr (r.bytes.take n) (crlf ++ crlf) = none :=
    findToken_take_eq_none r.end_only (by decide) hn
  unfold scanRequest
  split
  · rfl
  · next hlong =>
      have hmethod : (r.bytes.take n).take 4 = getMethod := by
        have hfour : min 4 n = 4 := by
          rw [List.length_take] at hlong
          unfold minReqLen at hlong
          lia
        rw [List.take_take, hfour]
        exact r.take_method
      cases lwipStrnstr (r.bytes.take n) crlf with
      | none => rfl
      | some i =>
          simp only [hmethod, if_true, hend]
          cases uriEnd ((r.bytes.take n).drop 4) with
          | mk found is09 => cases found <;> rfl

/-- The parsed data is the concatenation of the chain while it fits the buffer. -/
theorem reqData_eq {req : List (List UInt8)}
    (hlen : req.flatten.length <= httpdMaxReqLength) : reqData req = req.flatten := by
  have hmax : httpdMaxReqLength < 65536 := by decide
  have htot : reqTotLen req = req.flatten.length := Nat.mod_eq_of_lt (by lia)
  have hcopy : pbufCopyPartial req (min (reqTotLen req) httpdMaxReqLength) 0 =
      req.flatten := by
    rw [pbufCopyPartial_eq, htot, Nat.min_eq_left hlen, List.drop_zero,
      List.take_length]
  unfold reqData
  split
  · simp
  · exact hcopy

/-!
# Segments

A segment is one pbuf that TCP passes to `http_recv`, with the outcomes of the
TCP calls made while it is served.
-/

structure Segment where
  payload : List UInt8
  nonempty : payload ≠ []
  length_lt : payload.length < 65536
  io : TcpOutcome

def segmentEvent (seg : Segment) : HttpEvent :=
  .recv true (some (PbufChain.single seg.payload seg.length_lt)) seg.io

def payloads (segs : List Segment) : List (List UInt8) :=
  segs.map Segment.payload

/-- A fresh connection that has collected `req` and called no hook. -/
def collecting (req : List (List UInt8)) (h : HookState) : HttpSystem where
  conn := { httpAccept with hs := some { httpStateInit with req := req } }
  hook := h

section Collecting

variable {fsRoot : List FsdataFile} {req : List (List UInt8)} {h : HookState}
  {seg : Segment}

theorem step_collecting : httpStep fsRoot (collecting req h) (segmentEvent seg) =
    httpRecvParsed seg.io (collecting req h).conn
      (httpParseRequest fsRoot [seg.payload] { httpStateInit with req := req } h) := by
  simp [httpStep, segmentEvent, collecting, httpAccept, httpRecv, httpStateInit,
    PbufChain.single]

theorem step_collecting_incomplete
    (hscan : scanRequest (reqData (req ++ [seg.payload])) = .incomplete)
    (hlen : reqTotLen (req ++ [seg.payload]) <= httpdReqBufsize)
    (hqueue : (req ++ [seg.payload]).length <= httpdReqQueuelen) :
    httpStep fsRoot (collecting req h) (segmentEvent seg) =
      collecting (req ++ [seg.payload]) h := by
  have hparse : httpParseRequest fsRoot [seg.payload]
      { httpStateInit with req := req } h =
        (.inProgress, { httpStateInit with req := req ++ [seg.payload] }, h) := by
    simp only [httpParseRequest, httpStateInit, Option.isSome_none, Bool.or_self,
      Bool.false_eq_true, if_false, hscan]
    exact if_pos ⟨hlen, hqueue⟩
  rw [step_collecting, hparse]
  rfl

/-- A connection that does not parse any more: not listening, or already answering. -/
def Answered (c : HttpConn) : Prop :=
  c.recvSet = false ∨ exists hs, c.hs = some hs ∧ hs.handle.isSome = true

/-- Rewriting the state without touching its file keeps a connection answered. -/
theorem Answered.of_handle_eq {c : HttpConn} (hc : Answered c) {hs hs' : HttpState}
    (hhs : c.hs = some hs) (hhandle : hs'.handle = hs.handle) :
    Answered { c with hs := some hs' } := by
  rcases hc with hdeaf | ⟨st, hst, hsome⟩
  · exact Or.inl hdeaf
  · rw [hhs] at hst
    cases hst
    rw [← hhandle] at hsome
    exact Or.inr ⟨hs', rfl, hsome⟩

theorem httpCloseConn_answered (io : TcpOutcome) : Answered (httpCloseConn io) :=
  Or.inl rfl

theorem httpSend_answered (io : TcpOutcome) {c : HttpConn} (hc : Answered c) :
    Answered (httpSend io c) := by
  unfold httpSend
  cases hhs : c.hs with
  | none => exact hc
  | some hs =>
      simp only
      split
      · exact httpCloseConn_answered io
      · cases io.written with
        | none => exact hc
        | some n =>
            simp only
            split
            · exact httpCloseConn_answered io
            · exact hc.of_handle_eq hhs rfl

/-- Sending a file just looked up answers, even if no file was found. -/
theorem httpSend_initFile_answered (io : TcpOutcome) (c : HttpConn) (hs : HttpState)
    (file : Option FsFile) (is09 : Bool) :
    Answered (httpSend io
      { c with hs := some { httpInitFile hs file is09 with req := [] } }) := by
  cases file with
  | none =>
      unfold httpSend httpInitFile
      exact httpCloseConn_answered io
  | some f =>
      apply httpSend_answered
      apply Or.inr
      refine ⟨_, rfl, ?_⟩
      unfold httpInitFile
      simp only
      split
      · cases lwipStrnstr f.data (crlf ++ crlf) <;> rfl
      · rfl

theorem parse_collecting_complete {payload uri : List UInt8} {is09 : Bool}
    (hscan : scanRequest (reqData (req ++ [payload])) = .complete uri is09) :
    httpParseRequest fsRoot [payload] { httpStateInit with req := req } h =
      (.ok, httpInitFile { httpStateInit with req := req ++ [payload] }
        (findRequestedFile fsRoot uri) is09, callHook uri h) := by
  simp only [httpParseRequest, httpStateInit, Option.isSome_none, Bool.or_self,
    Bool.false_eq_true, if_false, hscan]
  rfl

theorem step_collecting_complete {uri : List UInt8} {is09 : Bool}
    (hscan : scanRequest (reqData (req ++ [seg.payload])) = .complete uri is09) :
    (httpStep fsRoot (collecting req h) (segmentEvent seg)).hook = callHook uri h ∧
      Answered (httpStep fsRoot (collecting req h) (segmentEvent seg)).conn := by
  have hstep : httpStep fsRoot (collecting req h) (segmentEvent seg) =
      { conn := httpSend seg.io
          { httpAccept with
            hs := some { httpInitFile { httpStateInit with req := req ++ [seg.payload] }
              (findRequestedFile fsRoot uri) is09 with req := [] } }
        hook := callHook uri h } := by
    rw [step_collecting, parse_collecting_complete hscan]
    rfl
  rw [hstep]
  exact ⟨rfl, httpSend_initFile_answered seg.io httpAccept _ _ is09⟩

end Collecting

/-!
# After the answer
-/

theorem httpSent_answered (io : TcpOutcome) {c : HttpConn} (hc : Answered c) :
    Answered (httpSent io c) := by
  unfold httpSent
  cases hhs : c.hs with
  | none => exact hc
  | some hs => exact httpSend_answered io (hc.of_handle_eq hhs rfl)

theorem httpPoll_answered (io : TcpOutcome) {c : HttpConn} (hc : Answered c) :
    Answered (httpPoll io c) := by
  unfold httpPoll
  cases hhs : c.hs with
  | none => exact httpCloseConn_answered io
  | some hs =>
      have hkept : Answered { c with
          hs := some { hs with retries := hs.retries + 1 } } :=
        hc.of_handle_eq hhs rfl
      simp only
      split
      · exact httpCloseConn_answered io
      · split
        · exact httpSend_answered io hkept
        · exact hkept

/-- No later event reaches the hook. -/
theorem httpStep_answered (fsRoot : List FsdataFile) (s : HttpSystem) (e : HttpEvent)
    (hs : Answered s.conn) :
    Answered (httpStep fsRoot s e).conn ∧ (httpStep fsRoot s e).hook = s.hook := by
  cases e with
  | recv ok p io =>
      unfold httpStep
      cases hset : s.conn.recvSet with
      | false => exact ⟨Or.inl hset, rfl⟩
      | true =>
          rcases hs with hdeaf | ⟨st, hst, hhandle⟩
          · rw [hset] at hdeaf
            cases hdeaf
          · have hbusy : st.handle.isNone = false := by
              simpa using hhandle
            simp only [if_true]
            unfold httpRecv
            rw [hst]
            cases ok with
            | false => exact ⟨httpCloseConn_answered io, rfl⟩
            | true =>
                cases p with
                | none => exact ⟨httpCloseConn_answered io, rfl⟩
                | some p =>
                    simp only [hbusy]
                    exact ⟨Or.inr ⟨st, hst, hhandle⟩, rfl⟩
  | sent io =>
      unfold httpStep
      simp only
      split
      · exact ⟨httpSent_answered io hs, rfl⟩
      · exact ⟨hs, rfl⟩
  | poll io =>
      unfold httpStep
      simp only
      split
      · exact ⟨httpPoll_answered io hs, rfl⟩
      · exact ⟨hs, rfl⟩
  | err => exact ⟨Or.inl rfl, rfl⟩

theorem run_answered (fsRoot : List FsdataFile) {s : HttpSystem}
    (hs : Answered s.conn) (later : List HttpEvent) :
    (run (httpStep fsRoot) s later).hook = s.hook := by
  have hstep : forall t e, Answered (HttpSystem.conn t) ∧ t.hook = s.hook ->
      Answered (httpStep fsRoot t e).conn ∧ (httpStep fsRoot t e).hook = s.hook := by
    intro t e ht
    rcases httpStep_answered fsRoot t e ht.left with ⟨hanswered, hhook⟩
    exact ⟨hanswered, hhook.trans ht.right⟩
  exact (run_invariant hstep ⟨hs, rfl⟩ later).right

/-!
# Whole requests
-/

theorem payloads_append (segs segs' : List Segment) :
    payloads (segs ++ segs') = payloads segs ++ payloads segs' :=
  List.map_append

/-- Before the last segment the connection is still collecting. -/
theorem run_collecting (fsRoot : List FsdataFile) (r : GetRequest) (h : HookState)
    {pre post : List Segment} {seg : Segment}
    (hbytes : (payloads (pre ++ seg :: post)).flatten = r.bytes)
    (hqueue : (pre ++ seg :: post).length <= httpdReqQueuelen) :
    run (httpStep fsRoot) ⟨httpAccept, h⟩ (pre.map segmentEvent) =
      collecting (payloads pre) h := by
  induction pre using List.reverseRecOn generalizing seg post with
  | nil => rfl
  | append_singleton pre last ih =>
      have hsplit : (pre ++ [last]) ++ seg :: post = pre ++ last :: (seg :: post) := by
        simp
      rw [hsplit] at hbytes hqueue
      rw [List.map_append, List.map_singleton, run_concat, ih hbytes hqueue,
        payloads_append]
      have hpart : (payloads pre ++ [last.payload]).flatten ++
          (payloads (seg :: post)).flatten = r.bytes := by
        rw [← hbytes]
        simp [payloads]
      have hshort : (payloads pre ++ [last.payload]).flatten.length < r.bytes.length := by
        have hlen := congrArg List.length hpart
        have hseg := List.length_pos_of_ne_nil seg.nonempty
        rw [List.length_append] at hlen
        simp [payloads] at hlen ⊢
        lia
      have hfits : r.bytes.length <= httpdMaxReqLength := r.length_le
      have hdata : reqData (payloads pre ++ [last.payload]) =
          r.bytes.take (payloads pre ++ [last.payload]).flatten.length := by
        rw [reqData_eq (by lia), ← hpart]
        exact List.take_left.symm
      apply step_collecting_incomplete
      · rw [hdata]
        exact r.scan_take hshort
      · have hmod : reqTotLen (payloads pre ++ [last.payload]) <=
            (payloads pre ++ [last.payload]).flatten.length := Nat.mod_le _ _
        unfold httpdReqBufsize
        lia
      · simp [payloads] at hqueue ⊢
        lia

/--
However a GET request is cut into at most five segments, the hook is not called
before the last of them, is called once with the URI when that one is served,
and is not called by anything that happens on the connection later.
-/
theorem hook_called_once (fsRoot : List FsdataFile) (r : GetRequest) (h : HookState)
    (segs : List Segment) (hbytes : (payloads segs).flatten = r.bytes)
    (hqueue : segs.length <= httpdReqQueuelen) (later : List HttpEvent) :
    let start : HttpSystem := ⟨httpAccept, h⟩
    let before := fun pre : List Segment =>
      (run (httpStep fsRoot) start (pre.map segmentEvent)).hook
    let served := (run (httpStep fsRoot) start (segs.map segmentEvent)).hook
    let after := (run (httpStep fsRoot) start (segs.map segmentEvent ++ later)).hook
    (forall pre seg post, segs = pre ++ seg :: post ->
        (before pre).called = h.called ∧ (before pre).actions = h.actions) ∧
      served.called = h.called ++ [r.uri] ∧
      served.actions = httpdGETUriParamsParse r.uri h.actions ∧
      after.called = h.called ++ [r.uri] ∧
      after.actions = httpdGETUriParamsParse r.uri h.actions := by
  intro start before served after
  have hbefore : forall pre seg post, segs = pre ++ seg :: post ->
      run (httpStep fsRoot) start (pre.map segmentEvent) = collecting (payloads pre) h := by
    intro pre seg post hsplit
    rw [hsplit] at hbytes hqueue
    exact run_collecting fsRoot r h hbytes hqueue
  have hlast : served = callHook r.uri h ∧
      Answered (run (httpStep fsRoot) start (segs.map segmentEvent)).conn := by
    rcases segs.eq_nil_or_concat with hnil | ⟨pre, seg, hconcat⟩
    · rw [hnil] at hbytes
      have hfour := congrArg (List.take 4) hbytes
      rw [r.take_method] at hfour
      cases hfour
    · rw [List.concat_eq_append] at hconcat
      have hfits : r.bytes.length <= httpdMaxReqLength := r.length_le
      have hwhole : (payloads pre ++ [seg.payload]).flatten = r.bytes := by
        rw [← hbytes, hconcat]
        simp [payloads]
      have hscan : scanRequest (reqData (payloads pre ++ [seg.payload])) =
          .complete r.uri false := by
        rw [reqData_eq (by rw [hwhole]; exact hfits), hwhole]
        exact r.scan_bytes
      have hstep : run (httpStep fsRoot) start (segs.map segmentEvent) =
          httpStep fsRoot (collecting (payloads pre) h) (segmentEvent seg) := by
        rw [hconcat, List.map_append, List.map_singleton, run_concat,
          hbefore pre seg [] hconcat]
      change (run (httpStep fsRoot) start (segs.map segmentEvent)).hook = callHook r.uri h ∧ _
      rw [hstep]
      exact step_collecting_complete hscan
  have hafter : after = callHook r.uri h := by
    have hquiet := run_answered fsRoot hlast.right later
    rw [← run_append] at hquiet
    exact hquiet.trans hlast.left
  constructor
  · intro pre seg post hsplit
    have hcollecting := congrArg HttpSystem.hook (hbefore pre seg post hsplit)
    exact ⟨congrArg HookState.called hcollecting, congrArg HookState.actions hcollecting⟩
  · rw [hlast.left, hafter]
    exact ⟨rfl, rfl, rfl, rfl⟩

/-- The request `GET /?action=led_on HTTP/1.0` without headers. -/
def ledOnRequest : GetRequest where
  uri := cString "/?action=led_on"
  version := 48
  headers := []
  uri_ne_nil := by decide
  uri_plain := by
    have hall : (cString "/?action=led_on").all
        (fun b => b != 32 && b != 13 && b != 10) = true := rfl
    simpa [and_assoc] using hall
  no_nul := by decide
  length_le := by decide
  end_only := by
    have hall : forall i, i < 32 ->
        crlf ++ crlf <+: (requestBytes (cString "/?action=led_on") 48 []).drop i ->
        i + (crlf ++ crlf).length =
          (requestBytes (cString "/?action=led_on") 48 []).length := by
      decide
    intro i hi
    have hlen := hi.length_le
    have hbound : i < 32 := by
      rw [List.length_drop] at hlen
      have htotal : (requestBytes (cString "/?action=led_on") 48 []).length = 32 := rfl
      have hfour : (crlf ++ crlf).length = 4 := rfl
      lia
    exact hall i hbound hi

/-- The request cut inside its URI. -/
def ledOnSegments : List Segment :=
  let io : TcpOutcome := ⟨none, true⟩
  [{ payload := ledOnRequest.bytes.take 9, nonempty := by decide,
     length_lt := by decide, io := io },
    { payload := ledOnRequest.bytes.drop 9, nonempty := by decide,
      length_lt := by decide, io := io }]

/-- A poll and a second copy of the request behind the answer change nothing. -/
def ledOnLater : List HttpEvent :=
  .poll ⟨none, true⟩ :: ledOnSegments.map segmentEvent

/-- The first segment leaves the LED off, the second one turns it on. -/
theorem hook_called_once_led_on :
    let start : HttpSystem := ⟨httpAccept, ⟨⟨false, GpioB.reset⟩, []⟩⟩
    let first := run (httpStep []) start ((ledOnSegments.take 1).map segmentEvent)
    let after := run (httpStep []) start (ledOnSegments.map segmentEvent ++ ledOnLater)
    first.hook.called = [] ∧ first.hook.actions.gpio.level 0 = false ∧
      after.hook.called = [cString "/?action=led_on"] ∧
      after.hook.actions.gpio.level 0 = true ∧ after.hook.actions.actionReboot = false := by
  intro start first after
  have hbytes : (payloads ledOnSegments).flatten = ledOnRequest.bytes := by decide
  rcases hook_called_once [] ledOnRequest start.hook ledOnSegments hbytes (by decide)
    ledOnLater with ⟨hbefore, _, _, hcalled, hactions⟩
  rcases hbefore (ledOnSegments.take 1) _ [] rfl with ⟨hnone, hstill⟩
  have hlit : (httpdGETUriParamsParse ledOnRequest.uri start.hook.actions).gpio.level 0 = true ∧
      (httpdGETUriParamsParse ledOnRequest.uri start.hook.actions).actionReboot = false := by
    decide
  rw [← hactions] at hlit
  have hdark : start.hook.actions.gpio.level 0 = false := by
    decide
  rw [← hstill] at hdark
  exact ⟨hnone, hdark, hcalled, hlit⟩

end Http
end Ch579HttpLed
