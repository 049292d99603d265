import Ch579HttpLed.Http.Httpd

/-!
# Idle connections are closed

`http_poll` counts in an eight-bit field and closes the connection when the count is
equal to `HTTPD_MAX_RETRIES`.  The count is reset by an acknowledgement and, once,
by the request that opens a file.  So a connection whose client acknowledges nothing
is closed by its seventh poll at the latest, whatever else it receives.
-/

namespace Ch579HttpLed
namespace Http

open App Driver Foundation Net

def HttpEvent.isSent : HttpEvent -> Bool
  | .sent _ => true
  | _ => false

def HttpEvent.isPoll : HttpEvent -> Bool
  | .poll _ => true
  | _ => false

/-- Polls that a connection can still live through without an acknowledgement. -/
def pollBudget (c : HttpConn) : Nat :=
  match c.hs with
  | none => 0
  | some hs => (if hs.handle.isSome then 4 else 7) - hs.retries.toNat

/-- The count is below its limit, and somebody counts. -/
def Counting (c : HttpConn) : Prop :=
  forall hs, c.hs = some hs -> hs.retries.toNat < 4 ∧ c.pollSet = true

section Polls

variable {c : HttpConn}

theorem counting_closed (io : TcpOutcome) : Counting (httpCloseConn io) := by
  intro hs hc
  cases hc

theorem counting_some {hs : HttpState} (hcount : hs.retries.toNat < 4)
    (hpoll : c.pollSet = true) : Counting { c with hs := some hs } := by
  intro hs' hc
  cases hc
  exact ⟨hcount, hpoll⟩

theorem pollBudget_le (c : HttpConn) : pollBudget c <= 7 := by
  unfold pollBudget
  cases c.hs with
  | none =>
      exact Nat.zero_le _
  | some hs =>
      simp only
      split
      · lia
      · lia

theorem pollBudget_pos {hs : HttpState} (h : Counting c) (hhs : c.hs = some hs) :
    0 < pollBudget c := by
  have hcount := (h hs hhs).left
  unfold pollBudget
  rw [hhs]
  simp only
  split
  · lia
  · lia

/-- A send closes the connection or leaves the file and the count alone. -/
theorem httpSend_counting (h : Counting c) (io : TcpOutcome) :
    Counting (httpSend io c) ∧ pollBudget (httpSend io c) <= pollBudget c := by
  unfold httpSend
  cases hhs : c.hs with
  | none =>
      exact ⟨h, Nat.le_refl _⟩
  | some hs =>
      rcases h hs hhs with ⟨hcount, hpoll⟩
      simp only
      split
      · exact ⟨counting_closed io, Nat.zero_le _⟩
      · cases io.written with
        | none =>
            exact ⟨h, Nat.le_refl _⟩
        | some n =>
            simp only
            split
            · exact ⟨counting_closed io, Nat.zero_le _⟩
            · refine ⟨counting_some hcount hpoll, ?_⟩
              unfold pollBudget
              rw [hhs]

/-- Opening the file resets the count, but a connection that found none is closed. -/
theorem httpSend_initFile_counting (hpoll : c.pollSet = true) (hs : HttpState)
    (file : Option FsFile) (is09 : Bool) (io : TcpOutcome) :
    Counting (httpSend io { c with hs := some { httpInitFile hs file is09 with req := [] } }) ∧
      pollBudget (httpSend io
        { c with hs := some { httpInitFile hs file is09 with req := [] } }) <= 4 := by
  cases file with
  | none =>
      have hclose : httpSend io { c with hs := some { httpInitFile hs none is09 with req := [] } } =
          httpCloseConn io := rfl
      rw [hclose]
      exact ⟨counting_closed io, Nat.zero_le _⟩
  | some f =>
      have hopened : (httpInitFile hs (some f) is09).retries = 0 ∧
          (httpInitFile hs (some f) is09).handle.isSome = true := by
        unfold httpInitFile
        simp only
        split
        · cases lwipStrnstr f.data (crlf ++ crlf) with
          | none => exact ⟨rfl, rfl⟩
          | some i => exact ⟨rfl, rfl⟩
        · exact ⟨rfl, rfl⟩
      have hstart : Counting { c with
          hs := some { httpInitFile hs (some f) is09 with req := [] } } := by
        apply counting_some _ hpoll
        simp only [hopened.left]
        decide
      have hbudget : pollBudget { c with
          hs := some { httpInitFile hs (some f) is09 with req := [] } } <= 4 := by
        unfold pollBudget
        simp only [hopened.right, if_true]
        lia
      rcases httpSend_counting hstart io with ⟨hcounting, hle⟩
      exact ⟨hcounting, Nat.le_trans hle hbudget⟩

theorem httpRecvParsed_counting (fsRoot : List FsdataFile) {hs : HttpState} {s : HttpSystem}
    (h : Counting s.conn) (hhs : s.conn.hs = some hs) (hhandle : hs.handle = none)
    (inp : List (List UInt8)) (io : TcpOutcome) :
    Counting (httpRecvParsed io s.conn (httpParseRequest fsRoot inp hs s.hook)).conn ∧
      pollBudget (httpRecvParsed io s.conn (httpParseRequest fsRoot inp hs s.hook)).conn <=
        pollBudget s.conn := by
  rcases h hs hhs with ⟨hcount, hpoll⟩
  have hbudget : pollBudget s.conn = 7 - hs.retries.toNat := by
    unfold pollBudget
    rw [hhs]
    simp [hhandle]
  have hsame : forall req, Counting { s.conn with hs := some { hs with req := req } } ∧
      pollBudget { s.conn with hs := some { hs with req := req } } <= pollBudget s.conn := by
    intro req
    refine ⟨counting_some hcount hpoll, ?_⟩
    rw [hbudget]
    unfold pollBudget
    simp [hhandle]
  unfold httpParseRequest
  split
  · exact hsame []
  · simp only
    cases scanRequest (reqData (hs.req ++ inp)) with
    | incomplete =>
        simp only
        split
        · exact hsame (hs.req ++ inp)
        · exact ⟨counting_closed io, Nat.zero_le _⟩
    | unsupported =>
        exact ⟨counting_closed io, Nat.zero_le _⟩
    | complete uri is09 =>
        rcases httpSend_initFile_counting hpoll { hs with req := hs.req ++ inp }
          (findRequestedFile fsRoot uri) is09 io with ⟨hcounting, hle⟩
        refine ⟨hcounting, ?_⟩
        rw [hbudget]
        exact Nat.le_trans hle (by lia)

theorem httpSent_counting (h : Counting c) (io : TcpOutcome) : Counting (httpSent io c) := by
  unfold httpSent
  cases hhs : c.hs with
  | none =>
      exact h
  | some hs =>
      have hreset : (0 : UInt8).toNat < 4 := by decide
      exact (httpSend_counting (counting_some hreset (h hs hhs).right) io).left

/-- A poll closes the connection or uses up one of the polls it has left. -/
theorem httpPoll_counting (h : Counting c) (io : TcpOutcome) :
    Counting (httpPoll io c) ∧ pollBudget (httpPoll io c) <= pollBudget c - 1 := by
  unfold httpPoll
  cases hhs : c.hs with
  | none =>
      exact ⟨counting_closed io, Nat.zero_le _⟩
  | some hs =>
      rcases h hs hhs with ⟨hcount, hpoll⟩
      have hnext : (hs.retries + 1).toNat = hs.retries.toNat + 1 := by
        rw [UInt8.toNat_add]
        exact Nat.mod_eq_of_lt (by change hs.retries.toNat + 1 < 256; lia)
      simp only
      split
      · exact ⟨counting_closed io, Nat.zero_le _⟩
      next hlimit =>
        have hbelow : (hs.retries + 1).toNat < 4 := by
          have hne : (hs.retries + 1).toNat ≠ 4 :=
            fun hc => hlimit (UInt8.toNat_inj.mp hc)
          lia
        have hcounted : Counting { c with hs := some { hs with retries := hs.retries + 1 } } :=
          counting_some hbelow hpoll
        have hbudget : pollBudget { c with hs := some { hs with retries := hs.retries + 1 } } =
            pollBudget c - 1 := by
          unfold pollBudget
          rw [hhs]
          simp only [hnext]
          split
          · lia
          · lia
        rw [← hbudget]
        split
        · exact httpSend_counting hcounted io
        · exact ⟨hcounted, Nat.le_refl _⟩

def pollCost (e : HttpEvent) : Nat :=
  if e.isPoll then 1 else 0

theorem httpStep_counting (fsRoot : List FsdataFile) (s : HttpSystem) (e : HttpEvent)
    (h : Counting s.conn) :
    Counting (httpStep fsRoot s e).conn := by
  cases e with
  | recv ok p io =>
      unfold httpStep httpRecv
      dsimp only
      split
      · split
        next p hs hhs =>
          split
          next hhandle =>
            have hnone := Option.isNone_iff_eq_none.mp hhandle
            exact (httpRecvParsed_counting fsRoot h hhs hnone _ io).left
          next =>
            exact h
        next =>
          exact counting_closed io
      · exact h
  | sent io =>
      unfold httpStep
      dsimp only
      split
      · exact httpSent_counting h io
      · exact h
  | poll io =>
      unfold httpStep
      dsimp only
      split
      · exact (httpPoll_counting h io).left
      · exact h
  | err =>
      exact fun hs hc => by cases hc

theorem httpStep_budget (fsRoot : List FsdataFile) {s : HttpSystem} {e : HttpEvent}
    (h : Counting s.conn) (hquiet : e.isSent = false) :
    pollBudget (httpStep fsRoot s e).conn <= pollBudget s.conn - pollCost e := by
  cases e with
  | recv ok p io =>
      unfold httpStep httpRecv
      dsimp only
      split
      · split
        next p hs hhs =>
          split
          next hhandle =>
            have hnone := Option.isNone_iff_eq_none.mp hhandle
            exact (httpRecvParsed_counting fsRoot h hhs hnone _ io).right
          next =>
            exact Nat.le_refl _
        next =>
          exact Nat.zero_le _
      · exact Nat.le_refl _
  | sent io =>
      cases hquiet
  | poll io =>
      unfold httpStep
      dsimp only
      split
      · exact (httpPoll_counting h io).right
      next hset =>
        -- Nobody polls only after the connection is gone.
        cases hhs : s.conn.hs with
        | none =>
            unfold pollBudget
            rw [hhs]
            exact Nat.zero_le _
        | some hs =>
            exact absurd (h hs hhs).right hset
  | err =>
      exact Nat.zero_le _

theorem run_budget (fsRoot : List FsdataFile) {s : HttpSystem} {es : List HttpEvent}
    (h : Counting s.conn) (hquiet : forall e, e ∈ es -> e.isSent = false) :
    pollBudget (run (httpStep fsRoot) s es).conn <=
      pollBudget s.conn - es.countP HttpEvent.isPoll := by
  induction es generalizing s with
  | nil =>
      exact Nat.le_refl _
  | cons e es ih =>
      have hrest := ih (httpStep_counting fsRoot s e h)
        (fun f hf => hquiet f (List.mem_cons_of_mem _ hf))
      have hstep := httpStep_budget fsRoot h (hquiet e List.mem_cons_self)
      have hcost : (e :: es).countP HttpEvent.isPoll =
          es.countP HttpEvent.isPoll + pollCost e := by
        rw [List.countP_cons]
        rfl
      rw [run_cons, hcost]
      lia

/--
Seven polls without an acknowledgement close every connection, in any state it is in.
Closed means that `http_close_conn` was called and the state is freed; a `tcp_close`
that fails is tried again by the polls that follow.
-/
theorem idle_connection_closes (fsRoot : List FsdataFile) (h : HookState)
    (es fs : List HttpEvent) (hquiet : forall e, e ∈ fs -> e.isSent = false)
    (hpolls : 7 <= fs.countP HttpEvent.isPoll) :
    (run (httpStep fsRoot) ⟨httpAccept, h⟩ (es ++ fs)).conn.hs = none := by
  have hinit : Counting (HttpSystem.mk httpAccept h).conn := by
    intro hs hc
    cases hc
    exact ⟨by decide, rfl⟩
  have hkeep := fun s e => httpStep_counting fsRoot s e
  have hmid : Counting (run (httpStep fsRoot) ⟨httpAccept, h⟩ es).conn :=
    run_invariant hkeep hinit es
  have hend : Counting (run (httpStep fsRoot) ⟨httpAccept, h⟩ (es ++ fs)).conn :=
    run_invariant hkeep hinit (es ++ fs)
  have hspent : pollBudget (run (httpStep fsRoot) ⟨httpAccept, h⟩ (es ++ fs)).conn = 0 := by
    have hle := run_budget fsRoot hmid hquiet
    have hfull := pollBudget_le (run (httpStep fsRoot) ⟨httpAccept, h⟩ es).conn
    rw [← run_append] at hle
    lia
  cases hhs : (run (httpStep fsRoot) ⟨httpAccept, h⟩ (es ++ fs)).conn.hs with
  | none => rfl
  | some hs =>
      have hpos := pollBudget_pos hend hhs
      lia

/-- A request after three polls whose response finds no room in the send buffer. -/
def lateRequest : List HttpEvent :=
  List.replicate 3 (.poll ⟨none, true⟩) ++
    .recv true (some (PbufChain.single (cString "GET /index.html HTTP/1.0\r\n\r\n") (by decide)))
      ⟨none, true⟩ :: List.replicate 4 (.poll ⟨none, true⟩)

theorem idle_connection_closes_late :
    (run (httpStep [⟨cString "/index.html", ⟨[72, 105], true⟩⟩])
      ⟨httpAccept, ⟨⟨false, GpioB.reset⟩, []⟩⟩ ([] ++ lateRequest)).conn.hs = none :=
  idle_connection_closes _ _ [] lateRequest (by decide) (by decide)

-- Six polls are not enough.
example :
    (run (httpStep [⟨cString "/index.html", ⟨[72, 105], true⟩⟩])
      ⟨httpAccept, ⟨⟨false, GpioB.reset⟩, []⟩⟩ (lateRequest.take 7)).conn.hs.isSome = true := by
  decide +kernel

end Polls

end Http
end Ch579HttpLed
