import DlnaProxy.Lib.Causal
import DlnaProxy.TcpProxy.Code

/-!
# Arrival does not matter

Each function of the response side does on a reader what it does on the reader's
stream, settles, and is causal. The forwarding loop is the one function whose passes
depend on how much a read returns; `forwardRun` says what it does as a whole.
-/
namespace DlnaProxy.TcpProxy

open DlnaProxy.Lib.ByteIo DlnaProxy.Lib.Growth DlnaProxy.Lib.Utf8

variable {R : Type} [LawfulAsyncBufRead R] (t : Target)

/-! ## The forwarding loop -/

/-- Forwards the next `len` bytes, or what there is when the input ends. -/
def forwardRun (len : Nat) (s : Stream) : Run Stream Unit :=
  if len ≤ s.bytes.length then ⟨.ok (), ⟨s.bytes.drop len, s.closed⟩, s.bytes.take len⟩
  else ⟨atEnd s.closed (.ok ()), ⟨[], s.closed⟩, s.bytes⟩

omit [LawfulAsyncBufRead R] in
theorem usizeSub_eq {a b : Nat} (h : b ≤ a) : (usizeSub t a b : Io R Nat) = pure (a - b) :=
  if_pos h

theorem forwardPass_zero (r : R) : forwardPass t 0 r = ⟨.ok (.done ()), r, []⟩ := rfl

theorem forwardPass_spec {remaining : Nat} (h : 0 < remaining) (r : R) :
    (∃ c r', view r = ⟨[], c⟩ ∧ view r' = ⟨[], c⟩ ∧
      forwardPass t remaining r = ⟨atEnd c (.ok (.done ())), r', []⟩) ∨
    ∃ bytes rest c r', bytes ≠ [] ∧ bytes.length ≤ remaining ∧
      view r = ⟨bytes ++ rest, c⟩ ∧ view r' = ⟨rest, c⟩ ∧
      forwardPass t remaining r = ⟨.ok (.next (remaining - bytes.length)), r', bytes⟩ := by
  rcases read_spec r (min remaining 8192) (by omega) with
    ⟨c, r', hv, hr, hv'⟩ | ⟨bytes, rest, c, r', hne, hle, hv, hr, hv'⟩
  · refine Or.inl ⟨c, r', hv, hv', ?_⟩
    rw [forwardPass, if_pos h]
    cases c with
    | true => rw [bind_ok hr]; rfl
    | false => rw [bind_halt hr]; rfl
  · have hle' : bytes.length ≤ remaining := by omega
    refine Or.inr ⟨bytes, rest, c, r', hne, hle', hv, hv', ?_⟩
    rw [forwardPass, if_pos h, bind_ok hr]
    simp [hne, usizeSub_eq t hle', Run.prepend_mk]

theorem forwardPass_progress : Progress (R := R) (forwardPass t) := by
  intro remaining r s' h
  rcases Nat.eq_zero_or_pos remaining with rfl | hpos
  · cases h
  · rcases forwardPass_spec t hpos r with
      ⟨c, r', _, _, he⟩ | ⟨bytes, rest, c, r', hne, _, hv, hv', he⟩
    · rw [he] at h
      cases c <;> cases h
    · rw [he]
      exact unread_lt_of_view hne hv hv'

theorem forwardRun_append {len : Nat} {bytes rest : List UInt8} {c : Bool}
    (h : bytes.length ≤ len) :
    forwardRun len ⟨bytes ++ rest, c⟩ =
      (forwardRun (len - bytes.length) ⟨rest, c⟩).prepend bytes := by
  simp only [forwardRun, List.length_append]
  by_cases hl : len ≤ bytes.length + rest.length
  · rw [if_pos hl, if_pos (by omega)]
    simp [Run.prepend_mk, List.take_append, List.drop_append, List.take_of_length_le h, h]
  · rw [if_neg hl, if_neg (by omega)]
    rfl

theorem forward_view (len : Nat) (r : R) :
    (forward t len r).mapReader view = forwardRun len (view r) := by
  refine loop_rule (forwardPass_progress t)
    (P := fun len r x => x.mapReader view = forwardRun len (view r)) ?_ ?_ ?_ len r
  · intro remaining r s' r' w he ih
    rcases Nat.eq_zero_or_pos remaining with rfl | hpos
    · rw [forwardPass_zero] at he
      cases he
    · rcases forwardPass_spec t hpos r with
        ⟨c, r₁, _, _, he'⟩ | ⟨bytes, rest, c, r₁, _, hle, hv, hv', he'⟩ <;> rw [he] at he'
      · cases c <;> cases he'
      · cases he'
        rw [Run.mapReader_prepend, ih, hv, hv', forwardRun_append hle]
  · intro remaining r a r' w he
    rcases Nat.eq_zero_or_pos remaining with rfl | hpos
    · rw [forwardPass_zero] at he
      cases he
      simp [forwardRun, Run.mapReader]
    · rcases forwardPass_spec t hpos r with
        ⟨c, r₁, hv, hv', he'⟩ | ⟨bytes, rest, c, r₁, _, _, _, _, he'⟩ <;> rw [he] at he'
      · have hlen : ¬ remaining ≤ 0 := by omega
        cases c <;> cases he'
        simp [forwardRun, Run.mapReader, hv, hv', hlen]
      · cases he'
  · intro remaining r h r' w he
    rcases Nat.eq_zero_or_pos remaining with rfl | hpos
    · rw [forwardPass_zero] at he
      cases he
    · rcases forwardPass_spec t hpos r with
        ⟨c, r₁, hv, hv', he'⟩ | ⟨bytes, rest, c, r₁, _, _, _, _, he'⟩ <;> rw [he] at he'
      · have hlen : ¬ remaining ≤ 0 := by omega
        cases c <;> cases he'
        simp [forwardRun, Run.mapReader, hv, hv', hlen]
      · cases he'

theorem forward_eq (len : Nat) (s : Stream) : forward t len s = forwardRun len s :=
  forward_view t len s

/-! ## The loops -/

theorem streamed_forward (len : Nat) : Streamed (forward t len : Io R Unit) (forward t len) where
  simulates r := (forward_view t len r).trans (forward_eq t len (view r)).symm
  settles := by
    refine Settles.of_run fun s => ?_
    rw [forward_eq, forwardRun]
    split
    · exact ⟨by simp, rfl, fun _ h => nomatch h⟩
    · exact ⟨by simp, rfl, fun e h => Settles.atEnd_ok h⟩
  causal := by
    intro bytes more c
    rw [forward_eq, forward_eq]
    by_cases h : len ≤ bytes.length
    · refine Or.inr ⟨.ok (), bytes.drop len, bytes.take len, ?_, ?_⟩
      · rw [forwardRun, if_pos h]
      · rw [forwardRun, if_pos (Nat.le_trans h (by simp)), List.take_append_of_le_length h,
          List.drop_append_of_le_length h]
    · rw [forwardRun_append (Nat.le_of_not_le h), forwardRun, if_neg h]
      exact Or.inl ⟨rfl, List.prefix_append _ _⟩

theorem streamed_ofExcept {α : Type} (x : Except IoError α) :
    Streamed (ofExcept x : Io R α) (ofExcept x) := by
  cases x with
  | ok a => exact Streamed.pure a
  | error e => exact Streamed.fail e

theorem streamed_usizeAdd (a b : Nat) : Streamed (usizeAdd t a b : Io R Nat) (usizeAdd t a b) :=
  Streamed.ite _ (Streamed.pure _) (Streamed.ite _ Streamed.panic (Streamed.pure _))

theorem streamed_allocate (len : Nat) : Streamed (allocate t len : Io R Unit) (allocate t len) :=
  Streamed.ite _ (Streamed.pure _) Streamed.panic

theorem streamed_extendFromSlice (body : Vec UInt8) (chunk : List UInt8) :
    Streamed (extendFromSlice t body chunk : Io R (Vec UInt8)) (extendFromSlice t body chunk) :=
  Streamed.ite _ (Streamed.pure _) Streamed.panic

theorem lineLoop_readHeadPass :
    LineLoop (R := R) (fun _ => none) (readHeadPass t) (readHeadPass t) :=
  ⟨10, _, _, rfl, rfl, fun _ => rfl, fun _ _ =>
    Streamed.ite _ (Streamed.pure _) (Streamed.ite _ (Streamed.pure _) (Streamed.pure _))⟩

theorem lineLoop_passThroughChunkedPass :
    LineLoop (R := R) (fun _ => ()) (passThroughChunkedPass t) (passThroughChunkedPass t) := by
  refine ⟨10, _, _, rfl, rfl, fun _ => rfl, fun _ sizeLine => ?_⟩
  refine Streamed.ite _ (Streamed.pure _) ?_
  refine Streamed.bind (Streamed.writeAll _) fun _ => ?_
  refine Streamed.bind (streamed_ofExcept _) fun chunkSize => Streamed.ite _ ?_ ?_
  · refine Streamed.bind (Streamed.readUntil 10) fun trailer => ?_
    exact Streamed.bind (Streamed.writeAll _) fun _ => Streamed.pure _
  · refine Streamed.bind (streamed_forward t chunkSize) fun _ => ?_
    refine Streamed.bind (Streamed.readExact 2) fun crlf => ?_
    exact Streamed.bind (Streamed.writeAll _) fun _ => Streamed.pure _

theorem lineLoop_readChunkedBodyPass (maxSize : Nat) :
    LineLoop (R := R) Vec.toList (readChunkedBodyPass t maxSize)
      (readChunkedBodyPass t maxSize) := by
  refine ⟨10, _, _, rfl, rfl, fun _ => rfl, fun body sizeLine => ?_⟩
  refine Streamed.ite _ (Streamed.pure _) ?_
  refine Streamed.bind (streamed_ofExcept _) fun chunkSize => Streamed.ite _ ?_ ?_
  · exact Streamed.bind (Streamed.readUntil 10) fun trailer => Streamed.pure _
  · refine Streamed.bind (streamed_usizeAdd t _ _) fun size => ?_
    refine Streamed.ite _ (Streamed.fail _) ?_
    refine Streamed.bind (streamed_allocate t _) fun _ => ?_
    refine Streamed.bind (Streamed.readExact _) fun chunk => ?_
    refine Streamed.bind (streamed_extendFromSlice t _ _) fun body => ?_
    exact Streamed.bind (Streamed.readExact 2) fun _ => Streamed.pure _

variable (proxy : TCPProxy)

theorem streamed_sendRewritten (head : Head) (body : List UInt8) :
    Streamed (sendRewritten proxy head body : Io R (Control Unit Unit))
      (sendRewritten proxy head body) := by
  refine Streamed.bind (Streamed.writeAll _) fun _ => ?_
  refine Streamed.bind ?_ fun _ => Streamed.bind (Streamed.pure _) fun _ => Streamed.pure _
  refine Streamed.ite _ ?_ (Streamed.writeAll _)
  refine Streamed.bind (Streamed.writeAll _) fun _ => ?_
  refine Streamed.bind (Streamed.writeAll _) fun _ => ?_
  exact Streamed.bind (Streamed.writeAll _) fun _ => Streamed.writeAll _

theorem streamed_streamUntilClose (head : Head) :
    Streamed (streamUntilClose head : Io R (Control Unit Unit)) (streamUntilClose head) := by
  refine Streamed.bind (Streamed.writeAll _) fun _ => ?_
  refine Streamed.bind (Streamed.pure _) fun _ => ?_
  exact Streamed.bind Streamed.copy fun _ => Streamed.pure _

theorem streamed_passThrough (head : Head) :
    Streamed (passThrough t head : Io R (Control Unit Unit)) (passThrough t head) := by
  refine Streamed.bind (Streamed.writeAll _) fun _ => ?_
  refine Streamed.bind ?_ fun _ => Streamed.bind (Streamed.pure _) fun _ => Streamed.pure _
  refine Streamed.ite _ ((lineLoop_passThroughChunkedPass t).streamed ()) ?_
  split
  · exact streamed_forward t _
  · exact Streamed.pure _

theorem streamed_rewrite (head : Head) :
    Streamed (rewrite t proxy head : Io R (Control Unit Unit)) (rewrite t proxy head) := by
  refine Streamed.ite _ ?_ ?_
  · refine Streamed.bind ((lineLoop_readChunkedBodyPass t _).streamed .new) fun _ => ?_
    exact streamed_sendRewritten _ _ _
  · split
    · refine Streamed.bind (streamed_allocate t _) fun _ => ?_
      exact Streamed.bind (Streamed.readExact _) fun _ => streamed_sendRewritten _ _ _
    · exact Streamed.pure _

theorem streamed_respond (head : Head) :
    Streamed (respond t proxy head : Io R (Control Unit Unit)) (respond t proxy head) :=
  Streamed.ite _ (Streamed.pure _) <| Streamed.ite _ (streamed_streamUntilClose head) <|
    Streamed.ite _ (streamed_passThrough t head) (streamed_rewrite t proxy head)

theorem streamed_responsePass (u : Unit) :
    Streamed (responsePass t proxy u : Io R (Control Unit Unit)) (responsePass t proxy u) := by
  refine Streamed.bind ((lineLoop_readHeadPass t).streamed Head.empty) ?_
  rintro (_ | head)
  · exact Streamed.pure _
  · exact streamed_respond t proxy head

/-- A header block that was read is at least a byte long. -/
theorem readHead_consumes {s : Stream} {head : Head}
    (h : (readHead t s).outcome = .ok (some head)) :
    unread (readHead t s).reader < unread s :=
  (lineLoop_readHeadPass (R := Stream) t).loop_consumes (a := some head) (fun _ h => nomatch h)
    Head.empty s h

theorem responsePass_progress : Progress (R := R) (responsePass t proxy) := by
  refine Simulates.progress (fun u => (streamed_responsePass t proxy u).simulates) ?_
  intro u s s' h
  have hc := @readHead_consumes t s
  rw [responsePass, bind_apply] at h ⊢
  rcases hr : readHead t s with ⟨e | _ | head, r', w⟩ <;> rw [hr] at h hc
  · cases h
  · cases h
  · have hle := (streamed_respond (R := Stream) t proxy head).settles.length_le r'
    exact Nat.lt_of_le_of_lt hle (hc rfl)

/-- **The response loop on a reader is the response loop on its stream.** -/
theorem streamed_responseLoop : Streamed (responseLoop t proxy : Io R Unit) (responseLoop t proxy) :=
  Streamed.loop (responsePass_progress t proxy) (streamed_responsePass t proxy) ()

/-- The run on a closed stream is fair. -/
theorem proxyResponseWithRewrite_fair (originRead : OwnedReadHalf) {e : Halt}
    (h : (proxyResponseWithRewrite t proxy originRead).outcome = .error e) :
    Fair originRead.closed e := by
  have hstream := streamed_responseLoop (R := BufReader) t proxy
  rw [proxyResponseWithRewrite, hstream.simulates.outcome] at h
  exact hstream.settles.fair h

/-! ## The run on a socket -/

/-- The run on a socket, seen from the run on the origin's bytes. -/
theorem proxyResponseWithRewrite_view (proxy : TCPProxy) (originRead : OwnedReadHalf) :
    (proxyResponseWithRewrite t proxy originRead).mapReader BufReader.stream =
      responseLoop t proxy ⟨originRead.bytes, originRead.closed⟩ :=
  (streamed_responseLoop t proxy).simulates originRead.reader

theorem proxyResponseWithRewrite_written (proxy : TCPProxy) (originRead : OwnedReadHalf) :
    (proxyResponseWithRewrite t proxy originRead).written =
      (responseLoop t proxy (Stream.mk originRead.bytes originRead.closed)).written :=
  congrArg Run.written (proxyResponseWithRewrite_view t proxy originRead)

theorem proxyResponseWithRewrite_outcome (proxy : TCPProxy) (originRead : OwnedReadHalf) :
    (proxyResponseWithRewrite t proxy originRead).outcome =
      (responseLoop t proxy (Stream.mk originRead.bytes originRead.closed)).outcome :=
  congrArg Run.outcome (proxyResponseWithRewrite_view t proxy originRead)

theorem proxyResponseWithRewrite_ofBytes (proxy : TCPProxy) (bytes : List UInt8) :
    (proxyResponseWithRewrite t proxy (.ofBytes bytes)).mapReader BufReader.stream =
      responseLoop t proxy ⟨bytes, true⟩ := by
  rw [proxyResponseWithRewrite_view, OwnedReadHalf.bytes_ofBytes]
  rfl

theorem written_ofBytes (proxy : TCPProxy) (bytes : List UInt8) :
    (proxyResponseWithRewrite t proxy (.ofBytes bytes)).written =
      (responseLoop t proxy (Stream.mk bytes true)).written :=
  congrArg Run.written (proxyResponseWithRewrite_ofBytes t proxy bytes)

/-- The passes of the run on a socket that lead to `reader` and write `w`. -/
def ReadsTo (proxy : TCPProxy) (originRead : OwnedReadHalf) (w : List UInt8)
    (reader : BufReader) : Prop :=
  Reaches (responsePass t proxy) () originRead.reader w () reader

/-- Passes on the origin's bytes are passes of the run on the socket. -/
theorem ReadsTo.of_reaches {t : Target} {proxy : TCPProxy} {originRead : OwnedReadHalf}
    {w : List UInt8} {s : Stream} (h : Reaches (responsePass t proxy) ()
      ⟨originRead.bytes, originRead.closed⟩ w () s) :
    ∃ reader, ReadsTo t proxy originRead w reader ∧ reader.stream = s :=
  Simulates.reaches (fun u => (streamed_responsePass t proxy u).simulates) h _
    originRead.stream_reader

/-- And the other way round. -/
theorem ReadsTo.reaches {t : Target} {proxy : TCPProxy} {originRead : OwnedReadHalf}
    {w : List UInt8} {reader : BufReader} (h : ReadsTo t proxy originRead w reader) :
    Reaches (responsePass t proxy) () ⟨originRead.bytes, originRead.closed⟩ w () reader.stream :=
  Simulates.view_reaches (fun u => (streamed_responsePass t proxy u).simulates) h

/-- Where the passes have led, the rest of the run is that on the bytes left. -/
theorem ReadsTo.run {t : Target} {proxy : TCPProxy} {originRead : OwnedReadHalf} {w : List UInt8}
    {reader : BufReader} (h : ReadsTo t proxy originRead w reader) :
    (proxyResponseWithRewrite t proxy originRead).mapReader BufReader.stream =
      (responseLoop t proxy reader.stream).prepend w := by
  have hloop := h.loop_eq (responsePass_progress t proxy)
  rw [proxyResponseWithRewrite, responseLoop, hloop, Run.mapReader_prepend]
  exact congrArg _ ((streamed_responseLoop t proxy).simulates reader)

/-- What has been written by the time `seen` has arrived is the beginning of what
is written in the end. -/
theorem proxyResponseWithRewrite_causal (proxy : TCPProxy) (seen more : List Piece) (c : Bool) :
    (proxyResponseWithRewrite t proxy ⟨seen, false⟩).written <+:
      (proxyResponseWithRewrite t proxy ⟨seen ++ more, c⟩).written := by
  have hjoined : OwnedReadHalf.bytes ⟨seen ++ more, c⟩ =
      OwnedReadHalf.bytes ⟨seen, false⟩ ++ BufReader.joined more := by
    simp [OwnedReadHalf.bytes, BufReader.joined]
  rw [proxyResponseWithRewrite_written, proxyResponseWithRewrite_written, hjoined]
  exact (streamed_responseLoop (R := Stream) t proxy).causal.written _ _ c

/-- **The output and the outcome depend on the bytes, not on their arrival**, and
a run on a closed stream ends. -/
theorem proxyResponseWithRewrite_arrival (proxy : TCPProxy) (arrivals : List Piece) :
    let run := proxyResponseWithRewrite t proxy ⟨arrivals, true⟩
    let whole := proxyResponseWithRewrite t proxy
      ⟨BufReader.onePiece (BufReader.joined arrivals), true⟩
    run.outcome ≠ .error .diverged ∧ run.outcome ≠ .error .pending ∧
      run.written = whole.written ∧ run.outcome = whole.outcome := by
  intro run whole
  have hfair : ∀ e, run.outcome = .error e → Fair true e :=
    fun _ he => proxyResponseWithRewrite_fair t proxy _ he
  have hbytes : BufReader.joined (BufReader.onePiece (BufReader.joined arrivals)) =
      BufReader.joined arrivals := BufReader.joined_onePiece _
  have hwritten : run.written = whole.written := by
    rw [proxyResponseWithRewrite_written, proxyResponseWithRewrite_written, OwnedReadHalf.bytes,
      OwnedReadHalf.bytes, hbytes]
  have houtcome : run.outcome = whole.outcome := by
    rw [proxyResponseWithRewrite_outcome, proxyResponseWithRewrite_outcome, OwnedReadHalf.bytes,
      OwnedReadHalf.bytes, hbytes]
  refine ⟨fun he => (hfair _ he).1 rfl, fun he => ?_, hwritten, houtcome⟩
  exact nomatch (hfair _ he).2 rfl

end DlnaProxy.TcpProxy
