import DlnaProxy.TcpProxy.Client

/-!
# Pass-through is lossless

On a stream none of whose header blocks selects the rewriting, every pass writes
what it reads, in order and without a gap. So the output is a prefix of the
stream, well formed or not, and a run that returns has written all of it but at
most the lines of a header block that does not end.
-/
namespace DlnaProxy.TcpProxy

open DlnaProxy.Lib.ByteIo DlnaProxy.Lib.Utf8 DlnaProxy.Net

/-- Whether the response goes down the rewrite path: it is framed, and its content
type and length are such that it is rewritten. -/
def Head.selectsRewrite (head : Head) : Bool :=
  (head.isChunked || head.contentLength.isSome) && head.needsRewrite && !head.bodyTooLarge

theorem Head.selectsRewrite_iff {head : Head} : head.selectsRewrite = true ↔
    (head.isChunked || head.contentLength.isSome) = true ∧ head.needsRewrite = true ∧
      head.bodyTooLarge = false := by
  simp [Head.selectsRewrite, and_assoc]

theorem respond_selected {t : Target} (proxy : TCPProxy) {block : HeaderBlock}
    (h : (block.head t).selectsRewrite = true) (s : Stream) :
    respond t proxy (block.head t) s = rewrite t proxy (block.head t) s := by
  obtain ⟨hframed, htext, hwithin⟩ := Head.selectsRewrite_iff.mp h
  apply respond_rewrite t proxy hframed
  rw [htext, hwithin]
  rfl

theorem respond_unselected {t : Target} (proxy : TCPProxy) {block : HeaderBlock}
    (hframed : ((block.head t).isChunked || (block.head t).contentLength.isSome) = true)
    (h : (block.head t).selectsRewrite = false) (s : Stream) :
    respond t proxy (block.head t) s = passThrough t (block.head t) s := by
  apply respond_passThrough t proxy hframed
  rw [Head.selectsRewrite, hframed, Bool.true_and] at h
  rw [← Bool.not_eq_false', Bool.not_or, Bool.not_not, h]

/-- No header block that the proxy parses on the stream selects the rewriting. -/
def PassesThrough (t : Target) (proxy : TCPProxy) (s : Stream) : Prop :=
  ∀ (w : List UInt8) (s' : Stream) (head : Head), Reaches (responsePass t proxy) () s w () s' →
    (readHead t s').outcome = .ok (some head) → head.selectsRewrite = false

theorem LengthResponse.not_selectsRewrite {t : Target} {r : LengthResponse t}
    (hnot : ¬ r.Rewritable) : (r.block.head t).selectsRewrite = false := by
  have hpass := r.passed_iff.mpr hnot
  rw [← Bool.not_eq_false', Bool.not_or, Bool.not_not] at hpass
  rw [Head.selectsRewrite, Bool.and_assoc, hpass, Bool.and_false]

/-! ## One pass -/

section Pass

variable (t : Target)

theorem forwards_forward (len : Nat) : Forwards [] (forward t len : Io Stream Unit) := by
  intro s
  rw [forward_eq, forwardRun]
  split
  · exact ⟨List.take_prefix _ _, fun _ _ => List.take_append_drop _ _⟩
  · exact ⟨List.prefix_rfl, fun _ _ => List.append_nil _⟩

theorem forwards_ofExcept_bind {α β : Type} {held : List UInt8} {x : Except IoError α}
    {f : α → Io Stream β} (hf : ∀ a, Forwards held (f a)) :
    Forwards held (ofExcept x >>= f) := by
  cases x with
  | ok a => exact hf a
  | error e => exact Forwards.halt held (.error e)

theorem forwards_passThroughChunkedPass :
    Forwards [] (passThroughChunkedPass t () : Io Stream (Control Unit Unit)) := by
  apply Forwards.readUntil_bind
  intro sizeLine
  rw [List.nil_append]
  cases hempty : sizeLine.isEmpty with
  | true =>
    rw [List.isEmpty_iff.mp hempty]
    exact Forwards.pure _
  | false =>
    simp only [Bool.false_eq_true, ↓reduceIte]
    apply Forwards.writeAll_bind
    apply forwards_ofExcept_bind
    intro chunkSize
    apply Forwards.ite
    · apply Forwards.readUntil_bind
      intro trailer
      exact Forwards.writeAll_bind (Forwards.pure _)
    · apply Forwards.bind (forwards_forward t chunkSize)
      intro _
      apply Forwards.readExact_bind
      intro crlf
      exact Forwards.writeAll_bind (Forwards.pure _)

theorem forwards_passThroughChunked : Forwards [] (passThroughChunked t : Io Stream Unit) := by
  have hp := (lineLoop_passThroughChunkedPass (R := Stream) t).progress
  exact Forwards.loop hp (fun _ => forwards_passThroughChunkedPass t) ()

theorem forwards_passThroughBody (head : Head) :
    Forwards [] (passThroughBody t head : Io Stream Unit) := by
  unfold passThroughBody
  apply Forwards.ite
  · exact forwards_passThroughChunked t
  · split
    · exact forwards_forward t _
    · exact Forwards.pure ()

theorem forwards_passThrough (head : Head) :
    Forwards head.headerBuf (passThrough t head : Io Stream (Control Unit Unit)) := by
  apply Forwards.writeAll_bind
  apply Forwards.bind (forwards_passThroughBody t head)
  exact fun _ => Forwards.pure _

theorem forwards_streamUntilClose (head : Head) :
    Forwards head.headerBuf (streamUntilClose head : Io Stream (Control Unit Unit)) := by
  apply Forwards.writeAll_bind
  apply Forwards.bind (Forwards.pure ())
  exact fun _ => Forwards.bind Forwards.copy fun _ => Forwards.pure _

/-- A response that does not select the rewriting is streamed or passed through. -/
theorem respond_cases (proxy : TCPProxy) {block : HeaderBlock}
    (h : (block.head t).selectsRewrite = false) :
    (respond t proxy (block.head t) : Io Stream _) = streamUntilClose (block.head t) ∨
      (respond t proxy (block.head t) : Io Stream _) = passThrough t (block.head t) := by
  cases hframed : ((block.head t).isChunked || (block.head t).contentLength.isSome) with
  | false =>
    obtain ⟨hchunked, hlength⟩ := Bool.or_eq_false_iff.mp hframed
    rw [Option.isSome_eq_false_iff] at hlength
    left
    rw [respond, head_not_empty, hchunked, hlength]
    rfl
  | true =>
    right
    funext s
    exact respond_unselected proxy hframed h s

theorem forwards_respond (proxy : TCPProxy) {block : HeaderBlock}
    (h : (block.head t).selectsRewrite = false) :
    Forwards block.bytes (respond t proxy (block.head t) : Io Stream (Control Unit Unit)) := by
  rw [← block.headerBuf_head t]
  rcases respond_cases t proxy h with heq | heq <;> rw [heq]
  · exact forwards_streamUntilClose _
  · exact forwards_passThrough t _

theorem prefix_written_respond (proxy : TCPProxy) {block : HeaderBlock}
    (h : (block.head t).selectsRewrite = false) (s : Stream) :
    block.bytes <+: (respond t proxy (block.head t) s).written := by
  rcases respond_cases t proxy h with heq | heq <;> rw [heq]
  · rw [streamUntilClose, writeAll_bind_apply, block.headerBuf_head]
    exact List.prefix_append _ _
  · rw [passThrough, writeAll_bind_apply, block.headerBuf_head]
    exact List.prefix_append _ _

/-- A response after which the loop is done has been streamed to the end. -/
theorem respond_done (proxy : TCPProxy) {block : HeaderBlock}
    (h : (block.head t).selectsRewrite = false) {s : Stream}
    (hdone : (respond t proxy (block.head t) s).outcome = .ok (.done ())) :
    (respond t proxy (block.head t) s).reader.bytes = [] := by
  rcases respond_cases t proxy h with heq | heq <;> rw [heq] at hdone ⊢
  · rw [streamUntilClose, writeAll_bind_apply, flush_bind_apply, bind_apply, copy_eq, copyRun] at hdone ⊢
    cases hc : s.closed <;> rw [hc] at hdone
    · cases hdone
    · rfl
  · rw [passThrough, writeAll_bind_apply, bind_apply] at hdone
    rcases hbody : passThroughBody t (block.head t) s with ⟨h | _, r, w⟩ <;> rw [hbody] at hdone <;>
      cases hdone

end Pass

/-! ## The run -/

section Run

variable {t : Target} {proxy : TCPProxy}

theorem PassesThrough.head {block : HeaderBlock} {rest : List UInt8} {c : Bool}
    (h : PassesThrough t proxy ⟨block.bytes ++ rest, c⟩) :
    (block.head t).selectsRewrite = false :=
  h [] _ _ (Reaches.refl _ _) (congrArg Run.outcome (readHead_block t block rest c))

theorem PassesThrough.next {s s' : Stream} {w : List UInt8} (h : PassesThrough t proxy s)
    (pass : responsePass t proxy () s = ⟨.ok (.next ()), s', w⟩) : PassesThrough t proxy s' :=
  fun w' s'' head hreach => h (w ++ w') s'' head (Reaches.step pass hreach)

/-- One pass loses nothing, and the last one leaves at most an incomplete header block. -/
theorem responsePass_lossless {s : Stream} (h : PassesThrough t proxy s)
    {run : Run Stream (Control Unit Unit)} (hrun : responsePass t proxy () s = run) :
    run.written <+: s.bytes ∧
      (run.outcome = .ok (.next ()) → run.written ++ run.reader.bytes = s.bytes) ∧
      (run.outcome = .ok (.done ()) → ∃ tail, run.written ++ tail = s.bytes ∧ Incomplete tail) := by
  subst hrun
  obtain ⟨bytes, c⟩ := s
  rcases HeaderBlock.exists_or_incomplete bytes with ⟨block, rest, rfl⟩ | hincomplete
  · have hselect := h.head
    obtain ⟨hpre, hall⟩ := forwards_respond t proxy hselect ⟨rest, c⟩
    rw [responsePass_block]
    refine ⟨hpre, hall _, fun hdone => ⟨[], ?_, ?_⟩⟩
    · rw [← respond_done t proxy hselect hdone]
      exact hall _ hdone
    · intro line hline
      cases hline
  · rw [responsePass_incomplete t proxy hincomplete]
    refine ⟨List.nil_prefix, fun hnext => ?_, fun _ => ⟨bytes, rfl, hincomplete⟩⟩
    cases c <;> cases hnext

/-- The run loses nothing. -/
theorem responseLoop_lossless {s : Stream} (h : PassesThrough t proxy s) :
    (responseLoop t proxy s).written <+: s.bytes ∧
      ((responseLoop t proxy s).outcome = .ok () →
        ∃ tail, (responseLoop t proxy s).written ++ tail = s.bytes ∧ Incomplete tail) := by
  refine loop_rule (responsePass_progress t proxy) (P := fun _ s x => PassesThrough t proxy s →
    x.written <+: s.bytes ∧ (x.outcome = .ok () → ∃ tail, x.written ++ tail = s.bytes ∧
      Incomplete tail)) ?_ ?_ ?_ () s h
  · intro _ s _ s' w hpass ih h
    obtain ⟨_, hnext, _⟩ := responsePass_lossless h hpass
    obtain ⟨hpre, hok⟩ := ih (h.next hpass)
    have hbytes : w ++ s'.bytes = s.bytes := hnext rfl
    rw [← hbytes]
    refine ⟨(List.prefix_append_right_inj w).mpr hpre, fun hout => ?_⟩
    obtain ⟨tail, htail, hincomplete⟩ := hok hout
    refine ⟨tail, ?_, hincomplete⟩
    rw [Run.prepend_written, List.append_assoc, htail]
  · intro _ s _ s' w hpass h
    obtain ⟨hpre, _, hdone⟩ := responsePass_lossless h hpass
    exact ⟨hpre, fun _ => hdone rfl⟩
  · intro _ s e s' w hpass h
    obtain ⟨hpre, _, _⟩ := responsePass_lossless h hpass
    exact ⟨hpre, fun hout => nomatch hout⟩

end Run

/-- **Pass-through is lossless on every stream.** If no header block selects the
rewriting, what has been written at any moment, when `seen` has arrived, is a prefix
of the stream; and a run that returns has written it all but at most an incomplete
header block at its end. -/
theorem proxyResponseWithRewrite_lossless (t : Target) (proxy : TCPProxy) {arrivals : List Piece}
    (h : PassesThrough t proxy ⟨BufReader.joined arrivals, true⟩) :
    let run := proxyResponseWithRewrite t proxy ⟨arrivals, true⟩
    run.written <+: BufReader.joined arrivals ∧
      (∀ seen, seen <+: arrivals →
        (proxyResponseWithRewrite t proxy ⟨seen, false⟩).written <+: BufReader.joined arrivals) ∧
      (run.outcome = .ok () →
        ∃ tail, run.written ++ tail = BufReader.joined arrivals ∧ Incomplete tail) := by
  intro run
  obtain ⟨hpre, hok⟩ := responseLoop_lossless h
  have hw : run.written = (responseLoop t proxy (Stream.mk (BufReader.joined arrivals) true)).written :=
    proxyResponseWithRewrite_written t proxy ⟨arrivals, true⟩
  have ho : run.outcome = (responseLoop t proxy (Stream.mk (BufReader.joined arrivals) true)).outcome :=
    proxyResponseWithRewrite_outcome t proxy ⟨arrivals, true⟩
  rw [← hw] at hpre hok
  rw [← ho] at hok
  refine ⟨hpre, ?_, hok⟩
  rintro seen ⟨more, rfl⟩
  exact (proxyResponseWithRewrite_causal t proxy seen more true).trans hpre

/-! ## A stream that passes through -/

section Streams

variable {t : Target} {proxy : TCPProxy}

theorem PassesThrough.of_incomplete {tail : List UInt8} (h : Incomplete tail) (c : Bool) :
    PassesThrough t proxy ⟨tail, c⟩ := by
  intro w s' head hreach hhead
  cases hreach with
  | refl =>
    rw [readHead_incomplete t h] at hhead
    cases c <;> cases hhead
  | step pass _ =>
    rw [responsePass_incomplete t proxy h] at pass
    cases c <;> cases pass

theorem PassesThrough.cons {r : LengthResponse t} (hr : ¬ r.Rewritable) {rest : List UInt8}
    {c : Bool} (h : PassesThrough t proxy ⟨rest, c⟩) : PassesThrough t proxy ⟨r.bytes ++ rest, c⟩ := by
  intro w s' head hreach hhead
  cases hreach with
  | refl =>
    rw [LengthResponse.bytes, List.append_assoc, readHead_block] at hhead
    cases hhead
    exact LengthResponse.not_selectsRewrite hr
  | step pass rest =>
    rw [r.responsePass_run] at pass
    cases pass
    exact h _ s' head rest hhead

end Streams

/-- A video of two bytes. -/
def videoResponse : LengthResponse release64 where
  block :=
    { lines := ["HTTP/1.1 200 OK\r", "Content-Type: video/mp4\r", "Content-Length: 2\r"].map
        fun line => asBytes line.toList
      blank := crlf
      feedless := by decide
      nonblank := by decide
      ends := crlf_blank }
  body := [0, 255]
  framed :=
    { length_line := ⟨["HTTP/1.1 200 OK\r", "Content-Type: video/mp4\r"].map
          fun line => asBytes line.toList,
        ⟨"Content-Length".toList, [' '], ⟨['2'], [2], by decide, by decide⟩, [], ['\r'],
          by decide, by decide, by decide, Or.inr rfl⟩, [], by decide, by decide, by decide⟩
      no_encoding := by decide }
  fits := by decide

theorem videoResponse_not_rewritable : ¬ videoResponse.Rewritable := by
  have htext : (videoResponse.block.head release64).needsRewrite = false := by decide +kernel
  intro hr
  rw [LengthResponse.Rewritable, htext] at hr
  exact Bool.false_ne_true hr.1

/-- The video and the first byte of a header block. -/
def videoArrivals : List Piece := BufReader.onePiece (videoResponse.bytes ++ [72])

theorem videoArrivals_passesThrough (proxy : TCPProxy) :
    PassesThrough release64 proxy ⟨BufReader.joined videoArrivals, true⟩ := by
  have hincomplete : Incomplete [72] := by decide
  rw [videoArrivals, BufReader.joined_onePiece]
  exact PassesThrough.cons videoResponse_not_rewritable (PassesThrough.of_incomplete hincomplete true)

theorem proxyResponseWithRewrite_lossless_video :
    let proxy := TCPProxy.new originAddr proxyAddr
    let run := proxyResponseWithRewrite release64 proxy ⟨videoArrivals, true⟩
    run.written <+: BufReader.joined videoArrivals ∧
      (∀ seen, seen <+: videoArrivals → (proxyResponseWithRewrite release64 proxy
        ⟨seen, false⟩).written <+: BufReader.joined videoArrivals) ∧
      (run.outcome = .ok () →
        ∃ tail, run.written ++ tail = BufReader.joined videoArrivals ∧ Incomplete tail) :=
  proxyResponseWithRewrite_lossless release64 (TCPProxy.new originAddr proxyAddr)
    (videoArrivals_passesThrough _)

end DlnaProxy.TcpProxy
