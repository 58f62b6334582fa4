import DlnaProxy.TcpProxy.Update

/-!
# Length-framed responses on one connection

One pass of the response loop on a response framed by Content-Length consumes it
and writes one response framed by Content-Length. `responseLoop_responses` is the
run over a sequence of them, and `Parses` the client's reading of what was written.
-/
namespace DlnaProxy.TcpProxy

open DlnaProxy.Lib.ByteIo DlnaProxy.Lib.Utf8 DlnaProxy.Net

/-- A response whose Content-Length is the length of its body and fits `usize`. -/
structure LengthResponse (t : Target) where
  block : HeaderBlock
  body : List UInt8
  framed : block.LengthFramed body.length
  fits : body.length < 2 ^ t.bits

theorem Target.two_pow_le (t : Target) : 2 ^ 32 ≤ 2 ^ t.bits :=
  Nat.pow_le_pow_right (by decide) t.wide

theorem Target.max_le_quarter (t : Target) : maxRewritableBodySize ≤ 2 ^ (t.bits - 2) := by
  have hwide := t.wide
  have hbig : 2 ^ 30 ≤ 2 ^ (t.bits - 2) := Nat.pow_le_pow_right (by decide) (by omega)
  exact Nat.le_trans (by decide) hbig

theorem Target.max_lt_isize (t : Target) : maxRewritableBodySize < 2 ^ (t.bits - 1) := by
  have h : 2 ^ 31 ≤ 2 ^ (t.bits - 1) := by
    apply Nat.pow_le_pow_right (by decide)
    have hwide := t.wide
    omega
  exact Nat.lt_of_lt_of_le (by decide) h

/-- A rewritten body never grows past `usize`. -/
theorem rewriteBody_length_lt (t : Target) (originAddr proxyAddr : SocketAddr) {body : List UInt8}
    (h : body.length ≤ maxRewritableBodySize) :
    (rewriteBody (TCPProxy.new originAddr proxyAddr) body).length < 2 ^ t.bits := by
  have hlossy := fromUtf8Lossy_length_le body
  have hreplace := replace_length_le (urlBase_ne_nil originAddr) (urlBase_ne_nil proxyAddr)
    (fromUtf8Lossy body)
  have hbase := Nat.mul_le_mul (urlBase_length_le proxyAddr) (hlossy.trans h)
  have hbytes := asBytes_length_le
    (replace (urlBase originAddr) (urlBase proxyAddr) (fromUtf8Lossy body))
  have hmax : 4 * (55 * maxRewritableBodySize) < 2 ^ 32 := by decide
  have htwo := t.two_pow_le
  unfold rewriteBody TCPProxy.new
  dsimp only
  omega

section Passes

variable (t : Target) (proxy : TCPProxy)

theorem forward_body (body rest : List UInt8) (c : Bool) :
    forward t body.length (Stream.mk (body ++ rest) c) = ⟨.ok (), ⟨rest, c⟩, body⟩ := by
  rw [forward_eq, forwardRun, if_pos (by simp)]
  simp

theorem readExact_body (body rest : List UInt8) (c : Bool) :
    readExact body.length (Stream.mk (body ++ rest) c) = ⟨.ok body, ⟨rest, c⟩, []⟩ := by
  rw [readExact_eq, exactRun, if_pos (by simp)]
  simp

/-- A pass over a header block is what `respond` does with what follows it. -/
theorem responsePass_block (block : HeaderBlock) (rest : List UInt8) (c : Bool) :
    responsePass t proxy () (Stream.mk (block.bytes ++ rest) c) =
      respond t proxy (block.head t) ⟨rest, c⟩ := by
  rw [responsePass, bind_ok (readHead_block t block rest c), Run.prepend_nil]

theorem head_not_empty (block : HeaderBlock) : (block.head t).headerBuf.isEmpty = false := by
  rw [block.headerBuf_head, List.isEmpty_eq_false_iff]
  exact block.bytes_ne_nil

/-- A response that is framed and not to be rewritten is passed through. -/
theorem respond_passThrough {block : HeaderBlock} {s : Stream}
    (hframed : ((block.head t).isChunked || (block.head t).contentLength.isSome) = true)
    (hpass : (!(block.head t).needsRewrite || (block.head t).bodyTooLarge) = true) :
    respond t proxy (block.head t) s = passThrough t (block.head t) s := by
  have hstream : (!(block.head t).isChunked && (block.head t).contentLength.isNone) = false := by
    rw [← Option.not_isSome, ← Bool.not_or, hframed]
    rfl
  rw [respond, head_not_empty, hstream, hpass]
  rfl

theorem respond_rewrite {block : HeaderBlock} {s : Stream}
    (hframed : ((block.head t).isChunked || (block.head t).contentLength.isSome) = true)
    (hpass : (!(block.head t).needsRewrite || (block.head t).bodyTooLarge) = false) :
    respond t proxy (block.head t) s = rewrite t proxy (block.head t) s := by
  have hstream : (!(block.head t).isChunked && (block.head t).contentLength.isNone) = false := by
    rw [← Option.not_isSome, ← Bool.not_or, hframed]
    rfl
  rw [respond, head_not_empty, hstream, hpass]
  rfl

end Passes

namespace LengthResponse

variable {t : Target} (proxy : TCPProxy) (r : LengthResponse t)

def bytes : List UInt8 := r.block.bytes ++ r.body

/-- Whether the body is rewritten: text of at most the maximum size. -/
def Rewritable : Prop := (r.block.head t).needsRewrite = true ∧ r.body.length ≤ maxRewritableBodySize

instance : Decidable r.Rewritable :=
  inferInstanceAs (Decidable ((r.block.head t).needsRewrite = true ∧
    r.body.length ≤ maxRewritableBodySize))

/-- The body the client is to receive. -/
def sentBody : List UInt8 := if r.Rewritable then rewriteBody proxy r.body else r.body

/-- The header block the client receives. -/
def sentBlock : HeaderBlock :=
  if r.Rewritable then
    if (rewriteBody proxy r.body).length = r.body.length then r.block.lossy
    else r.block.updated (rewriteBody proxy r.body).length
  else r.block

theorem contentLength : (r.block.head t).contentLength = some r.body.length :=
  r.framed.contentLength r.fits

theorem framed_scan : ((r.block.head t).isChunked || (r.block.head t).contentLength.isSome) = true := by
  rw [r.contentLength]
  simp

theorem passed_iff : (!(r.block.head t).needsRewrite || (r.block.head t).bodyTooLarge) = true ↔
    ¬ r.Rewritable := by
  rw [Head.bodyTooLarge, r.contentLength, Rewritable, not_and, Nat.not_le, Bool.or_eq_true,
    Bool.not_eq_true', Option.any_some, decide_eq_true_eq]
  cases (r.block.head t).needsRewrite <;> simp

theorem passThrough_run (rest : List UInt8) (c : Bool) :
    passThrough t (r.block.head t) (Stream.mk (r.body ++ rest) c) =
      ⟨.ok (.next ()), ⟨rest, c⟩, r.block.bytes ++ r.body⟩ := by
  have hbody : passThroughBody t (r.block.head t) (Stream.mk (r.body ++ rest) c) =
      ⟨.ok (), ⟨rest, c⟩, r.body⟩ := by
    rw [passThroughBody, r.framed.isChunked, r.contentLength]
    exact forward_body t r.body rest c
  rw [passThrough, writeAll_bind_apply, bind_ok hbody, r.block.headerBuf_head, flush_bind_apply]
  simp [Run.prepend_mk]

/-- The headers that go out with a rewritten body. -/
theorem updatedHeaders_eq (n : Nat) :
    asBytes (updatedHeaders (r.block.head t) r.body.length n) =
      (if n = r.body.length then r.block.lossy else r.block.updated n).bytes := by
  rw [updatedHeaders, r.contentLength, r.block.headerBuf_head, Option.isSome_some, Bool.true_and]
  by_cases hn : n = r.body.length
  · simp only [hn, ne_eq, not_true_eq_false, decide_false, Bool.false_eq_true, ↓reduceIte]
    exact r.block.asBytes_lossy
  · simp only [hn, ne_eq, not_false_eq_true, decide_true, ↓reduceIte]
    exact r.block.asBytes_updateContentLength n

theorem rewrite_run (h : r.body.length ≤ maxRewritableBodySize) (rest : List UInt8) (c : Bool) :
    rewrite t proxy (r.block.head t) (Stream.mk (r.body ++ rest) c) =
      ⟨.ok (.next ()), ⟨rest, c⟩,
        asBytes (updatedHeaders (r.block.head t) r.body.length (rewriteBody proxy r.body).length) ++
          rewriteBody proxy r.body⟩ := by
  have halloc : allocate t r.body.length (Stream.mk (r.body ++ rest) c) =
      ⟨.ok (), ⟨r.body ++ rest, c⟩, []⟩ := by
    rw [allocate, if_pos (Nat.lt_of_le_of_lt h t.max_lt_isize)]
    rfl
  have hnot : (r.block.head t).isChunked = false := r.framed.isChunked
  rw [rewrite, hnot, r.contentLength]
  simp only [Bool.false_eq_true, ↓reduceIte]
  rw [bind_ok halloc, bind_ok (readExact_body r.body rest c), sendRewritten, writeBody, hnot]
  simp [Run.prepend_mk]

/-- **One pass consumes one response and writes one.** -/
theorem responsePass_run (rest : List UInt8) (c : Bool) :
    responsePass t proxy () (Stream.mk (r.bytes ++ rest) c) =
      ⟨.ok (.next ()), ⟨rest, c⟩, (r.sentBlock proxy).bytes ++ r.sentBody proxy⟩ := by
  rw [bytes, List.append_assoc, responsePass_block]
  by_cases hr : r.Rewritable
  · have hpass := mt r.passed_iff.mp (not_not_intro hr)
    rw [respond_rewrite t proxy r.framed_scan (Bool.eq_false_iff.mpr hpass),
      r.rewrite_run proxy hr.2, r.updatedHeaders_eq, sentBlock, if_pos hr, sentBody, if_pos hr]
  · rw [respond_passThrough t proxy r.framed_scan (r.passed_iff.mpr hr), r.passThrough_run,
      sentBlock, if_neg hr, sentBody, if_neg hr]

/-- What is sent is framed by its length again. -/
theorem sentBlock_scan (originAddr proxyAddr : SocketAddr) :
    let proxy := TCPProxy.new originAddr proxyAddr
    ((r.sentBlock proxy).head t).contentLength = some (r.sentBody proxy).length ∧
      ((r.sentBlock proxy).head t).isChunked = false := by
  intro proxy
  by_cases hr : r.Rewritable
  · have hlt := rewriteBody_length_lt t originAddr proxyAddr hr.2
    rw [sentBlock, if_pos hr, sentBody, if_pos hr]
    split
    · next heq =>
      rw [heq, r.block.lossy_contentLength, r.block.lossy_isChunked]
      exact ⟨r.contentLength, r.framed.isChunked⟩
    · have hup := r.framed.updated (rewriteBody proxy r.body).length
      exact ⟨hup.contentLength hlt, hup.isChunked⟩
  · rw [sentBlock, if_neg hr, sentBody, if_neg hr]
    exact ⟨r.contentLength, r.framed.isChunked⟩

end LengthResponse

/-- The run over a sequence of responses. -/
theorem responseLoop_responses (t : Target) (proxy : TCPProxy) (responses : List (LengthResponse t))
    (rest : List UInt8) (c : Bool) :
    responseLoop t proxy (Stream.mk (responses.flatMap (·.bytes) ++ rest) c) =
      (responseLoop t proxy (Stream.mk rest c)).prepend
        (responses.flatMap fun r => (r.sentBlock proxy).bytes ++ r.sentBody proxy) := by
  induction responses with
  | nil => simp
  | cons r responses ih =>
    rw [List.flatMap_cons, List.append_assoc, responseLoop, loop_eq (responsePass_progress t proxy),
      r.responsePass_run, resume, ← responseLoop, ih, Run.prepend_prepend, List.flatMap_cons]

/-- On bytes in which no header block ends the loop writes nothing. -/
theorem responsePass_incomplete (t : Target) (proxy : TCPProxy) {bytes : List UInt8}
    (h : Incomplete bytes) (c : Bool) :
    responsePass t proxy () (Stream.mk bytes c) =
      ⟨atEnd c (.ok (.done ())), ⟨[], c⟩, []⟩ := by
  have hread := readHead_incomplete t h c
  cases c with
  | true =>
    rw [responsePass, bind_ok hread]
    rfl
  | false => rw [responsePass, bind_halt hread, atEnd_false]

theorem responseLoop_incomplete (t : Target) (proxy : TCPProxy) {bytes : List UInt8}
    (h : Incomplete bytes) (c : Bool) :
    responseLoop t proxy (Stream.mk bytes c) = ⟨atEnd c (.ok ()), ⟨[], c⟩, []⟩ := by
  rw [responseLoop, loop_eq (responsePass_progress t proxy), responsePass_incomplete t proxy h]
  cases c <;> rfl

/-- At the end of a closed stream the loop returns. -/
theorem responseLoop_end (t : Target) (proxy : TCPProxy) :
    responseLoop t proxy (Stream.mk [] true) = ⟨.ok (), ⟨[], true⟩, []⟩ :=
  responseLoop_incomplete t proxy incomplete_nil true

/-! ## What the client reads -/

/-- The bytes are these messages, one after the other: each a header block that
the header scan reads, with a Content-Length, and as many bytes of body. -/
inductive Parses (t : Target) : List UInt8 → List (Head × List UInt8) → Prop
  | nil : Parses t [] []
  | cons {bytes body rest : List UInt8} {head : Head} {messages : List (Head × List UInt8)}
      (read : readHead t (Stream.mk bytes true) = ⟨.ok (some head), ⟨body ++ rest, true⟩, []⟩)
      (length : head.contentLength = some body.length) (plain : head.isChunked = false)
      (parses : Parses t rest messages) : Parses t bytes ((head, body) :: messages)

/-- Bytes are read in one way only. -/
theorem Parses.unique {t : Target} {bytes : List UInt8} {m₁ m₂ : List (Head × List UInt8)}
    (h₁ : Parses t bytes m₁) (h₂ : Parses t bytes m₂) : m₁ = m₂ := by
  have hend : readHead t (Stream.mk [] true) = ⟨.ok none, ⟨[], true⟩, []⟩ :=
    readHead_incomplete t incomplete_nil true
  induction h₁ generalizing m₂ with
  | nil =>
    cases h₂ with
    | nil => rfl
    | cons read => cases hend.symm.trans read
  | cons read length plain parses ih =>
    cases h₂ with
    | nil => cases hend.symm.trans read
    | cons read' length' plain' parses' =>
      have heq := read.symm.trans read'
      simp only [Run.mk.injEq, Except.ok.injEq, Option.some.injEq, Stream.mk.injEq, and_true] at heq
      obtain ⟨rfl, hbytes⟩ := heq
      rw [length, Option.some.injEq] at length'
      obtain ⟨rfl, rfl⟩ := List.append_inj hbytes length'
      rw [ih parses']

theorem parses_responses (t : Target) (originAddr proxyAddr : SocketAddr)
    (responses : List (LengthResponse t)) :
    let proxy := TCPProxy.new originAddr proxyAddr
    Parses t (responses.flatMap fun r => (r.sentBlock proxy).bytes ++ r.sentBody proxy)
      (responses.map fun r => ((r.sentBlock proxy).head t, r.sentBody proxy)) := by
  intro proxy
  induction responses with
  | nil => exact Parses.nil
  | cons r responses ih =>
    obtain ⟨hlength, hplain⟩ := r.sentBlock_scan originAddr proxyAddr
    rw [List.flatMap_cons, List.map_cons, List.append_assoc]
    exact Parses.cons (readHead_block t _ _ true) hlength hplain ih

/-- **Framing is preserved over a whole connection.** -/
theorem proxyResponseWithRewrite_keepAlive (t : Target) (originAddr proxyAddr : SocketAddr)
    (responses : List (LengthResponse t)) (arrivals : List Piece)
    (h : BufReader.joined arrivals = responses.flatMap (·.bytes)) :
    let proxy := TCPProxy.new originAddr proxyAddr
    let run := proxyResponseWithRewrite t proxy ⟨arrivals, true⟩
    run.outcome = .ok () ∧ ∃ messages, Parses t run.written messages ∧
      messages.map Prod.snd = responses.map fun r =>
        if (r.block.head t).needsRewrite = true ∧ r.body.length ≤ maxRewritableBodySize then
          rewriteBody proxy r.body
        else r.body := by
  intro proxy run
  have hloop := responseLoop_responses t proxy responses [] true
  rw [List.append_nil, responseLoop_end, Run.prepend_mk, List.append_nil, ← h] at hloop
  have hoc : run.outcome = .ok () :=
    (proxyResponseWithRewrite_outcome t proxy _).trans (congrArg Run.outcome hloop)
  have hwritten : run.written = _ :=
    (proxyResponseWithRewrite_written t proxy _).trans (congrArg Run.written hloop)
  refine ⟨hoc, responses.map fun r => ((r.sentBlock proxy).head t, r.sentBody proxy), ?_, ?_⟩
  · rw [hwritten]
    exact parses_responses t originAddr proxyAddr responses
  · rw [List.map_map]
    rfl

/-! ## A connection -/

def originAddr : SocketAddr := ⟨.v4 ⟨[192, 168, 1, 41], rfl⟩, 55555⟩

def proxyAddr : SocketAddr := ⟨.v4 ⟨[192, 168, 1, 52], rfl⟩, 8100⟩

/-- An XML answer with a body of two bytes. -/
def xmlResponse : LengthResponse release64 where
  block :=
    { lines := ["HTTP/1.1 200 OK\r", "Content-Type: text/xml\r", "Content-Length: 2\r"].map
        fun line => asBytes line.toList
      blank := crlf
      feedless := by decide
      nonblank := by decide
      ends := crlf_blank }
  body := asBytes "hi".toList
  framed :=
    { length_line := ⟨["HTTP/1.1 200 OK\r", "Content-Type: text/xml\r"].map
          fun line => asBytes line.toList,
        ⟨"Content-Length".toList, [' '], ⟨['2'], [2], by decide, by decide⟩, [], ['\r'],
          by decide, by decide, by decide, Or.inr rfl⟩, [], by decide, by decide, by decide⟩
      no_encoding := by decide }
  fits := by decide

theorem proxyResponseWithRewrite_keepAlive_xml :
    let proxy := TCPProxy.new originAddr proxyAddr
    let run := proxyResponseWithRewrite release64 proxy
      ⟨BufReader.onePiece ([xmlResponse, xmlResponse].flatMap (·.bytes)), true⟩
    run.outcome = .ok () ∧ ∃ messages, Parses release64 run.written messages ∧
      messages.map Prod.snd = [xmlResponse, xmlResponse].map fun r =>
        if (r.block.head release64).needsRewrite = true ∧ r.body.length ≤ maxRewritableBodySize then
          rewriteBody proxy r.body
        else r.body :=
  proxyResponseWithRewrite_keepAlive release64 originAddr proxyAddr [xmlResponse, xmlResponse] _
    (BufReader.joined_onePiece _)

end DlnaProxy.TcpProxy
