import DlnaProxy.TcpProxy.PassThrough
import DlnaProxy.TcpProxy.UntilClose

/-!
# Responses without a body

By the rules of HTTP no body follows the answer to a HEAD request or a 1xx, 204 or
304 status, whatever the header block announces. The proxy sees neither the method
nor the status: it ends a response where its length and its chunks end it. Both
agree while every such response but the last announces a length of zero.
-/
namespace DlnaProxy.TcpProxy

open DlnaProxy.Lib.ByteIo DlnaProxy.Lib.Utf8 DlnaProxy.Net

/-- The three digits after the HTTP version. -/
def HeaderBlock.status (block : HeaderBlock) : List UInt8 := ((block.lines.headD []).drop 9).take 3

/-- No body follows the header block of an answer to a request with this method. -/
def HeaderBlock.Bodyless (method : List UInt8) (block : HeaderBlock) : Prop :=
  method = asBytes "HEAD".toList ∨ block.status.head? = some 49 ∨
    block.status = asBytes "204".toList ∨ block.status = asBytes "304".toList

instance (method : List UInt8) (block : HeaderBlock) : Decidable (block.Bodyless method) :=
  inferInstanceAs (Decidable (method = asBytes "HEAD".toList ∨ block.status.head? = some 49 ∨
    block.status = asBytes "204".toList ∨ block.status = asBytes "304".toList))

/-- A response and the method it answers. It ends where HTTP ends it. -/
inductive Exchange
  | bodyless (method : List UInt8) (block : HeaderBlock) (none : block.Bodyless method)
  | full (method : List UInt8) (block : HeaderBlock) (body : List UInt8)
      (framed : block.LengthFramed body.length) (some : ¬ block.Bodyless method)

/-- The scan finds a length of zero and no chunks. -/
structure HeaderBlock.AnnouncesNothing (t : Target) (block : HeaderBlock) : Prop where
  zero : (block.head t).contentLength = some 0
  no_chunks : (block.head t).isChunked = false

namespace Exchange

def bytes : Exchange → List UInt8
  | bodyless _ block _ => block.bytes
  | full _ block body _ _ => block.bytes ++ body

/-- What a pass over the exchange writes. -/
def sent (t : Target) (proxy : TCPProxy) : Exchange → List UInt8
  | bodyless _ block _ => if (block.head t).needsRewrite then block.lossy.bytes else block.bytes
  | full _ block body framed _ =>
    if fits : body.length < 2 ^ t.bits then
      let r : LengthResponse t := ⟨block, body, framed, fits⟩
      (r.sentBlock proxy).bytes ++ r.sentBody proxy
    else []

/-- The proxy ends the response where HTTP does, or it is the last of its connection
and its header block is sent before what it announces is read. -/
def InStep (t : Target) (after : List Exchange) : Exchange → Prop
  | bodyless _ block _ => block.AnnouncesNothing t ∨
      (after = [] ∧ (block.head t).selectsRewrite = false)
  | full _ _ body _ _ => body.length < 2 ^ t.bits

end Exchange

/-- Every response is parsed from its own status line. One without a body has been
forwarded, as it is or as lossy text, when its header block is complete and the origin
is silent; a full one is sent with its body rewritten if it is to be, and with the
length of that body. -/
def EndsWhereHttpDoes (t : Target) (proxy : TCPProxy) (exchanges : List Exchange)
    (originRead : OwnedReadHalf) : Prop :=
  ∀ before e after, exchanges = before ++ e :: after →
    ∃ w reader, ReadsTo t proxy originRead w reader ∧
      reader.bytes = (e :: after).flatMap (·.bytes) ∧
      match e with
      | .bodyless _ block _ => ∀ seen : List Piece,
          BufReader.joined seen = before.flatMap (·.bytes) ++ block.bytes →
          ∃ sent, (sent = block ∨ sent = block.lossy) ∧
            (proxyResponseWithRewrite t proxy ⟨seen, false⟩).written = w ++ sent.bytes
      | .full _ block body _ _ =>
          ∃ (sent : HeaderBlock) (delivered more : List UInt8),
            (proxyResponseWithRewrite t proxy originRead).written =
              w ++ (sent.bytes ++ delivered ++ more) ∧
            (sent.head t).contentLength = some delivered.length ∧
            delivered = if (block.head t).needsRewrite = true ∧ body.length ≤ maxRewritableBodySize
              then rewriteBody proxy body else body

/-! ## One response -/

section Pass

variable {t : Target} (originAddr proxyAddr : SocketAddr)

/-- The pass over a header block that announces nothing. -/
theorem responsePass_announcesNothing {block : HeaderBlock} (h : block.AnnouncesNothing t)
    (rest : List UInt8) (c : Bool) :
    responsePass t (TCPProxy.new originAddr proxyAddr) () (Stream.mk (block.bytes ++ rest) c) =
      ⟨.ok (.next ()), ⟨rest, c⟩,
        if (block.head t).needsRewrite then block.lossy.bytes else block.bytes⟩ := by
  have hframed : ((block.head t).isChunked || (block.head t).contentLength.isSome) = true := by
    rw [h.zero]
    simp
  have hlarge : (block.head t).bodyTooLarge = false := by
    rw [Head.bodyTooLarge, h.zero]
    rfl
  have hexact : readExact 0 (Stream.mk rest c) = ⟨.ok [], ⟨rest, c⟩, []⟩ := readExact_body [] rest c
  have hforward : forward t 0 (Stream.mk rest c) = ⟨.ok (), ⟨rest, c⟩, []⟩ := forward_body t [] rest c
  rw [responsePass_block]
  cases htext : (block.head t).needsRewrite with
  | true =>
    have hheaders : updatedHeaders (block.head t) 0 0 = fromUtf8Lossy block.bytes := by
      rw [updatedHeaders, h.zero, block.headerBuf_head]
      rfl
    have halloc : allocate t 0 (Stream.mk rest c) = ⟨.ok (), ⟨rest, c⟩, []⟩ := by
      rw [allocate, if_pos (Nat.two_pow_pos _)]
      rfl
    rw [respond_rewrite t _ hframed (by rw [htext, hlarge]; rfl), rewrite, h.no_chunks, h.zero]
    simp only [Bool.false_eq_true, ↓reduceIte]
    rw [bind_ok halloc, bind_ok hexact, sendRewritten, rewriteBody_nil, writeBody, h.no_chunks]
    simp [hheaders, block.asBytes_lossy, Run.prepend_mk]
  | false =>
    have hbody : passThroughBody t (block.head t) (Stream.mk rest c) = ⟨.ok (), ⟨rest, c⟩, []⟩ := by
      rw [passThroughBody, h.no_chunks, h.zero]
      exact hforward
    rw [respond_passThrough t _ hframed (by rw [htext]; rfl), passThrough, writeAll_bind_apply,
      bind_ok hbody, block.headerBuf_head, flush_bind_apply]
    simp [Run.prepend_mk]

/-- The header block of a response that is not rewritten is sent before anything
that follows is awaited. -/
theorem written_not_rewrite (proxy : TCPProxy) {block : HeaderBlock}
    (h : (block.head t).selectsRewrite = false) (c : Bool) :
    (responseLoop t proxy (Stream.mk block.bytes c)).written = block.bytes := by
  obtain ⟨hpre, hall⟩ := forwards_respond t proxy h (Stream.mk [] c)
  simp only [Stream.view_eq, List.append_nil] at hpre hall
  have hstart := prefix_written_respond t proxy h (Stream.mk [] c)
  have hwritten := hpre.eq_of_length_le hstart.length_le
  have hpass := responsePass_block t proxy block [] c
  rw [List.append_nil] at hpass
  rw [responseLoop, loop_eq (responsePass_progress t proxy), hpass]
  rcases hr : respond t proxy (block.head t) (Stream.mk [] c) with ⟨e | (_ | _), s, w⟩ <;>
    rw [hr] at hwritten hall
  · exact hwritten
  · -- the loop goes on, with nothing left
    have hrest := hall _ rfl
    dsimp only at hwritten hrest
    rw [hwritten, List.append_right_eq_self] at hrest
    obtain ⟨bytes, c'⟩ := s
    obtain rfl : bytes = [] := hrest
    rw [resume, Run.prepend_written, ← responseLoop,
      responseLoop_incomplete t proxy incomplete_nil, List.append_nil]
    exact hwritten
  · exact hwritten

end Pass

/-! ## The connection -/

section Run

variable {t : Target} (originAddr proxyAddr : SocketAddr)

/-- A pass over an exchange that is not the last one of its connection. -/
theorem Exchange.responsePass_run {e : Exchange} {after : List Exchange} (hafter : after ≠ [])
    (h : e.InStep t after) (rest : List UInt8) (c : Bool) :
    responsePass t (TCPProxy.new originAddr proxyAddr) () (Stream.mk (e.bytes ++ rest) c) =
      ⟨.ok (.next ()), ⟨rest, c⟩, e.sent t (TCPProxy.new originAddr proxyAddr)⟩ := by
  cases e with
  | bodyless method block none =>
    rcases h with hnothing | ⟨hlast, _⟩
    · exact responsePass_announcesNothing originAddr proxyAddr hnothing rest c
    · exact absurd hlast hafter
  | full method block body framed some =>
    have hfits : body.length < 2 ^ t.bits := h
    rw [Exchange.sent, dif_pos hfits]
    exact LengthResponse.responsePass_run _ ⟨block, body, framed, hfits⟩ rest c

theorem reaches_exchanges {before after : List Exchange} (hafter : after ≠ [])
    (h : ∀ e later, e :: later <:+ before ++ after → e.InStep t later) (rest : List UInt8)
    (c : Bool) :
    Reaches (responsePass t (TCPProxy.new originAddr proxyAddr)) ()
      (Stream.mk (before.flatMap (·.bytes) ++ rest) c)
      (before.flatMap fun e => e.sent t (TCPProxy.new originAddr proxyAddr)) () ⟨rest, c⟩ := by
  induction before with
  | nil => exact Reaches.refl () _
  | cons e before ih =>
    have hne : before ++ after ≠ [] := by simp [hafter]
    have hpass := Exchange.responsePass_run originAddr proxyAddr hne (h e _ List.suffix_rfl) (before.flatMap (·.bytes) ++ rest) c
    rw [List.flatMap_cons, List.flatMap_cons, List.append_assoc]
    exact Reaches.step hpass (ih fun e' later hl => h e' later (hl.trans (List.suffix_cons e _)))

/-- The header block of a response in step has been forwarded when it is complete. -/
theorem written_bodyless {method : List UInt8} {block : HeaderBlock} {none : block.Bodyless method}
    {after : List Exchange} (h : (Exchange.bodyless method block none).InStep t after) :
    ∃ sent : HeaderBlock, (sent = block ∨ sent = block.lossy) ∧
      (responseLoop t (TCPProxy.new originAddr proxyAddr)
        (Stream.mk block.bytes false)).written = sent.bytes := by
  rcases h with hnothing | ⟨_, hselect⟩
  · have hpass := responsePass_announcesNothing originAddr proxyAddr hnothing [] false
    rw [List.append_nil] at hpass
    have hloop : (responseLoop t (TCPProxy.new originAddr proxyAddr)
        (Stream.mk block.bytes false)).written =
          if (block.head t).needsRewrite then block.lossy.bytes else block.bytes := by
      rw [responseLoop, loop_eq (responsePass_progress t _), hpass, resume, Run.prepend_written,
        ← responseLoop, responseLoop_incomplete t _ incomplete_nil, List.append_nil]
    cases htext : (block.head t).needsRewrite with
    | true => exact ⟨block.lossy, Or.inr rfl, by rw [hloop, htext]; rfl⟩
    | false => exact ⟨block, Or.inl rfl, by rw [hloop, htext]; rfl⟩
  · exact ⟨block, Or.inl rfl, written_not_rewrite _ hselect false⟩

end Run

/-- **Responses without a body keep the proxy in step** where each announces a length
of zero, or is the last one and is not rewritten. -/
theorem proxyResponseWithRewrite_bodyless (t : Target) (originAddr proxyAddr : SocketAddr)
    {exchanges : List Exchange}
    (h : ∀ e after, e :: after <:+ exchanges → e.InStep t after) {originRead : OwnedReadHalf}
    (hbytes : originRead.bytes = exchanges.flatMap (·.bytes)) :
    EndsWhereHttpDoes t (TCPProxy.new originAddr proxyAddr) exchanges originRead := by
  rintro before e after rfl
  have hne : e :: after ≠ [] := List.cons_ne_nil e after
  have hreach := reaches_exchanges originAddr proxyAddr hne h
    ((e :: after).flatMap (·.bytes)) originRead.closed
  rw [← List.flatMap_append, ← hbytes] at hreach
  obtain ⟨reader, hreads, hstream⟩ := ReadsTo.of_reaches hreach
  refine ⟨_, reader, hreads, congrArg Stream.bytes hstream, ?_⟩
  have hstep : e.InStep t after := h e after (List.suffix_append before _)
  cases e with
  | bodyless method block none =>
    intro seen hseen
    obtain ⟨sent, hsent, hwritten⟩ := written_bodyless originAddr proxyAddr hstep
    refine ⟨sent, hsent, ?_⟩
    have hopen := reaches_exchanges originAddr proxyAddr hne h block.bytes false
    rw [proxyResponseWithRewrite_written, show OwnedReadHalf.bytes ⟨seen, false⟩ = _ from hseen,
      responseLoop, hopen.loop_eq (responsePass_progress t _), Run.prepend_written, ← responseLoop,
      hwritten]
  | full method block body framed some =>
    let r : LengthResponse t := ⟨block, body, framed, hstep⟩
    have hrun := congrArg Run.written hreads.run
    have hpass := r.responsePass_run (TCPProxy.new originAddr proxyAddr)
      (after.flatMap (·.bytes)) originRead.closed
    rw [hstream, Run.prepend_written, responseLoop, loop_eq (responsePass_progress t _),
      List.flatMap_cons, show Exchange.bytes (.full method block body framed some) = r.bytes from rfl,
      hpass, resume, Run.prepend_written, ← responseLoop] at hrun
    exact ⟨_, _, _, hrun, (r.sentBlock_scan originAddr proxyAddr).1, rfl⟩

/-! ## Two connections -/

/-- A 204 answer that announces a length of zero. -/
def noContent : HeaderBlock where
  lines := ["HTTP/1.1 204 No Content\r", "Content-Length: 0\r"].map fun line => asBytes line.toList
  blank := crlf
  feedless := by decide
  nonblank := by decide
  ends := crlf_blank

/-- A 304 answer that announces nothing. -/
def notModified : HeaderBlock where
  lines := ["HTTP/1.1 304 Not Modified\r"].map fun line => asBytes line.toList
  blank := crlf
  feedless := by decide
  nonblank := by decide
  ends := crlf_blank

def getMethod : List UInt8 := asBytes "GET".toList

def noContentExchange : Exchange := .bodyless getMethod noContent (by decide)

def notModifiedExchange : Exchange := .bodyless getMethod notModified (by decide)

def urlExchange : Exchange :=
  .full getMethod urlResponse.block urlResponse.body urlResponse.framed (by decide)

theorem notModified_closeFramed : notModified.CloseFramed release64 where
  no_length := by decide +kernel
  no_chunks := by decide +kernel

theorem proxyResponseWithRewrite_bodyless_inStep :
    EndsWhereHttpDoes release64 (TCPProxy.new originAddr proxyAddr)
      [noContentExchange, urlExchange, notModifiedExchange]
      (.ofBytes ([noContentExchange, urlExchange, notModifiedExchange].flatMap (·.bytes))) := by
  apply proxyResponseWithRewrite_bodyless release64 originAddr proxyAddr _
    (OwnedReadHalf.bytes_ofBytes _)
  intro e after hsuffix
  simp only [List.suffix_cons_iff, List.cons.injEq, List.suffix_nil, reduceCtorEq, or_false]
    at hsuffix
  rcases hsuffix with ⟨rfl, rfl⟩ | ⟨rfl, rfl⟩ | ⟨rfl, rfl⟩
  · exact Or.inl ⟨by decide +kernel, by decide +kernel⟩
  · exact urlResponse.fits
  · exact Or.inr ⟨rfl, by decide +kernel⟩

/-- After the 304 the next response is streamed: it is not parsed, and the origin's URL
in it not rewritten. -/
theorem proxyResponseWithRewrite_notModified :
    ¬ EndsWhereHttpDoes release64 (TCPProxy.new originAddr proxyAddr)
      [notModifiedExchange, urlExchange]
      (.ofBytes ([notModifiedExchange, urlExchange].flatMap (·.bytes))) := by
  intro h
  obtain ⟨w, reader, hreads, hbytes, _⟩ := h [notModifiedExchange] urlExchange [] rfl
  have hstream := OwnedReadHalf.stream_ofBytes ([notModifiedExchange, urlExchange].flatMap (·.bytes))
  cases hreads with
  | refl =>
    have hall : [notModifiedExchange, urlExchange].flatMap (·.bytes) =
        [urlExchange].flatMap (·.bytes) := (congrArg Stream.bytes hstream).symm.trans hbytes
    exact absurd hall (by decide)
  | step pass rest =>
    have hrun := (streamed_responsePass release64 (TCPProxy.new originAddr proxyAddr) ()).simulates.outcome
      (OwnedReadHalf.reader (.ofBytes ([notModifiedExchange, urlExchange].flatMap (·.bytes))))
    rw [pass, show view _ = _ from hstream] at hrun
    have hdone := responsePass_untilClose (TCPProxy.new originAddr proxyAddr) notModified_closeFramed
      ([urlExchange].flatMap (·.bytes))
    have hout := hrun.trans (congrArg Run.outcome hdone)
    cases hout

end DlnaProxy.TcpProxy
