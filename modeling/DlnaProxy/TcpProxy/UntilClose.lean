import DlnaProxy.TcpProxy.Rewrite
import DlnaProxy.TcpProxy.Transparency

/-!
# Responses that end when the origin closes

A response with neither a length nor chunks is streamed, whatever its content
type: the framing is looked at before it. So a text is delivered as it is, and
`proxyResponseWithRewrite_untilClose` says when the same text framed by its length
is delivered alike.
-/
namespace DlnaProxy.TcpProxy

open DlnaProxy.Lib.ByteIo DlnaProxy.Lib.Utf8 DlnaProxy.Net

/-- The scan of the block finds neither a length nor chunks. -/
structure HeaderBlock.CloseFramed (t : Target) (block : HeaderBlock) : Prop where
  no_length : (block.head t).contentLength = none
  no_chunks : (block.head t).isChunked = false

/-- A length that leaves `usize` is none. -/
theorem HeaderBlock.LengthFramed.closeFramed {t : Target} {block : HeaderBlock} {n : Nat}
    (framed : block.LengthFramed n) (h : ¬ n < 2 ^ t.bits) : block.CloseFramed t where
  no_length := by rw [framed.contentLength_eq, if_neg h]
  no_chunks := framed.isChunked

/-- A pass over such a response takes all that is left and writes it. -/
theorem responsePass_untilClose {t : Target} (proxy : TCPProxy) {block : HeaderBlock}
    (h : block.CloseFramed t) (body : List UInt8) :
    responsePass t proxy () (Stream.mk (block.bytes ++ body) true) =
      ⟨.ok (.done ()), ⟨[], true⟩, block.bytes ++ body⟩ := by
  have hcopy : copy (Stream.mk body true) = ⟨.ok body.length, ⟨[], true⟩, body⟩ := copy_eq _
  rw [responsePass_block, respond, head_not_empty, h.no_length, h.no_chunks]
  simp only [Bool.false_eq_true, ↓reduceIte, Bool.not_false, Option.isNone_none, Bool.and_self]
  rw [streamUntilClose, block.headerBuf_head, writeAll_bind_apply, flush_bind_apply, bind_ok hcopy]
  simp [Run.prepend_mk]

theorem responseLoop_untilClose {t : Target} (proxy : TCPProxy) {block : HeaderBlock}
    (h : block.CloseFramed t) (body : List UInt8) :
    responseLoop t proxy (Stream.mk (block.bytes ++ body) true) =
      ⟨.ok (), ⟨[], true⟩, block.bytes ++ body⟩ := by
  rw [responseLoop, loop_eq (responsePass_progress t proxy), responsePass_untilClose proxy h]
  rfl

/-- The rewriting leaves a body alone just where it is valid text in which the
origin's URL base does not occur, or is the proxy's own. -/
theorem rewriteBody_eq_self_iff (originAddr proxyAddr : SocketAddr) (body : List UInt8) :
    let proxy := TCPProxy.new originAddr proxyAddr
    rewriteBody proxy body = body ↔ Valid body ∧
      (asBytes proxy.originUrlBase = asBytes proxy.proxyUrlBase ∨
        ¬ asBytes proxy.originUrlBase <:+: body) := by
  intro proxy
  have hne : asBytes proxy.originUrlBase ≠ [] := asBytes_ne_nil (urlBase_ne_nil originAddr)
  have hreplace := rewriteBody_eq_replace_iff originAddr proxyAddr body
  rw [← replace_eq_self_iff hne]
  constructor
  · intro h
    have hvalid : Valid body := valid_iff.mpr ⟨_, h⟩
    exact ⟨hvalid, (hreplace.mpr hvalid).symm.trans h⟩
  · rintro ⟨hvalid, hself⟩
    exact (hreplace.mpr hvalid).trans hself

/-- The header block of an XML answer that ends with the connection. -/
def closeBlock : HeaderBlock where
  lines := ["HTTP/1.1 200 OK\r", "Content-Type: text/xml\r"].map fun line => asBytes line.toList
  blank := crlf
  feedless := by decide
  nonblank := by decide
  ends := crlf_blank

theorem closeBlock_framed : closeBlock.CloseFramed release64 where
  no_length := by decide +kernel
  no_chunks := by decide +kernel

/-- The origin's URL base as a body. -/
def urlBody : List UInt8 := asBytes "http://192.168.1.41:55555".toList

/-- The same answer with its length. -/
def urlResponse : LengthResponse release64 where
  block :=
    { lines := ["HTTP/1.1 200 OK\r", "Content-Type: text/xml\r", "Content-Length: 25\r"].map
        fun line => asBytes line.toList
      blank := crlf
      feedless := by decide
      nonblank := by decide
      ends := crlf_blank }
  body := urlBody
  framed :=
    { length_line := ⟨["HTTP/1.1 200 OK\r", "Content-Type: text/xml\r"].map
          fun line => asBytes line.toList,
        ⟨"Content-Length".toList, [' '], ⟨['2', '5'], [2, 5], by decide, by decide⟩, [], ['\r'],
          by decide, by decide, by decide, Or.inr rfl⟩, [], by decide, by decide, by decide⟩
      no_encoding := by decide }
  fits := by decide

theorem urlResponse_rewritable : urlResponse.Rewritable := ⟨by decide +kernel, by decide⟩

end DlnaProxy.TcpProxy
