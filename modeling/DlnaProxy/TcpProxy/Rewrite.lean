import DlnaProxy.TcpProxy.ChunkCodec

/-!
# The rewrite path

What a pass over a rewritable response of at most the maximum size writes: a
header block with the other header lines as lossy text, and the rewritten body in
the framing the origin used. From it, that the division into chunks does not matter.
-/
namespace DlnaProxy.TcpProxy

open DlnaProxy.Lib.ByteIo DlnaProxy.Lib.Utf8 DlnaProxy.Net

/-- The code sends the response down the rewrite path. -/
structure Response.Rewritable (t : Target) (r : Response) : Prop where
  text : (r.block.head t).needsRewrite = true
  small : r.body.length ≤ maxRewritableBodySize

section Pass

variable {t : Target} (proxy : TCPProxy)

/-- Whatever chunked body has been read, it is sent as a complete one. -/
theorem rewrite_chunked_run {block : HeaderBlock} (hframed : block.ChunkFramed)
    {body : List UInt8} {s s' : Stream}
    (hread : readChunkedBody t maxRewritableBodySize s = ⟨.ok body, s', []⟩) :
    rewrite t proxy (block.head t) s =
      ⟨.ok (.next ()), s', block.lossy.bytes ++ encodeChunked (rewriteBody proxy body)⟩ := by
  have hheaders : ∀ n m, updatedHeaders (block.head t) n m = fromUtf8Lossy block.bytes := by
    intro n m
    rw [updatedHeaders, hframed.contentLength, block.headerBuf_head]
    rfl
  rw [rewrite, hframed.isChunked, if_pos rfl, bind_ok hread, sendRewritten, hheaders,
    block.asBytes_lossy, writeBody, hframed.isChunked, if_pos rfl, writeAll_bind_apply,
    bind_ok (writeChunkedBody_run _ _)]
  simp [Run.prepend_mk]

/-- A chunked text is sent down the rewrite path. -/
theorem respond_chunked {block : HeaderBlock} (hframed : block.ChunkFramed)
    (htext : (block.head t).needsRewrite = true) (s : Stream) :
    respond t proxy (block.head t) s = rewrite t proxy (block.head t) s := by
  apply respond_rewrite
  · rw [hframed.isChunked]
    rfl
  · rw [htext, Head.bodyTooLarge, hframed.contentLength]
    rfl

theorem responsePass_chunked_read {block : HeaderBlock} (hframed : block.ChunkFramed)
    (htext : (block.head t).needsRewrite = true) {body bytes : List UInt8} {c : Bool} {s' : Stream}
    (hread : readChunkedBody t maxRewritableBodySize (Stream.mk bytes c) = ⟨.ok body, s', []⟩) :
    responsePass t proxy () (Stream.mk (block.bytes ++ bytes) c) =
      ⟨.ok (.next ()), s', block.lossy.bytes ++ encodeChunked (rewriteBody proxy body)⟩ := by
  rw [responsePass_block, respond_chunked proxy hframed htext, rewrite_chunked_run proxy hframed hread]

theorem responsePass_chunked {block : HeaderBlock} (hframed : block.ChunkFramed)
    (htext : (block.head t).needsRewrite = true) {coded : ChunkedBody}
    (hle : coded.payload.length ≤ maxRewritableBodySize) (rest : List UInt8) (c : Bool) :
    responsePass t proxy () (Stream.mk (block.bytes ++ (coded.bytes ++ rest)) c) =
      ⟨.ok (.next ()), ⟨coded.trailerRest ++ rest, c⟩,
        block.lossy.bytes ++ encodeChunked (rewriteBody proxy coded.payload)⟩ := by
  exact responsePass_chunked_read proxy hframed htext
    (readChunkedBody_body t (sizesFit_of_payload hle) rest c)

/-- A length-framed response on the rewrite path. -/
def lengthResponse {block : HeaderBlock} {body : List UInt8}
    (framed : block.LengthFramed body.length) (small : body.length ≤ maxRewritableBodySize) :
    LengthResponse t :=
  ⟨block, body, framed, Nat.lt_of_le_of_lt small
    (Nat.lt_of_lt_of_le (by decide) t.two_pow_le)⟩

/-- A pass over a rewritten response writes the response `sent`, which has the
rewritten body and the other header lines as lossy text, and after an empty chunked
body a second last chunk. -/
structure Response.Sends (proxy : TCPProxy) (r sent : Response) (written : List UInt8) : Prop where
  body : sent.body = rewriteBody proxy r.body
  fields : sent.block.fields = r.block.fields.map fun field => asBytes (fromUtf8Lossy field)
  http : r.block.StartsHttp → sent.block.StartsHttp
  trailer : sent.trailer = []
  isChunked : sent.isChunked = r.isChunked
  written_eq : written = sent.bytes ++ sent.secondEnd

/-- **What the client receives of a rewritten response.** -/
theorem Response.Rewritable.run {r : Response} (h : r.Rewritable t) (rest : List UInt8)
    (c : Bool) : ∃ (sent : Response) (written : List UInt8), r.Sends proxy sent written ∧
      responsePass t proxy () (Stream.mk (r.bytes ++ rest) c) =
        ⟨.ok (.next ()), ⟨r.leftover ++ rest, c⟩, written⟩ := by
  obtain ⟨htext, hsmall⟩ := h
  rcases r with ⟨block, body, framed | ⟨framed, coded, payload_eq⟩⟩
  · let r : LengthResponse t := lengthResponse framed hsmall
    have hr : r.Rewritable := ⟨htext, hsmall⟩
    have hrun := r.responsePass_run proxy rest c
    rw [LengthResponse.sentBlock, if_pos hr, LengthResponse.sentBody, if_pos hr] at hrun
    by_cases heq : (rewriteBody proxy r.body).length = r.body.length
    · rw [if_pos heq] at hrun
      have hlossy : block.lossy.LengthFramed (rewriteBody proxy body).length := by
        rw [show (rewriteBody proxy body).length = body.length from heq]
        exact framed.lossy
      exact ⟨⟨block.lossy, rewriteBody proxy body, .length hlossy⟩, _,
        ⟨rfl, block.fields_lossy, .lossy, rfl, rfl, (List.append_nil _).symm⟩, hrun⟩
    · rw [if_neg heq] at hrun
      exact ⟨⟨block.updated (rewriteBody proxy body).length, rewriteBody proxy body,
        .length (framed.updated _)⟩, _, ⟨rfl, block.fields_updated _, fun h => h.updated _, rfl, rfl,
          (List.append_nil _).symm⟩, hrun⟩
  · subst payload_eq
    have hrun := responsePass_chunked proxy framed htext hsmall rest c
    rw [← List.append_assoc] at hrun
    obtain ⟨m, hpayload, htrailer, hencode⟩ :=
      exists_encodeChunked (rewriteBody proxy coded.payload)
    refine ⟨⟨block.lossy, rewriteBody proxy coded.payload, .chunked framed.lossy m hpayload⟩, _,
      ⟨rfl, block.fields_lossy, .lossy, htrailer, rfl, ?_⟩, hrun⟩
    rw [hencode, ← List.append_assoc]
    rfl

/-- The run from a reader that has the response before it. -/
theorem Response.Rewritable.loop {r : Response} (h : r.Rewritable t) (rest : List UInt8)
    (c : Bool) : ∃ (sent : Response) (written : List UInt8), r.Sends proxy sent written ∧
      responseLoop t proxy (Stream.mk (r.bytes ++ rest) c) =
        (responseLoop t proxy (Stream.mk (r.leftover ++ rest) c)).prepend written := by
  obtain ⟨sent, written, hsends, hpass⟩ := h.run proxy rest c
  refine ⟨sent, written, hsends, ?_⟩
  rw [responseLoop, loop_eq (responsePass_progress t proxy), hpass]
  rfl

end Pass

/-! ## Chunking -/

theorem rewriteBody_nil (originAddr proxyAddr : SocketAddr) :
    rewriteBody (TCPProxy.new originAddr proxyAddr) [] = [] := by
  rw [rewriteBody, TCPProxy.new]
  dsimp only
  rw [show fromUtf8Lossy [] = [] from rfl, replace_nil (urlBase_ne_nil originAddr)]
  rfl

theorem rewriteBody_ne_nil (originAddr proxyAddr : SocketAddr) {body : List UInt8}
    (h : body ≠ []) : rewriteBody (TCPProxy.new originAddr proxyAddr) body ≠ [] := by
  apply asBytes_ne_nil
  apply replace_ne_nil (urlBase_ne_nil originAddr) (urlBase_ne_nil proxyAddr)
  exact mt fromUtf8Lossy_eq_nil_iff.mp h

/-- The run over a chunked response with no trailer lines. -/
theorem responseLoop_chunked {t : Target} (proxy : TCPProxy) {block : HeaderBlock}
    (framed : block.ChunkFramed) (text : (block.head t).needsRewrite = true) {coded : ChunkedBody}
    (hle : coded.payload.length ≤ maxRewritableBodySize) (htrailer : coded.trailer = [])
    (rest : List UInt8) (c : Bool) :
    responseLoop t proxy (Stream.mk (block.bytes ++ (coded.bytes ++ rest)) c) =
      (responseLoop t proxy (Stream.mk rest c)).prepend
        (block.lossy.bytes ++ encodeChunked (rewriteBody proxy coded.payload)) := by
  rw [responseLoop, loop_eq (responsePass_progress t proxy),
    responsePass_chunked proxy framed text hle, coded.trailerRest_nil htrailer]
  rfl

/-- The run over a single length-framed response. -/
theorem proxyResponseWithRewrite_single {t : Target} (proxy : TCPProxy) (r : LengthResponse t) :
    (proxyResponseWithRewrite t proxy (.ofBytes r.bytes)).written =
      (r.sentBlock proxy).bytes ++ r.sentBody proxy := by
  have hloop := responseLoop_responses t proxy [r] [] true
  rw [List.flatMap_singleton, List.append_nil, responseLoop_end, List.flatMap_singleton] at hloop
  rw [written_ofBytes, hloop]
  simp

/-- What goes out in place of a length-framed response is length-framed. -/
theorem LengthResponse.sentBlock_framed {t : Target} (proxy : TCPProxy) (r : LengthResponse t) :
    (r.sentBlock proxy).LengthFramed (r.sentBody proxy).length := by
  unfold sentBlock sentBody
  split
  · split
    · next heq =>
      rw [heq]
      exact r.framed.lossy
    · exact r.framed.updated _
  · exact r.framed

/-- **The division into chunks does not matter.** What the client decodes is the
body it would receive of the same bytes framed by Content-Length. -/
theorem proxyResponseWithRewrite_chunking (t : Target) (originAddr proxyAddr : SocketAddr)
    {block : HeaderBlock} (framed : block.ChunkFramed)
    (text : (block.head t).needsRewrite = true) {m₁ m₂ : ChunkedBody}
    (hsame : m₁.payload = m₂.payload) (hne : m₁.payload ≠ [])
    (hle : m₁.payload.length ≤ maxRewritableBodySize) (h₁ : m₁.trailer = []) (h₂ : m₂.trailer = [])
    {read₁ read₂ : OwnedReadHalf} {rest : List UInt8}
    (hread₁ : read₁.bytes = block.bytes ++ (m₁.bytes ++ rest))
    (hread₂ : read₂.bytes = block.bytes ++ (m₂.bytes ++ rest))
    (hclosed : read₁.closed = read₂.closed) :
    let proxy := TCPProxy.new originAddr proxyAddr
    let run₁ := proxyResponseWithRewrite t proxy read₁
    let run₂ := proxyResponseWithRewrite t proxy read₂
    run₁.written = run₂.written ∧ run₁.outcome = run₂.outcome ∧
      ∃ coded : ChunkedBody, coded.trailer = [] ∧
        run₁.written = block.lossy.bytes ++ (coded.bytes ++
          (responseLoop t proxy (Stream.mk rest read₁.closed)).written) ∧
        ∀ r : LengthResponse t, r.body = m₁.payload → r.Rewritable →
          ∃ sent : HeaderBlock, sent.LengthFramed coded.payload.length ∧
            (proxyResponseWithRewrite t proxy (.ofBytes r.bytes)).written =
              sent.bytes ++ coded.payload := by
  intro proxy run₁ run₂
  have hloop₁ := responseLoop_chunked proxy framed text hle h₁ rest read₁.closed
  have hloop₂ := responseLoop_chunked proxy framed text (hsame ▸ hle) h₂ rest read₁.closed
  rw [← hread₁] at hloop₁
  rw [← hread₂, ← hsame, ← hloop₁, hclosed] at hloop₂
  obtain ⟨coded, hpayload, htrailer, _, hencode⟩ :=
    encodeChunked_body (rewriteBody_ne_nil originAddr proxyAddr hne)
  refine ⟨?_, ?_, coded, htrailer, ?_, ?_⟩
  · rw [proxyResponseWithRewrite_written, proxyResponseWithRewrite_written, hloop₂, hclosed]
  · rw [proxyResponseWithRewrite_outcome, proxyResponseWithRewrite_outcome, hloop₂, hclosed]
  · rw [proxyResponseWithRewrite_written, hloop₁, Run.prepend_written, hencode, List.append_assoc]
  · intro r hbody hr
    have hsent : r.sentBody proxy = coded.payload := by
      rw [LengthResponse.sentBody, if_pos hr, hbody, hpayload]
    refine ⟨r.sentBlock proxy, hsent ▸ r.sentBlock_framed proxy, ?_⟩
    rw [proxyResponseWithRewrite_single, hsent]

/-- The header block of a chunked XML answer. -/
def chunkedBlock : HeaderBlock where
  lines := ["HTTP/1.1 200 OK\r", "Content-Type: text/xml\r", "Transfer-Encoding: chunked\r"].map
    fun line => asBytes line.toList
  blank := crlf
  feedless := by decide
  nonblank := by decide
  ends := crlf_blank

theorem chunkedBlock_framed : chunkedBlock.ChunkFramed where
  encoding_line := ⟨asBytes "Transfer-Encoding: chunked\r".toList, by decide, by decide, by decide⟩
  no_length := by decide

theorem proxyResponseWithRewrite_chunking_hi :
    let proxy := TCPProxy.new originAddr proxyAddr
    let read₁ := OwnedReadHalf.ofBytes (chunkedBlock.bytes ++ (inOneChunk.bytes ++ []))
    let read₂ := OwnedReadHalf.ofBytes (chunkedBlock.bytes ++ (inTwoChunks.bytes ++ []))
    let run₁ := proxyResponseWithRewrite release64 proxy read₁
    let run₂ := proxyResponseWithRewrite release64 proxy read₂
    run₁.written = run₂.written ∧ run₁.outcome = run₂.outcome ∧
      ∃ coded : ChunkedBody, coded.trailer = [] ∧
        run₁.written = chunkedBlock.lossy.bytes ++ (coded.bytes ++
          (responseLoop release64 proxy (Stream.mk [] read₁.closed)).written) ∧
        ∀ r : LengthResponse release64, r.body = inOneChunk.payload → r.Rewritable →
          ∃ sent : HeaderBlock, sent.LengthFramed coded.payload.length ∧
            (proxyResponseWithRewrite release64 proxy (.ofBytes r.bytes)).written =
              sent.bytes ++ coded.payload :=
  @proxyResponseWithRewrite_chunking release64 originAddr proxyAddr chunkedBlock chunkedBlock_framed
    (by decide +kernel) inOneChunk inTwoChunks (by decide) (by decide) (by decide) rfl rfl _ _ []
    (OwnedReadHalf.bytes_ofBytes _) (OwnedReadHalf.bytes_ofBytes _) rfl

end DlnaProxy.TcpProxy
