import DlnaProxy.TcpProxy.PassThrough
import DlnaProxy.TcpProxy.Rescan

/-!
# Transparency

A client finds the end of a body by the scan that the proxy makes: chunked coding wins
over a length, and of several lengths the last one counts. What is sent down the rewrite
path is framed as it was, so a client decodes the rewritten body. It is the origin's body
with its URL bases replaced, under the origin's header lines, where all of it is UTF-8.
-/
namespace DlnaProxy.TcpProxy

open DlnaProxy.Lib.ByteIo DlnaProxy.Lib.Growth DlnaProxy.Lib.Utf8 DlnaProxy.Net

/-- `content` follows the header block and carries `body`, as the scan frames it. -/
inductive Framed (t : Target) (block : HeaderBlock) : List UInt8 → List UInt8 → Prop
  | length {body : List UInt8} (plain : (block.head t).isChunked = false)
      (length : (block.head t).contentLength = some body.length) : Framed t block body body
  | chunked (coded : ChunkedBody) (chunked : (block.head t).isChunked = true) :
      Framed t block coded.bytes coded.payload

/-- **A client reads one header block and one body.** -/
theorem Framed.unique {t : Target} {b₁ b₂ : HeaderBlock}
    {content₁ content₂ body₁ body₂ x y : List UInt8} (h₁ : Framed t b₁ content₁ body₁)
    (h₂ : Framed t b₂ content₂ body₂)
    (h : b₁.bytes ++ (content₁ ++ x) = b₂.bytes ++ (content₂ ++ y)) :
    b₁ = b₂ ∧ body₁ = body₂ := by
  obtain ⟨hblock, hrest⟩ := HeaderBlock.bytes_append_inj h
  obtain rfl := HeaderBlock.eq_of_bytes hblock
  refine ⟨rfl, ?_⟩
  cases h₁ with
  | length plain₁ length₁ =>
    cases h₂ with
    | length plain₂ length₂ =>
      exact (List.append_inj hrest (Option.some.inj (length₁.symm.trans length₂))).1
    | chunked coded₂ chunked₂ => exact absurd (plain₁.symm.trans chunked₂) nofun
  | chunked coded₁ chunked₁ =>
    cases h₂ with
    | length plain₂ _ => exact absurd (plain₂.symm.trans chunked₁) nofun
    | chunked coded₂ chunked₂ => exact (ChunkedBody.bytes_append_inj hrest).2.1

/-! ## What is sent -/

section Sent

variable {t : Target} {block : HeaderBlock}

namespace HeaderBlock

variable (t block) in
/-- The header block that goes out with a rewritten body. -/
def sentWith (bodyLen rewrittenLen : Nat) : HeaderBlock :=
  if (block.head t).contentLength.isSome ∧ rewrittenLen ≠ bodyLen then block.updated rewrittenLen
  else block.lossy

theorem asBytes_updatedHeaders (n m : Nat) :
    asBytes (updatedHeaders (block.head t) n m) = (block.sentWith t n m).bytes := by
  rw [updatedHeaders, block.headerBuf_head, sentWith]
  by_cases h : (block.head t).contentLength.isSome ∧ m ≠ n
  · rw [if_pos h, if_pos (by simpa using h)]
    exact block.asBytes_updateContentLength m
  · rw [if_neg h, if_neg (by simpa using h)]
    exact block.asBytes_lossy

theorem sentWith_isChunked (n m : Nat) :
    ((block.sentWith t n m).head t).isChunked = (block.head t).isChunked := by
  unfold sentWith
  split
  · exact block.updated_isChunked m
  · exact block.lossy_isChunked t

theorem sentWith_fields (n m : Nat) : (block.sentWith t n m).fields =
    block.fields.map fun field => asBytes (fromUtf8Lossy field) := by
  unfold sentWith
  split
  · exact block.fields_updated m
  · exact block.fields_lossy

/-- A block with a length goes out with the new one. -/
theorem sentWith_contentLength {n m : Nat}
    (h : (block.head t).contentLength = some n) (hm : m < 2 ^ t.bits) :
    ((block.sentWith t n m).head t).contentLength = some m := by
  unfold sentWith
  split
  · have hline : ∃ line ∈ Lib.Utf8.lines (fromUtf8Lossy block.bytes), IsLengthLine line := by
      rw [block.exists_lengthLine_iff]
      by_contra hno
      rw [contentLength_none fun line hl hf => hno ⟨line, hl, hf⟩] at h
      cases h
    rw [block.updated_contentLength hm, if_pos hline]
  · next heq =>
    have hsame : m = n := by
      by_contra hne
      exact heq ⟨by rw [h]; rfl, hne⟩
    rw [block.lossy_contentLength, h, hsame]

end HeaderBlock

/-- A body with the length that the scan has found is rewritten with its header block. -/
theorem responsePass_length_rewritten (proxy : TCPProxy) {body : List UInt8}
    (plain : (block.head t).isChunked = false)
    (length : (block.head t).contentLength = some body.length)
    (hselects : (block.head t).selectsRewrite = true)
    (hsmall : body.length ≤ maxRewritableBodySize) (rest : List UInt8) (c : Bool) :
    responsePass t proxy () (Stream.mk (block.bytes ++ (body ++ rest)) c) =
      ⟨.ok (.next ()), ⟨rest, c⟩,
        (block.sentWith t body.length (rewriteBody proxy body).length).bytes ++
          rewriteBody proxy body⟩ := by
  have halloc : allocate t body.length (Stream.mk (body ++ rest) c) =
      ⟨.ok (), ⟨body ++ rest, c⟩, []⟩ := by
    rw [allocate, if_pos (Nat.lt_of_le_of_lt hsmall t.max_lt_isize)]
    rfl
  rw [responsePass_block, respond_selected proxy hselects, rewrite, plain, length]
  simp only [Bool.false_eq_true, ↓reduceIte]
  rw [bind_ok halloc, bind_ok (readExact_body body rest c), sendRewritten,
    block.asBytes_updatedHeaders, writeBody, plain]
  simp [Run.prepend_mk]

/-- **A pass on the rewrite path** writes a header block and a body that a client reads as
the rewritten one, and behind an empty chunked body a second end. -/
theorem Framed.responsePass_rewritten (originAddr proxyAddr : SocketAddr)
    {content body : List UInt8} (hframed : Framed t block content body)
    (hselects : (block.head t).selectsRewrite = true)
    (hsmall : body.length ≤ maxRewritableBodySize) (rest : List UInt8) (c : Bool) :
    let proxy := TCPProxy.new originAddr proxyAddr
    let sent := block.sentWith t body.length (rewriteBody proxy body).length
    ∃ content' second left, Framed t sent content' (rewriteBody proxy body) ∧
      responsePass t proxy () (Stream.mk (block.bytes ++ (content ++ rest)) c) =
        ⟨.ok (.next ()), ⟨left ++ rest, c⟩, sent.bytes ++ (content' ++ second)⟩ := by
  intro proxy sent
  cases hframed with
  | length plain length =>
    have hlength := rewriteBody_length_lt t originAddr proxyAddr hsmall
    refine ⟨_, [], [], .length (block.sentWith_isChunked _ _ |>.trans plain)
      (block.sentWith_contentLength length hlength), ?_⟩
    rw [responsePass_length_rewritten proxy plain length hselects hsmall, List.append_nil,
      List.nil_append]
  | chunked coded chunked =>
    have hsent := block.asBytes_updatedHeaders (t := t) coded.payload.length
      (rewriteBody proxy coded.payload).length
    obtain ⟨m, hpayload, _, hencode⟩ := exists_encodeChunked (rewriteBody proxy coded.payload)
    have hread := readChunkedBody_body t (sizesFit_of_payload hsmall) rest c
    refine ⟨m.bytes, if (rewriteBody proxy coded.payload).isEmpty then [48] ++ crlf ++ crlf else [],
      coded.trailerRest,
      hpayload ▸ .chunked m (block.sentWith_isChunked _ _ |>.trans chunked), ?_⟩
    rw [responsePass_block, respond_selected proxy hselects, rewrite, chunked, if_pos rfl,
      bind_ok hread, sendRewritten, hsent, writeBody, chunked, if_pos rfl, writeAll_bind_apply,
      bind_ok (writeChunkedBody_run _ _), hencode]
    simp [Run.prepend_mk, sent]

end Sent

/-! ## Transparency -/

/-- A client decodes the origin's body with its URL bases replaced byte by byte, and
receives the origin's header lines. -/
def Transparent (t : Target) (proxy : TCPProxy) (block : HeaderBlock) (body received : List UInt8) :
    Prop :=
  ∃ (sent : HeaderBlock) (content decoded rest : List UInt8),
    received = sent.bytes ++ (content ++ rest) ∧ Framed t sent content decoded ∧
      decoded = replace (asBytes proxy.originUrlBase) (asBytes proxy.proxyUrlBase) body ∧
      sent.fields = block.fields

/-- The lossy text is replaced as the bytes are, just where the bytes are text. -/
theorem rewriteBody_eq_replace_iff (originAddr proxyAddr : SocketAddr) (body : List UInt8) :
    let proxy := TCPProxy.new originAddr proxyAddr
    rewriteBody proxy body =
        replace (asBytes proxy.originUrlBase) (asBytes proxy.proxyUrlBase) body ↔ Valid body := by
  intro proxy
  have hbytes : rewriteBody proxy body = replace (asBytes (urlBase originAddr))
      (asBytes (urlBase proxyAddr)) (asBytes (fromUtf8Lossy body)) :=
    asBytes_replace (urlBase_ascii originAddr) (urlBase_ne_nil originAddr) _ _
  have hvalid := valid_replace_iff (asBytes_ascii_le (urlBase_ascii originAddr))
    (asBytes_ne_nil (urlBase_ne_nil originAddr)) (asBytes_ascii_le (urlBase_ascii proxyAddr))
    (asBytes_ne_nil (urlBase_ne_nil proxyAddr)) body
  constructor
  · intro h
    apply hvalid.mp
    show Valid (replace (asBytes proxy.originUrlBase) (asBytes proxy.proxyUrlBase) body)
    rw [← h]
    exact valid_iff.mpr ⟨_, rfl⟩
  · intro h
    rw [hbytes, show asBytes (fromUtf8Lossy body) = body from h]
    rfl

theorem transparent_iff (t : Target) (originAddr proxyAddr : SocketAddr) {block sent : HeaderBlock}
    {content body : List UInt8} (hfields : sent.fields =
      block.fields.map fun field => asBytes (fromUtf8Lossy field))
    (hframed : Framed t sent content (rewriteBody (TCPProxy.new originAddr proxyAddr) body))
    (more : List UInt8) :
    Transparent t (TCPProxy.new originAddr proxyAddr) block body (sent.bytes ++ (content ++ more)) ↔
      Valid body ∧ ∀ field ∈ block.fields, Valid field := by
  have hbody := rewriteBody_eq_replace_iff originAddr proxyAddr body
  have hsame : (sent.fields = block.fields) ↔ ∀ field ∈ block.fields, Valid field := by
    have hid := @List.map_inj_left _ _ block.fields (fun field => asBytes (fromUtf8Lossy field)) id
    rwa [List.map_id, ← hfields] at hid
  constructor
  · rintro ⟨sent', content', decoded, rest, heq, hframed', hdecoded, hfields'⟩
    obtain ⟨rfl, rfl⟩ := hframed.unique hframed' heq
    exact ⟨hbody.mp hdecoded, hsame.mp hfields'⟩
  · rintro ⟨hvalid, hall⟩
    exact ⟨sent, content, _, more, rfl, hframed, hbody.mpr hvalid, hsame.mpr hall⟩

/-- **What is sent down the rewrite path is transparent just where the body and the
other header lines are valid UTF-8**, wherever on the connection it comes. -/
theorem proxyResponseWithRewrite_transparent_iff (t : Target) (originAddr proxyAddr : SocketAddr)
    {originRead : OwnedReadHalf} {w : List UInt8} {reader : BufReader}
    (hreads : ReadsTo t (TCPProxy.new originAddr proxyAddr) originRead w reader)
    {block : HeaderBlock} {content body : List UInt8} (hframed : Framed t block content body)
    (hselects : (block.head t).selectsRewrite = true)
    (hsmall : body.length ≤ maxRewritableBodySize) {rest : List UInt8}
    (hbytes : reader.bytes = block.bytes ++ (content ++ rest)) :
    let proxy := TCPProxy.new originAddr proxyAddr
    ∃ received, (proxyResponseWithRewrite t proxy originRead).written = w ++ received ∧
      (Transparent t proxy block body received ↔
        Valid body ∧ ∀ field ∈ block.fields, Valid field) := by
  intro proxy
  obtain ⟨content', second, left, hsent, hpass⟩ :=
    hframed.responsePass_rewritten originAddr proxyAddr hselects hsmall rest reader.closed
  have hrun := congrArg Run.written hreads.run
  rw [BufReader.stream, hbytes, responseLoop, loop_eq (responsePass_progress t proxy), hpass] at hrun
  refine ⟨_, hrun, ?_⟩
  rw [resume, Run.prepend_written, List.append_assoc, List.append_assoc]
  exact transparent_iff t originAddr proxyAddr (block.sentWith_fields _ _) hsent _

/-- The body bytes of `cé` in Latin-1, of an XML answer with two bytes. -/
def latinBody : List UInt8 := [0x63, 0xE9]

theorem xmlResponse_text : (xmlResponse.block.head release64).needsRewrite = true := by
  decide +kernel

theorem latinBody_framed : Framed release64 xmlResponse.block latinBody latinBody :=
  .length xmlResponse.framed.isChunked xmlResponse.contentLength

theorem xmlResponse_selects : (xmlResponse.block.head release64).selectsRewrite = true := by
  rw [Head.selectsRewrite, xmlResponse.contentLength, xmlResponse_text, Head.bodyTooLarge,
    xmlResponse.contentLength, Option.isSome_some, Bool.or_true]
  rfl

theorem proxyResponseWithRewrite_transparent_iff_latin :
    let proxy := TCPProxy.new originAddr proxyAddr
    let written (body : List UInt8) := (proxyResponseWithRewrite release64 proxy
      (.ofBytes (xmlResponse.block.bytes ++ (body ++ [])))).written
    (∃ received, written latinBody = [] ++ received ∧
      (Transparent release64 proxy xmlResponse.block latinBody received ↔
        Valid latinBody ∧ ∀ field ∈ xmlResponse.block.fields, Valid field)) ∧
    ∃ received, written xmlResponse.body = [] ++ received ∧
      Transparent release64 proxy xmlResponse.block xmlResponse.body received := by
  intro proxy written
  constructor
  · exact proxyResponseWithRewrite_transparent_iff release64 originAddr proxyAddr (Reaches.refl _ _)
      latinBody_framed xmlResponse_selects (by decide)
      (congrArg Stream.bytes (OwnedReadHalf.stream_ofBytes _))
  · have hframed : Framed release64 xmlResponse.block xmlResponse.body xmlResponse.body :=
      .length xmlResponse.framed.isChunked xmlResponse.contentLength
    obtain ⟨received, hwritten, htransparent⟩ :=
      proxyResponseWithRewrite_transparent_iff release64 originAddr proxyAddr (Reaches.refl _ _)
        hframed xmlResponse_selects (by decide)
        (congrArg Stream.bytes (OwnedReadHalf.stream_ofBytes _))
    exact ⟨received, hwritten, htransparent.mpr ⟨by decide, by decide⟩⟩

/-- The Latin-1 byte arrives as the three bytes of the replacement character. -/
theorem proxyResponseWithRewrite_not_transparent :
    let proxy := TCPProxy.new originAddr proxyAddr
    Framed release64 xmlResponse.block latinBody latinBody ∧
      (xmlResponse.block.head release64).selectsRewrite = true ∧
      ¬ Transparent release64 proxy xmlResponse.block latinBody (proxyResponseWithRewrite release64
        proxy (.ofBytes (xmlResponse.block.bytes ++ (latinBody ++ [])))).written := by
  intro proxy
  obtain ⟨content', second, left, hsent, hpass⟩ := latinBody_framed.responsePass_rewritten
    originAddr proxyAddr xmlResponse_selects (by decide) [] true
  refine ⟨latinBody_framed, xmlResponse_selects, ?_⟩
  rw [written_ofBytes, responseLoop, loop_eq (responsePass_progress release64 proxy), hpass, resume,
    Run.prepend_written, List.append_assoc, List.append_assoc,
    transparent_iff release64 originAddr proxyAddr (xmlResponse.block.sentWith_fields _ _) hsent]
  have hinvalid : ¬ Valid latinBody := by decide
  exact fun h => hinvalid h.1

end DlnaProxy.TcpProxy
