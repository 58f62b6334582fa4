import DlnaProxy.TcpProxy.Delivery
import DlnaProxy.TcpProxy.Rescan

/-!
# Messages

A client takes what it receives for messages: header lines and a body, whatever the
framing. On them the proxy is a function, `Message.proxied`. The response loop
refines it: of the responses that it delivers the client reads the messages of the
origin, each `proxied`, with what follows still to come.
-/
namespace DlnaProxy.TcpProxy

open DlnaProxy.Lib.ByteIo DlnaProxy.Lib.Utf8 DlnaProxy.Net

/-- What a client reads of a response: its header lines other than Content-Length, and
its body. -/
structure Message where
  fields : List (List UInt8)
  body : List UInt8
  deriving DecidableEq

def Response.message (r : Response) : Message := ⟨r.block.fields, r.body⟩

namespace Message

variable (proxy : TCPProxy) (m : Message)

/-- The first Content-Type line names a type that is rewritten. -/
def isText : Bool :=
  (m.fields.find? fun field => startsWith (toLowercase (fromUtf8Lossy field)) contentTypeField).any
    fun field => rewritesType (toLowercase (fromUtf8Lossy field))

/-- Text of at most the maximum size is rewritten, with its header lines as lossy text. -/
def proxied : Message :=
  if m.isText ∧ m.body.length ≤ maxRewritableBodySize then
    ⟨m.fields.map fun field => asBytes (fromUtf8Lossy field), rewriteBody proxy m.body⟩
  else m

/-- The lossy text of the header lines names the same type. -/
theorem isText_lossy (fields : List (List UInt8)) (body body' : List UInt8) :
    isText ⟨fields.map fun field => asBytes (fromUtf8Lossy field), body⟩ = isText ⟨fields, body'⟩ := by
  simp only [isText, List.find?_map, Option.any_map, Function.comp_def, fromUtf8Lossy_asBytes]

theorem isText_proxied : (m.proxied proxy).isText = m.isText := by
  unfold proxied
  split
  · exact isText_lossy m.fields _ m.body
  · rfl

end Message

/-- The scan of the header block finds the content type among the fields. -/
theorem Response.isText_message (t : Target) (r : Response) :
    r.message.isText = (r.block.head t).needsRewrite := by
  have hlast : [[]].find? (fun line => startsWith (toLowercase line) contentTypeField) = none := by
    decide
  have hfield (line : List UInt8) :
      fromUtf8Lossy (stripLast 13 line) = stripLast '\r' (fromUtf8Lossy line) :=
    (stripLast_lossy (show Ascii '\r' by decide) line).symm
  -- a Content-Length line names no content type
  have hother (line : List UInt8) :
      decide (decide (¬ HasField contentLengthField line) = true ∧
        startsWith (toLowercase (stripLast '\r' (fromUtf8Lossy line))) contentTypeField = true) =
      startsWith (toLowercase (stripLast '\r' (fromUtf8Lossy line))) contentTypeField := by
    by_cases hlength : HasField contentLengthField line
    · have hstart := (startsWith_stripLast_iff fieldName_contentLength _).mpr
        ((startsWith_lossy_iff fieldName_contentLength line).mpr hlength)
      rw [not_contentType_of_lengthLine hstart]
      simp
    · simp [hlength]
  rw [Head.needsRewrite, r.block.headerBuf_head, shouldRewriteContent_eq, r.block.lines_lossy,
    List.find?_append, hlast, Option.or_none, Message.isText]
  simp only [Response.message, HeaderBlock.fields, List.find?_map, List.find?_filter,
    Option.any_map, Function.comp_def, hfield, hother]

/-! ## Reading messages -/

/-- The bytes are responses with these messages, one after the other. -/
def Decodes (bytes : List UInt8) (messages : List Message) : Prop :=
  ∃ responses : List Response, responses.flatMap (·.bytes) = bytes ∧
    responses.map (·.message) = messages

theorem Response.bytes_ne_nil (r : Response) : r.bytes ≠ [] :=
  List.append_ne_nil_of_left_ne_nil r.block.bytes_ne_nil _

/-- What starts with responses is read as theirs first. -/
theorem Response.flatMap_bytes_prefix {rs₁ rs₂ : List Response}
    (h : rs₁.flatMap (·.bytes) <+: rs₂.flatMap (·.bytes)) :
    rs₁.map (·.message) <+: rs₂.map (·.message) := by
  induction rs₁ generalizing rs₂ with
  | nil => exact List.nil_prefix
  | cons r₁ rs₁ ih =>
    obtain ⟨rest, hrest⟩ := h
    rw [List.flatMap_cons, List.append_assoc] at hrest
    cases rs₂ with
    | nil => exact absurd hrest (List.append_ne_nil_of_left_ne_nil r₁.bytes_ne_nil _)
    | cons r₂ rs₂ =>
      rw [List.flatMap_cons] at hrest
      obtain ⟨hblock, hbody, _, htail⟩ := Response.bytes_append_inj hrest
      rw [List.map_cons, List.map_cons, Response.message, Response.message, hblock, hbody,
        List.prefix_cons_inj]
      exact ih ⟨rest, htail⟩

/-- Bytes are read as one sequence of messages only. -/
theorem Decodes.unique {bytes : List UInt8} {m₁ m₂ : List Message} (h₁ : Decodes bytes m₁)
    (h₂ : Decodes bytes m₂) : m₁ = m₂ := by
  obtain ⟨rs₁, hbytes, rfl⟩ := h₁
  obtain ⟨rs₂, rfl, rfl⟩ := h₂
  have hle := Response.flatMap_bytes_prefix (hbytes ▸ List.prefix_rfl :
    rs₁.flatMap (·.bytes) <+: rs₂.flatMap (·.bytes))
  have hge := Response.flatMap_bytes_prefix (hbytes ▸ List.prefix_rfl :
    rs₂.flatMap (·.bytes) <+: rs₁.flatMap (·.bytes))
  exact hle.eq_of_length (Nat.le_antisymm hle.length_le hge.length_le)

/-! ## Delivered responses -/

/-- A body that is rewritten is of at most the maximum size. -/
def Message.Fits (m : Message) : Prop := m.isText = true → m.body.length ≤ maxRewritableBodySize

/-- The rewriting does not take the body past the maximum size. -/
def Message.StaysSmall (proxy : TCPProxy) (m : Message) : Prop := m.Fits → (m.proxied proxy).Fits

section Delivered

variable {t : Target} {r sent : Response} {written : List UInt8} {proxy : TCPProxy}

theorem Response.rewritable_iff :
    r.Rewritable t ↔ r.message.isText = true ∧ r.message.body.length ≤ maxRewritableBodySize := by
  rw [r.isText_message t]
  exact ⟨fun h => ⟨h.text, h.small⟩, fun h => ⟨h.1, h.2⟩⟩

theorem Response.message_kept (h : ¬ r.Rewritable t) : r.message.proxied proxy = r.message := by
  rw [Response.rewritable_iff] at h
  rw [Message.proxied, if_neg h]

theorem Response.Sends.message (h : r.Sends proxy sent written) (hr : r.Rewritable t) :
    sent.message = r.message.proxied proxy := by
  rw [Message.proxied, if_pos (Response.rewritable_iff.mp hr), Response.message, h.fields, h.body]
  rfl

variable (originAddr proxyAddr : SocketAddr)

/-- What is sent for a response is delivered by a further proxy, if it has not become
too large for that. -/
theorem Response.Sends.delivered (h : r.Sends (TCPProxy.new originAddr proxyAddr) sent written)
    (hr : r.Rewritable t) (hne : r.isChunked = true → r.body ≠ [])
    (hfits : sent.message.Fits) : sent.Delivered t := by
  have htext : sent.message.isText = true := by
    rw [h.message hr, Message.isText_proxied, r.isText_message t, hr.text]
  have hbody := h.body
  have htrailer := h.trailer
  have hchunked := h.isChunked
  rcases sent with ⟨block, body, framed | ⟨framed, coded, payload_eq⟩⟩
  · apply Response.Delivered.length framed
    rw [show body = _ from hbody]
    exact rewriteBody_length_lt t originAddr proxyAddr hr.small
  · rw [Response.isText_message t] at htext
    refine .rewritten framed payload_eq htext htrailer ?_ (hfits ((Response.isText_message t _).trans htext))
    rw [show body = _ from hbody]
    exact rewriteBody_ne_nil originAddr proxyAddr (hne hchunked.symm)

/-- **A delivered response is passed on as its message `proxied`**, before anything of
what follows it is read. -/
theorem Response.Delivered.proxied (h : r.Delivered t) (rest : List UInt8) (c : Bool) :
    let proxy := TCPProxy.new originAddr proxyAddr
    ∃ sent : Response, sent.message = r.message.proxied proxy ∧
      (r.message.StaysSmall proxy → sent.Delivered t) ∧
      responseLoop t proxy (Stream.mk (r.bytes ++ rest) c) =
        (responseLoop t proxy (Stream.mk rest c)).prepend sent.bytes := by
  intro proxy
  have hdelivered := h
  by_cases hr : r.Rewritable t
  · obtain ⟨sent, written, hsends, hloop⟩ := hr.loop proxy rest c
    have hfits : r.message.Fits := fun _ => hr.small
    have hne : r.isChunked = true → r.body ≠ [] := by
      intro hchunked
      cases h with
      | length framed fits => cases hchunked
      | rewritten _ _ _ _ nonempty _ => exact nonempty
      | passed framed payload_eq text _ _ => exact absurd (text.symm.trans hr.text) nofun
    have hend : sent.secondEnd = [] := by
      by_cases hchunked : r.isChunked = true
      · exact hsends.secondEnd_nil originAddr proxyAddr (hne hchunked)
      · rw [Response.secondEnd, hsends.isChunked, Bool.eq_false_iff.mpr hchunked]
        rfl
    have hleft : r.leftover = [] := by
      cases h with
      | length framed fits => rfl
      | rewritten framed payload_eq _ trailer _ _ => exact ChunkedBody.trailerRest_nil _ trailer
      | passed framed payload_eq text _ _ => exact absurd (text.symm.trans hr.text) nofun
    rw [hsends.written_eq, hend, hleft, List.append_nil] at hloop
    refine ⟨sent, hsends.message hr, fun hstays => ?_, hloop⟩
    apply hsends.delivered originAddr proxyAddr hr hne
    rw [hsends.message hr]
    exact hstays hfits
  · refine ⟨r, (Response.message_kept hr).symm, fun _ => hdelivered, ?_⟩
    cases h with
    | @length block body framed fits =>
      let r : LengthResponse t := ⟨block, body, framed, fits⟩
      have hnot : ¬ r.Rewritable := fun h => hr ⟨h.1, h.2⟩
      exact responseLoop_passedThrough proxy hnot rest c
    | rewritten _ _ text _ _ small => exact absurd ⟨text, small⟩ hr
    | @passed block body framed coded payload_eq text trailer sizes =>
      obtain ⟨consumed, hconsumed, hloop⟩ :=
        responseLoop_chunked_passed proxy framed.isChunked (framed.selectsRewrite.trans text) sizes
          rest c
      rw [coded.trailerRest_nil trailer] at hconsumed hloop
      rw [List.append_nil] at hconsumed
      rw [hconsumed, ← List.append_assoc] at hloop
      exact hloop

/-- The same of a sequence of responses. -/
theorem responseLoop_delivered {responses : List Response} (h : ∀ r ∈ responses, r.Delivered t)
    (rest : List UInt8) (c : Bool) :
    let proxy := TCPProxy.new originAddr proxyAddr
    ∃ sent : List Response,
      sent.map (·.message) = responses.map (fun r => r.message.proxied proxy) ∧
      ((∀ r ∈ responses, r.message.StaysSmall proxy) → ∀ s ∈ sent, s.Delivered t) ∧
      responseLoop t proxy (Stream.mk (responses.flatMap (·.bytes) ++ rest) c) =
        (responseLoop t proxy (Stream.mk rest c)).prepend (sent.flatMap (·.bytes)) := by
  intro proxy
  induction responses with
  | nil => exact ⟨[], rfl, fun _ => List.forall_mem_nil _, (Run.prepend_nil _).symm⟩
  | cons r responses ih =>
    obtain ⟨sents, hmessages, hsents, hloop⟩ := ih fun r hr => h r (List.mem_cons_of_mem _ hr)
    have hr : r.Delivered t := h r List.mem_cons_self
    obtain ⟨sent, hmessage, hsent, hfirst⟩ := hr.proxied originAddr proxyAddr
      (responses.flatMap (·.bytes) ++ rest) c
    refine ⟨sent :: sents, ?_, ?_, ?_⟩
    · rw [List.map_cons, List.map_cons, hmessage, hmessages]
    · intro hstays s hs
      rcases List.mem_cons.mp hs with rfl | hs
      · exact hsent (hstays r List.mem_cons_self)
      · exact hsents (fun r hr => hstays r (List.mem_cons_of_mem _ hr)) s hs
    · rw [List.flatMap_cons, List.append_assoc, hfirst, hloop, Run.prepend_prepend,
        List.flatMap_cons]

end Delivered

/-- The run over delivered responses alone. -/
theorem proxyResponseWithRewrite_delivered (t : Target) (originAddr proxyAddr : SocketAddr)
    {responses : List Response} (h : ∀ r ∈ responses, r.Delivered t) {originRead : OwnedReadHalf}
    (hbytes : originRead.bytes = responses.flatMap (·.bytes)) :
    let proxy := TCPProxy.new originAddr proxyAddr
    ∃ sent : List Response, sent.map (·.message) = responses.map (fun r => r.message.proxied proxy) ∧
      ((∀ r ∈ responses, r.message.StaysSmall proxy) → ∀ s ∈ sent, s.Delivered t) ∧
      (proxyResponseWithRewrite t proxy originRead).written = sent.flatMap (·.bytes) := by
  intro proxy
  obtain ⟨sent, hmessages, hsent, hloop⟩ := responseLoop_delivered originAddr proxyAddr h []
    originRead.closed
  refine ⟨sent, hmessages, hsent, ?_⟩
  rw [List.append_nil, ← hbytes, responseLoop_incomplete t _ incomplete_nil] at hloop
  rw [proxyResponseWithRewrite_written, hloop, Run.prepend_written, List.append_nil]

/-- **The response loop refines `Message.proxied`.** Whatever follows the delivered
responses, and whether the origin closes or not, what is written for them is read as the
messages `proxied`, and the rest of the run is that on what follows. -/
theorem proxyResponseWithRewrite_messages (t : Target) (originAddr proxyAddr : SocketAddr)
    {responses : List Response} (h : ∀ r ∈ responses, r.Delivered t) {originRead : OwnedReadHalf}
    {rest : List UInt8} (hbytes : originRead.bytes = responses.flatMap (·.bytes) ++ rest) :
    let proxy := TCPProxy.new originAddr proxyAddr
    let run := proxyResponseWithRewrite t proxy originRead
    let after := responseLoop t proxy (Stream.mk rest originRead.closed)
    ∃ answered, run.written = answered ++ after.written ∧ run.outcome = after.outcome ∧
      ∀ messages, Decodes answered messages ↔
        messages = responses.map fun r => r.message.proxied proxy := by
  intro proxy run after
  obtain ⟨sent, hmessages, _, hloop⟩ := responseLoop_delivered originAddr proxyAddr h rest
    originRead.closed
  rw [← hbytes] at hloop
  have hdecodes : Decodes (sent.flatMap (·.bytes))
      (responses.map fun r => r.message.proxied proxy) := ⟨sent, rfl, hmessages⟩
  refine ⟨sent.flatMap (·.bytes), ?_, ?_, fun messages => ⟨fun hread => hread.unique hdecodes, ?_⟩⟩
  · rw [proxyResponseWithRewrite_written, hloop, Run.prepend_written]
  · rw [proxyResponseWithRewrite_outcome, hloop, Run.prepend_outcome]
  · intro hread
    rw [hread]
    exact hdecodes

theorem chunkedBlock_text : (chunkedBlock.head release64).needsRewrite = true := by decide +kernel

/-- An XML answer with its length and one in two chunks. -/
def twoAnswers : List Response :=
  [⟨xmlResponse.block, xmlResponse.body, .length xmlResponse.framed⟩, twoChunksResponse]

theorem twoAnswers_delivered : ∀ r ∈ twoAnswers, r.Delivered release64 := by
  intro r hr
  simp only [twoAnswers, List.mem_cons, List.not_mem_nil, or_false] at hr
  rcases hr with rfl | rfl
  · exact .length xmlResponse.framed xmlResponse.fits
  · exact .rewritten chunkedBlock_framed rfl chunkedBlock_text rfl (by decide) (by decide)

/-- A third one has not arrived yet. -/
theorem proxyResponseWithRewrite_messages_twoAnswers :
    let proxy := TCPProxy.new originAddr proxyAddr
    let originRead : OwnedReadHalf :=
      ⟨BufReader.onePiece (twoAnswers.flatMap (·.bytes) ++ asBytes httpVersion), false⟩
    let run := proxyResponseWithRewrite release64 proxy originRead
    let after := responseLoop release64 proxy (Stream.mk (asBytes httpVersion) originRead.closed)
    ∃ answered, run.written = answered ++ after.written ∧ run.outcome = after.outcome ∧
      ∀ messages, Decodes answered messages ↔
        messages = twoAnswers.map fun r => r.message.proxied proxy := by
  intro proxy originRead
  have hbytes : originRead.bytes = twoAnswers.flatMap (·.bytes) ++ asBytes httpVersion :=
    BufReader.joined_onePiece (twoAnswers.flatMap (·.bytes) ++ asBytes httpVersion)
  exact proxyResponseWithRewrite_messages release64 originAddr proxyAddr twoAnswers_delivered hbytes

end DlnaProxy.TcpProxy
