import DlnaProxy.TcpProxy.ChunkPass

/-!
# Responses, and what a client receives

A `Response` is a header block with a body framed by its length or by chunked
coding. It is also what a client receives: bytes start with one response at most,
so they say what body the client decodes.
-/
namespace DlnaProxy.TcpProxy

open DlnaProxy.Lib.ByteIo DlnaProxy.Lib.Utf8

/-- How a body follows its header block. -/
inductive Framing (block : HeaderBlock) (body : List UInt8)
  | length (framed : block.LengthFramed body.length)
  | chunked (framed : block.ChunkFramed) (coded : ChunkedBody) (payload_eq : coded.payload = body)

structure Response where
  block : HeaderBlock
  body : List UInt8
  framing : Framing block body

namespace Response

variable (r : Response)

/-- The body as it is sent. -/
def content : List UInt8 :=
  match r.framing with
  | .length _ => r.body
  | .chunked _ coded _ => coded.bytes

def bytes : List UInt8 := r.block.bytes ++ r.content

/-- What the proxy leaves unread of the response: all trailer lines but the first. -/
def leftover : List UInt8 :=
  match r.framing with
  | .length _ => []
  | .chunked _ coded _ => coded.trailerRest

def isChunked : Bool :=
  match r.framing with
  | .length _ => false
  | .chunked _ _ _ => true

def trailer : List (List UInt8) :=
  match r.framing with
  | .length _ => []
  | .chunked _ coded _ => coded.trailer

/-- What the writer writes after the end of an empty chunked body. -/
def secondEnd : List UInt8 := if r.isChunked && r.body.isEmpty then [48] ++ crlf ++ crlf else []

end Response

/-! ## The status line -/

def httpVersion : Str := "HTTP/".toList

/-- The first line of the block is a status line. -/
def HeaderBlock.StartsHttp (block : HeaderBlock) : Prop :=
  ∃ line lines, block.lines = line :: lines ∧ asBytes httpVersion <+: line

namespace HeaderBlock.StartsHttp

variable {block : HeaderBlock}

theorem ascii_httpVersion : AllAscii httpVersion := by decide

theorem bytes (h : block.StartsHttp) : asBytes httpVersion <+: block.bytes := by
  obtain ⟨line, lines, hlines, hstart⟩ := h
  rw [HeaderBlock.bytes, hlines, List.flatMap_cons, List.append_assoc, List.append_assoc]
  exact hstart.trans (List.prefix_append _ _)

theorem lossy_line {line : List UInt8} (h : asBytes httpVersion <+: line) :
    httpVersion <+: fromUtf8Lossy line := (prefix_lossy_iff ascii_httpVersion line).mpr h

theorem lossy (h : block.StartsHttp) : block.lossy.StartsHttp := by
  obtain ⟨line, lines, hlines, hstart⟩ := h
  refine ⟨asBytes (fromUtf8Lossy line), lines.map fun line => asBytes (fromUtf8Lossy line), ?_, ?_⟩
  · show List.map _ block.lines = _
    rw [hlines, List.map_cons]
  · exact (asBytes_prefix_iff ascii_httpVersion _).mpr (lossy_line hstart)

theorem updated (h : block.StartsHttp) (n : Nat) : (block.updated n).StartsHttp := by
  obtain ⟨line, lines, hlines, hstart⟩ := h
  refine ⟨updatedLine n line, lines.map (updatedLine n), ?_, ?_⟩
  · show List.map _ block.lines = _
    rw [hlines, List.map_cons]
  · have hother : ¬ HasField contentLengthField line := by
      intro hfield
      obtain ⟨more, rfl⟩ := hstart
      rw [HasField, List.map_append] at hfield
      have htake := List.prefix_iff_eq_take.mp (List.prefix_of_prefix_length_le
        ((List.take_prefix 5 (asBytes contentLengthField)).trans hfield)
        (List.prefix_append _ _) (by decide))
      exact absurd htake (by decide)
    have hcr : '\r' ∉ httpVersion := by decide
    rw [updatedLine, if_neg hother, asBytes_prefix_iff ascii_httpVersion,
      prefix_append_singleton_iff hcr]
    have hlossy := lossy_line hstart
    rcases stripLast_cases '\r' (fromUtf8Lossy line) with heq | ⟨heq, _⟩
    · rw [heq, prefix_append_singleton_iff hcr] at hlossy
      exact hlossy
    · rw [← heq]
      exact hlossy

end HeaderBlock.StartsHttp

/-! ## A message is read in one way -/

theorem HeaderBlock.lines_eq_of_bytes {b₁ b₂ : HeaderBlock} (h : b₁.bytes = b₂.bytes) :
    b₁.lines = b₂.lines := by
  have hraw : b₁.rawLines = b₂.rawLines := by
    rw [← b₁.splitInclusive_bytes, h, b₂.splitInclusive_bytes]
  have hmap := List.append_inj_left' hraw rfl
  exact List.map_injective_iff.mpr (List.append_left_injective [10]) hmap

theorem HeaderBlock.eq_of_bytes {b₁ b₂ : HeaderBlock} (h : b₁.bytes = b₂.bytes) : b₁ = b₂ := by
  have hlines := HeaderBlock.lines_eq_of_bytes h
  rw [HeaderBlock.bytes, HeaderBlock.bytes, hlines] at h
  have hblank := List.append_cancel_left h
  obtain ⟨lines₁, blank₁, _, _, _⟩ := b₁
  obtain ⟨lines₂, blank₂, _, _, _⟩ := b₂
  obtain rfl : lines₁ = lines₂ := hlines
  obtain rfl : blank₁ = blank₂ := hblank
  rfl

theorem HeaderBlock.LengthFramed.unique {block : HeaderBlock} {m n : Nat}
    (hm : block.LengthFramed m) (hn : block.LengthFramed n) : m = n := by
  have hlt := lt_targetOf (m + n)
  have hm' := hm.contentLength (t := targetOf (m + n)) (by omega)
  have hn' := hn.contentLength (t := targetOf (m + n)) (by omega)
  exact Option.some.inj (hm'.symm.trans hn')

theorem HeaderBlock.LengthFramed.not_chunkFramed {block : HeaderBlock} {n : Nat}
    (h : block.LengthFramed n) : ¬ block.ChunkFramed := by
  intro hc
  obtain ⟨line, hl, hfield, _⟩ := hc.encoding_line
  exact h.no_encoding line hl hfield

/-- **A client receives one header block and one body**, and sees where they end. -/
theorem Response.bytes_append_inj {r₁ r₂ : Response} {x y : List UInt8}
    (h : r₁.bytes ++ x = r₂.bytes ++ y) :
    r₁.block = r₂.block ∧ r₁.body = r₂.body ∧ r₁.bytes = r₂.bytes ∧ x = y := by
  rcases r₁ with ⟨b₁, body₁, f₁ | ⟨f₁, m₁, p₁⟩⟩ <;> rcases r₂ with ⟨b₂, body₂, f₂ | ⟨f₂, m₂, p₂⟩⟩ <;>
    simp only [Response.bytes, Response.content, List.append_assoc] at h ⊢ <;>
    obtain ⟨hblock, hrest⟩ := HeaderBlock.bytes_append_inj h <;>
    obtain rfl := HeaderBlock.eq_of_bytes hblock
  · obtain ⟨hbody, htail⟩ := List.append_inj hrest (f₁.unique f₂)
    exact ⟨rfl, hbody, by rw [hbody], htail⟩
  · exact absurd f₂ f₁.not_chunkFramed
  · exact absurd f₁ f₂.not_chunkFramed
  · obtain ⟨hbytes, hpayload, htail⟩ := ChunkedBody.bytes_append_inj hrest
    exact ⟨rfl, p₁.symm.trans (hpayload.trans p₂), by rw [hbytes], htail⟩

/-! ## Chunks as the proxy writes them -/

def encodeChunked (body : List UInt8) : List UInt8 :=
  asBytes (hex body.length) ++ crlf ++ (body ++ (crlf ++ ([48] ++ crlf ++ crlf)))

theorem writeChunkedBody_run (body : List UInt8) (s : Stream) :
    writeChunkedBody body s = ⟨.ok (), s, encodeChunked body⟩ := by
  rw [writeChunkedBody, writeAll_bind_apply, writeAll_bind_apply, writeAll_bind_apply]
  rfl

/-- The last chunk as the proxy writes it. -/
theorem exists_lastChunk : ∃ line : SizeLine, line.value = 0 ∧ line.bytes = [48] ++ crlf := by
  obtain ⟨line, hvalue, hbytes⟩ := SizeLine.exists_hex 0
  exact ⟨line, hvalue, hbytes.trans (by decide)⟩

/-- A body that is not empty is written as one chunk and the last one. -/
theorem encodeChunked_body {body : List UInt8} (h : body ≠ []) :
    ∃ m : ChunkedBody, m.payload = body ∧ m.trailer = [] ∧ m.sizes = [body.length] ∧
      encodeChunked body = m.bytes := by
  obtain ⟨size, hvalue, hsize⟩ := SizeLine.exists_hex body.length
  obtain ⟨last, hzero, hlast⟩ := exists_lastChunk
  refine ⟨⟨[⟨size, body, h, hvalue⟩], last, [], hzero, nofun⟩, ?_, rfl, ?_, ?_⟩
  · simp [ChunkedBody.payload]
  · rw [ChunkedBody.sizes, List.map_singleton, hvalue]
  · simp [ChunkedBody.bytes, ChunkedBody.trailerBytes, Chunk.bytes, hsize, hlast, encodeChunked]

/-- An empty one is written as two last chunks, and the first ends the message. -/
theorem encodeChunked_nil : ∃ m : ChunkedBody, m.payload = [] ∧ m.trailer = [] ∧ m.sizes = [] ∧
    encodeChunked [] = m.bytes ++ ([48] ++ crlf ++ crlf) := by
  obtain ⟨last, hzero, hlast⟩ := exists_lastChunk
  refine ⟨⟨[], last, [], hzero, nofun⟩, rfl, rfl, rfl, ?_⟩
  have hhex : asBytes (hex ([] : List UInt8).length) = [48] := by decide
  rw [encodeChunked, hhex]
  simp [ChunkedBody.bytes, ChunkedBody.trailerBytes, hlast]

theorem exists_encodeChunked (body : List UInt8) : ∃ m : ChunkedBody,
    m.payload = body ∧ m.trailer = [] ∧
      encodeChunked body = m.bytes ++ if body.isEmpty then [48] ++ crlf ++ crlf else [] := by
  by_cases h : body = []
  · subst h
    obtain ⟨m, hp, htrailer, _, he⟩ := encodeChunked_nil
    exact ⟨m, hp, htrailer, he⟩
  · obtain ⟨m, hp, htrailer, _, he⟩ := encodeChunked_body h
    refine ⟨m, hp, htrailer, ?_⟩
    rw [he, List.isEmpty_eq_false_iff.mpr h]
    simp

end DlnaProxy.TcpProxy
