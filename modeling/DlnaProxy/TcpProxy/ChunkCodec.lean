import DlnaProxy.TcpProxy.Client

/-!
# Chunked bodies are read to their end

On a valid chunked body both readers return what it carries, and they leave exactly
what follows it just where the trailer section is empty: one line is read after the
last chunk. The writer ends an empty body twice, and the reader stops at the first
end.
-/
namespace DlnaProxy.TcpProxy

open DlnaProxy.Lib.ByteIo DlnaProxy.Lib.Growth DlnaProxy.Lib.Utf8

/-! ## Every coding of a body -/

/-- Both readers take the body, the one to return what it carries and the other to
write it, and both leave what follows it. -/
def ConsumesExactly (t : Target) (maxSize : Nat) (coded : ChunkedBody) : Prop :=
  ∀ (rest : List UInt8) (c : Bool),
    readChunkedBody t maxSize (Stream.mk (coded.bytes ++ rest) c) =
        ⟨.ok coded.payload, ⟨rest, c⟩, []⟩ ∧
      passThroughChunked t (Stream.mk (coded.bytes ++ rest) c) = ⟨.ok (), ⟨rest, c⟩, coded.bytes⟩

theorem ChunkedBody.trailerRest_eq_nil_iff (coded : ChunkedBody) :
    coded.trailerRest = [] ↔ coded.trailer = [] := by
  constructor
  · intro h
    unfold trailerRest at h
    split at h
    · assumption
    · exact absurd (List.append_eq_nil_iff.mp h).2 (by decide)
  · exact coded.trailerRest_nil

/-- What the streaming loop writes of a body with no trailer lines is all of it. -/
theorem ChunkedBody.bytes_of_trailer_nil {coded : ChunkedBody} (h : coded.trailer = []) :
    coded.chunks.flatMap (·.bytes) ++ (coded.last.bytes ++ (coded.trailerLine ++ [10])) =
      coded.bytes := by
  rw [bytes, coded.trailerBytes_eq, coded.trailerRest_nil h]

/-- **The readers consume a valid body exactly just where its trailer section is
empty** and the vector that grows over its chunks does not pass `isize::MAX`. -/
theorem consumesExactly_iff (t : Target) {maxSize : Nat} (husize : maxSize < 2 ^ t.bits)
    {coded : ChunkedBody} (hle : coded.payload.length ≤ maxSize) :
    ConsumesExactly t maxSize coded ↔
      coded.trailer = [] ∧ capacityAfter coded.sizes < 2 ^ (t.bits - 1) := by
  have hsizes : ∀ chunk ∈ coded.chunks, chunk.size.value < 2 ^ t.bits := fun chunk hchunk =>
    Nat.lt_of_le_of_lt ((Chunk.size_le chunk hchunk).trans hle) husize
  have hpass := fun rest c => passThroughChunked_body t hsizes rest c
  constructor
  · intro h
    obtain ⟨hread, hwrite⟩ := h [] true
    constructor
    · rw [hpass] at hwrite
      have hleft := congrArg (fun x => x.reader.bytes) hwrite
      rw [List.append_nil] at hleft
      exact coded.trailerRest_eq_nil_iff.mp hleft
    · obtain ⟨datas, _, hreads, _, hfits, _⟩ := (readChunkedBody_eq_ok_iff t).mp hread
      obtain rfl := hreads.unique (coded.bodyReads t hsizes [] true)
      rw [coded.map_length] at hfits
      exact hfits.2
  · rintro ⟨htrailer, hcapacity⟩ rest c
    have hfit : SizesFit t maxSize coded.sizes := ⟨by rwa [coded.sum_sizes], hcapacity⟩
    have hnil := coded.trailerRest_nil htrailer
    constructor
    · rw [readChunkedBody_body t hfit, hnil, List.nil_append]
    · rw [hpass, hnil, List.nil_append, ChunkedBody.bytes_of_trailer_nil htrailer]

/-- A size line that is its digits only. -/
def SizeLine.ofNumber (number : Numeral 16) : SizeLine := ⟨number, [], [], nofun, Or.inl rfl⟩

/-- The size line of a chunk of one byte. -/
def oneByte : SizeLine := .ofNumber ⟨['1'], [1], by decide, by decide⟩

/-- Of two bytes, with a leading zero and an extension. -/
def twoBytes : SizeLine :=
  ⟨⟨['0', '2'], [0, 2], by decide, by decide⟩, [32], [59, 120], by decide, Or.inr ⟨[120], by decide⟩⟩

def lastChunk : SizeLine := .ofNumber ⟨['0'], [0], by decide, by decide⟩

def inOneChunk : ChunkedBody :=
  ⟨[⟨twoBytes, asBytes "hi".toList, by decide, by decide⟩], lastChunk, [], by decide, nofun⟩

def inTwoChunks : ChunkedBody :=
  ⟨[⟨oneByte, asBytes "h".toList, by decide, by decide⟩,
    ⟨oneByte, asBytes "i".toList, by decide, by decide⟩], lastChunk, [], by decide, nofun⟩

theorem consumesExactly_iff_inOneChunk :
    ConsumesExactly release64 maxRewritableBodySize inOneChunk ↔
      inOneChunk.trailer = [] ∧ capacityAfter inOneChunk.sizes < 2 ^ (release64.bits - 1) :=
  consumesExactly_iff release64 (by decide) (by decide)

/-- An empty body with one trailer line. -/
def withTrailer : ChunkedBody :=
  ⟨[], lastChunk, [asBytes "X-Sum: 0".toList], by decide, by decide⟩

/-- The empty line after the trailer line is left to the next response. -/
theorem not_consumesExactly : ¬ ConsumesExactly release64 maxRewritableBodySize withTrailer := by
  intro h
  have hread := congrArg (fun x => x.reader.bytes) (h [] true).1
  rw [readChunkedBody_body release64 (show SizesFit release64 _ withTrailer.sizes from
    sizesFit_nil release64)] at hread
  exact absurd hread (by decide)

/-! ## The coding that the proxy writes -/

/-- What the writer writes of a body is read back as that body, and what follows it
is left. -/
def RoundTrips (t : Target) (maxSize : Nat) (body : List UInt8) : Prop :=
  ∀ (s : Stream) (rest : List UInt8) (c : Bool),
    readChunkedBody t maxSize (Stream.mk ((writeChunkedBody body s).written ++ rest) c) =
      ⟨.ok body, ⟨rest, c⟩, []⟩

/-- An empty body is written with two ends, and the second one is left. -/
theorem not_roundTrips_nil (t : Target) (maxSize : Nat) : ¬ RoundTrips t maxSize [] := by
  intro h
  obtain ⟨m, hpayload, _, hsizes, hencode⟩ := encodeChunked_nil
  have hfit : SizesFit t maxSize m.sizes := hsizes ▸ sizesFit_nil t
  have hread := congrArg (fun x => x.reader.bytes) (h ⟨[], true⟩ [] true)
  rw [writeChunkedBody_run, hencode, List.append_assoc, readChunkedBody_body t hfit] at hread
  exact absurd (List.append_eq_nil_iff.mp hread).2 (by decide)

/-- **A body survives writing and reading just where it is not empty.** A slice holds
at most `isize::MAX` bytes. -/
theorem roundTrips_iff (t : Target) {maxSize : Nat} {body : List UInt8}
    (hle : body.length ≤ maxSize) (hslice : body.length < 2 ^ (t.bits - 1)) :
    RoundTrips t maxSize body ↔ body ≠ [] := by
  constructor
  · rintro h rfl
    exact not_roundTrips_nil t maxSize h
  · intro hne s rest c
    obtain ⟨m, rfl, htrailer, hsizes, hencode⟩ := encodeChunked_body hne
    have hfit : SizesFit t maxSize m.sizes := hsizes ▸ sizesFit_singleton hle hslice
    rw [writeChunkedBody_run, hencode, readChunkedBody_body t hfit, m.trailerRest_nil htrailer]
    rfl

theorem roundTrips_iff_hi : RoundTrips release64 maxRewritableBodySize (asBytes "hi".toList) ↔
    asBytes "hi".toList ≠ [] :=
  roundTrips_iff release64 (by decide) (by decide)

theorem not_roundTrips_empty : ¬ RoundTrips release64 maxRewritableBodySize [] :=
  not_roundTrips_nil release64 maxRewritableBodySize

end DlnaProxy.TcpProxy
