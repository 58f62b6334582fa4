import DlnaProxy.TcpProxy.ChunkCodec
import DlnaProxy.TcpProxy.ChunkCut

/-!
# The two chunk readers agree

The buffering and the streaming loop stop at the same byte of every stream: both
return on the same passes, and the buffering loop only adds its limits to them. What
the streaming loop has written is read back as the same body.
-/
namespace DlnaProxy.TcpProxy

open DlnaProxy.Lib.ByteIo DlnaProxy.Lib.Growth DlnaProxy.Lib.Utf8

variable {t : Target}

/-! ## Reading again what has been read -/

/-- On its own, and then the end of input, it is read as it was. -/
theorem readLineBytes_alone {s s' : Stream} {line : List UInt8}
    (h : readLineBytes s = ⟨.ok line, s', []⟩) :
    readLineBytes (Stream.mk line true) = ⟨.ok line, ⟨[], true⟩, []⟩ := by
  rcases readLineBytes_cases h with ⟨front, hfront, rfl⟩ | ⟨hline, _⟩
  · exact readLineBytes_line front hfront [] true
  · exact readLineBytes_last hline

/-- A chunk is read in the same way whatever follows it. -/
theorem PassReads.chunk_again {s s' : Stream} {data consumed : List UInt8}
    (h : PassReads t s (some data) consumed s') (rest : List UInt8) (c : Bool) :
    PassReads t ⟨consumed ++ rest, c⟩ (some data) consumed ⟨rest, c⟩ := by
  cases h with
  | @chunk line _ ends _ _ read line_ne size data_ne two =>
    rcases readLineBytes_cases read with ⟨front, hfront, rfl⟩ | ⟨_, hend⟩
    · have hread := readLineBytes_line front hfront (data ++ (ends ++ rest)) c
      have hbytes : front ++ 10 :: (data ++ (ends ++ rest)) =
          front ++ [10] ++ (data ++ ends) ++ rest := by simp
      rw [hbytes] at hread
      exact .chunk hread line_ne size data_ne two
    · simp only [Stream.mk.injEq, List.append_eq_nil_iff] at hend
      exact absurd hend.1.1 data_ne

/-- The end of a body is read in the same way at the end of input. -/
theorem PassReads.end_again {s s' : Stream} {consumed : List UInt8}
    (h : PassReads t s none consumed s') :
    PassReads t ⟨consumed, true⟩ none consumed ⟨[], true⟩ := by
  cases h with
  | ended read => exact .ended (readLineBytes_alone read)
  | @last line trailer _ _ read line_ne size readTrailer =>
    rcases readLineBytes_cases read with ⟨front, hfront, rfl⟩ | ⟨_, rfl⟩
    · have hread := readLineBytes_line front hfront trailer true
      rw [← List.singleton_append, ← List.append_assoc] at hread
      exact .last hread line_ne size (readLineBytes_alone readTrailer)
    · have hend : readLineBytes (Stream.mk [] true) = ⟨.ok [], ⟨[], true⟩, []⟩ :=
        readLineBytes_last List.not_mem_nil
      rw [hend] at readTrailer
      cases readTrailer
      have hread := readLineBytes_alone read
      rw [List.append_nil]
      have hlast := PassReads.last hread line_ne size hend
      rwa [List.append_nil] at hlast

/-- **What a loop has consumed is read again in the same way.** -/
theorem BodyReads.again {s s' : Stream} {datas : List (List UInt8)} {consumed : List UInt8}
    (h : BodyReads t s datas consumed s') :
    BodyReads t ⟨consumed, true⟩ datas consumed ⟨[], true⟩ := by
  induction h with
  | done pass => exact .done pass.end_again
  | next pass _ ih => exact .next (pass.chunk_again _ true) ih

/-! ## Agreement -/

/-- The sizes of the chunks that a loop which returns has read. -/
def SizesRead (t : Target) (s : Stream) (sizes : List Nat) : Prop :=
  ∃ datas consumed s', BodyReads t s datas consumed s' ∧ sizes = datas.map List.length

/-- Where the buffering loop returns a body, the streaming loop returns too, stops at
the same byte and has written what it has consumed, which is read as that body again. -/
def StreamsAlike (t : Target) (maxSize : Nat) (s : Stream) : Prop :=
  ∀ {body r w}, readChunkedBody t maxSize s = ⟨.ok body, r, w⟩ → ∃ written s',
    passThroughChunked t s = ⟨.ok (), r, written⟩ ∧ s = ⟨written ++ r.bytes, r.closed⟩ ∧
      readChunkedBody t maxSize (Stream.mk written true) = ⟨.ok body, s', []⟩

/-- Where the streaming loop returns on chunks within the limit, the buffering loop
returns too and stops at the same byte. -/
def BuffersAlike (t : Target) (maxSize : Nat) (s : Stream) : Prop :=
  ∀ {r w sizes}, passThroughChunked t s = ⟨.ok (), r, w⟩ → SizesRead t s sizes →
    sizes.sum ≤ maxSize → ∃ body, readChunkedBody t maxSize s = ⟨.ok body, r, []⟩

theorem streamsAlike (t : Target) (maxSize : Nat) (s : Stream) : StreamsAlike t maxSize s := by
  intro body r w h
  obtain ⟨datas, written, hreads, rfl, hcollects, _⟩ := (readChunkedBody_eq_ok_iff t).mp h
  refine ⟨written, ⟨[], true⟩, (passThroughChunked_eq_ok_iff t).mpr ⟨datas, hreads⟩,
    hreads.bytes_eq t, ?_⟩
  exact (readChunkedBody_eq_ok_iff t).mpr ⟨datas, written, hreads.again, rfl, hcollects, rfl⟩

/-- Within its limit the buffering loop returns if the vector that grows over the chunks
does not pass `isize::MAX`. -/
theorem readChunkedBody_returns_iff {maxSize : Nat} {s r : Stream} {w : List UInt8}
    {sizes : List Nat} (hrun : passThroughChunked t s = ⟨.ok (), r, w⟩)
    (hsizes : SizesRead t s sizes) (hle : sizes.sum ≤ maxSize) :
    (∃ body, readChunkedBody t maxSize s = ⟨.ok body, r, []⟩) ↔
      capacityAfter sizes < 2 ^ (t.bits - 1) := by
  obtain ⟨datas, _, _, hread, rfl⟩ := hsizes
  obtain ⟨datas', hreads⟩ := (passThroughChunked_eq_ok_iff t).mp hrun
  obtain rfl := hread.unique hreads
  constructor
  · rintro ⟨body, h⟩
    obtain ⟨datas', _, hreads', _, hfits, _⟩ := (readChunkedBody_eq_ok_iff t).mp h
    obtain rfl := hreads.unique hreads'
    exact hfits.2
  · intro hfit
    exact ⟨_, (readChunkedBody_eq_ok_iff t).mpr ⟨datas, w, hreads, rfl, ⟨hle, hfit⟩, rfl⟩⟩

/-- **The two chunk readers agree**, but for what no vector grows to. -/
theorem chunkReaders_agree (t : Target) (maxSize : Nat) (s : Stream) : StreamsAlike t maxSize s ∧
    ∀ {r w sizes}, passThroughChunked t s = ⟨.ok (), r, w⟩ → SizesRead t s sizes →
      sizes.sum ≤ maxSize → ((∃ body, readChunkedBody t maxSize s = ⟨.ok body, r, []⟩) ↔
        capacityAfter sizes < 2 ^ (t.bits - 1)) :=
  ⟨streamsAlike t maxSize s, readChunkedBody_returns_iff⟩

/-! ## A chunk that no vector holds -/

def release32 : Target := ⟨32, false, Target.wide32⟩

/-- A size line that says 2 ^ 31. -/
def twoGibibytes : SizeLine :=
  .ofNumber ⟨"80000000".toList, [8, 0, 0, 0, 0, 0, 0, 0], by decide, by decide⟩

def hugeChunk : Chunk where
  size := twoGibibytes
  data := List.replicate (2 ^ 31) 0
  nonempty := by
    intro h
    have hlen := congrArg List.length h
    rw [List.length_replicate] at hlen
    cases hlen
  size_eq := by
    rw [List.length_replicate]
    rfl

def hugeBody : ChunkedBody :=
  ⟨[hugeChunk], lastChunk, [], inOneChunk.last_eq, inOneChunk.trailer_eq⟩

theorem hugeChunk_size : hugeChunk.size.value = 2 ^ 31 := by
  rw [hugeChunk.size_eq]
  exact List.length_replicate

/-- On a 32-bit build a chunk of two gibibytes is passed on, and no limit lets it be
buffered. -/
theorem not_buffersAlike_hugeBody : 2 ^ 31 < 2 ^ release32.bits ∧
    ¬ (StreamsAlike release32 (2 ^ 31) ⟨hugeBody.bytes, true⟩ ∧
      BuffersAlike release32 (2 ^ 31) ⟨hugeBody.bytes, true⟩) := by
  refine ⟨by decide, fun h => ?_⟩
  have hfit : ∀ chunk ∈ hugeBody.chunks, chunk.size.value < 2 ^ release32.bits := by
    intro chunk hchunk
    rw [List.mem_singleton.mp hchunk, hugeChunk_size]
    decide
  have hreads := hugeBody.bodyReads release32 hfit [] true
  have hrun := passThroughChunked_body release32 hfit [] true
  rw [List.append_nil] at hreads hrun
  have hsizes : SizesRead release32 ⟨hugeBody.bytes, true⟩ [hugeChunk.data.length] :=
    ⟨_, _, _, hreads, rfl⟩
  have hsum : [hugeChunk.data.length].sum = 2 ^ 31 := by
    rw [List.sum_singleton, ← hugeChunk.size_eq, hugeChunk_size]
  have hcapacity := (readChunkedBody_returns_iff hrun hsizes (Nat.le_of_eq hsum)).mp
    (h.2 hrun hsizes (Nat.le_of_eq hsum))
  rw [← hugeChunk.size_eq, hugeChunk_size] at hcapacity
  exact absurd hcapacity (by decide)

end DlnaProxy.TcpProxy
