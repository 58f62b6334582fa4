import DlnaProxy.TcpProxy.ChunkCodec

/-!
# What the chunk readers accept

From a run that returned, the chunks it has read. A size line is cut, trimmed and
read by the integer parser of the standard library, and the two bytes after the data
are only counted. So the readers accept a sign, white space around the digits, any
text after a space and any two bytes.
-/
namespace DlnaProxy.TcpProxy

open DlnaProxy.Lib.ByteIo DlnaProxy.Lib.Utf8

variable (t : Target)

/-- A line without its line feed that is read as a size. -/
structure ReadSize where
  line : List UInt8
  size : SizeText
  feedless : 10 ∉ line
  text_eq : line.take (hexEnd line) = asBytes size.text
  fits : size.number.value < 2 ^ t.bits

variable {t} in
/-- The size it is read as: the value of its digits. -/
def ReadSize.value (size : ReadSize t) : Nat := size.size.number.value

/-- A chunk as it is read: a size line, as much data as it says and two bytes. -/
structure ReadChunk where
  size : ReadSize t
  data : List UInt8
  ends : List UInt8
  nonempty : data ≠ []
  size_eq : size.value = data.length
  two : ends.length = 2

variable {t} in
def ReadChunk.bytes (chunk : ReadChunk t) : List UInt8 :=
  chunk.size.line ++ 10 :: (chunk.data ++ chunk.ends)

/-- The next line of a stream that has `left` after it: it ends with a line feed, or
with the stream. -/
def IsLine (line left : List UInt8) : Prop :=
  (∃ front, 10 ∉ front ∧ line = front ++ [10]) ∨ (10 ∉ line ∧ left = [])

/-- The bytes that a reader has accepted: chunks, and then the end of input, or a size
of zero and one line more. -/
inductive Accepted : List UInt8 → List (ReadChunk t) → List UInt8 → Prop
  | ended : Accepted [] [] []
  | last {line trailer left : List UInt8} (last : ReadSize t) (zero : last.value = 0)
      (line_eq : line = last.line ++ [10] ∨ (line = last.line ∧ trailer ++ left = []))
      (isLine : IsLine trailer left) : Accepted (line ++ (trailer ++ left)) [] left
  | chunk {bytes left : List UInt8} {chunks : List (ReadChunk t)} (chunk : ReadChunk t)
      (accepted : Accepted bytes chunks left) :
      Accepted (chunk.bytes ++ bytes) (chunk :: chunks) left

/-! ## Lines -/

theorem readLineBytes_isLine {s r : Stream} {line w : List UInt8}
    (h : readLineBytes s = ⟨.ok line, r, w⟩) : IsLine line r.bytes := by
  obtain ⟨_, rfl⟩ := readLineBytes_ok h
  rcases readLineBytes_cases h with hfeed | ⟨hfeed, rfl⟩
  · exact Or.inl hfeed
  · exact Or.inr ⟨hfeed, rfl⟩

/-- The line feed ends the digits. -/
theorem take_hexEnd_feed (line : List UInt8) :
    (line ++ [10]).take (hexEnd (line ++ [10])) = line.take (hexEnd line) := by
  have hplain : ∀ l : List UInt8, l.take (hexEnd l) =
      l.takeWhile fun b => !(b == 59 || b == 13 || b == 10 || b == 32) := by
    intro l
    rw [List.takeWhile_eq_take_findIdx_not, hexEnd]
    simp
  rw [hplain, hplain, List.takeWhile_append]
  split
  · next hlen =>
    rw [(List.takeWhile_prefix _).eq_of_length hlen]
    simp
  · rfl

variable {t}

/-- A line that is read as a size, with its line feed or without. -/
theorem exists_readSize {front : List UInt8} (hfeed : 10 ∉ front) {line : List UInt8}
    (hline : line = front ++ [10] ∨ line = front) {n : Nat} (h : parseChunkSize t line = .ok n) :
    ∃ size : ReadSize t, size.line = front ∧ size.value = n := by
  obtain ⟨size, htext, rfl, hfit⟩ := parseChunkSize_eq_ok_iff.mp h
  refine ⟨⟨front, size, hfeed, ?_, hfit⟩, rfl, rfl⟩
  rcases hline with rfl | rfl
  · rwa [take_hexEnd_feed] at htext
  · exact htext

theorem PassReads.exists_chunk {s s' : Stream} {data consumed : List UInt8}
    (h : PassReads t s (some data) consumed s') :
    ∃ chunk : ReadChunk t, chunk.data = data ∧ chunk.bytes = consumed := by
  cases h with
  | @chunk line _ ends rest c read line_ne size data_ne two =>
    rcases readLineBytes_isLine read with ⟨front, hfeed, rfl⟩ | ⟨_, hleft⟩
    · obtain ⟨readSize, rfl, hvalue⟩ := exists_readSize hfeed (Or.inl rfl) size
      refine ⟨⟨readSize, data, ends, data_ne, hvalue, two⟩, rfl, ?_⟩
      simp [ReadChunk.bytes]
    · exact absurd (List.append_eq_nil_iff.mp hleft).1 data_ne

/-! ## Streams -/

/-- The next line of the stream is read as the size `n`, and `s'` follows it. -/
def Announces (t : Target) (s : Stream) (n : Nat) (s' : Stream) : Prop :=
  ∃ line, readLineBytes s = ⟨.ok line, s', []⟩ ∧ line ≠ [] ∧ parseChunkSize t line = .ok n

/-- The chunks at the start of a stream. -/
inductive ChunksRead (t : Target) : Stream → List (List UInt8) → Stream → Prop
  | nil (s : Stream) : ChunksRead t s [] s
  | cons {s s' s'' : Stream} {data consumed : List UInt8} {datas : List (List UInt8)}
      (pass : PassReads t s (some data) consumed s') (reads : ChunksRead t s' datas s'') :
      ChunksRead t s (data :: datas) s''

/-- The size line, with its line feed or at the end of a closed stream. -/
inductive ReadSize.Heads (size : ReadSize t) : Stream → Stream → Prop
  | feed (rest : List UInt8) (c : Bool) : Heads size ⟨size.line ++ 10 :: rest, c⟩ ⟨rest, c⟩
  | atEnd : Heads size ⟨size.line, true⟩ ⟨[], true⟩

theorem ReadSize.line_ne (size : ReadSize t) : size.line ≠ [] := by
  intro hnil
  have htext := size.text_eq
  rw [hnil, List.take_nil] at htext
  have hlen := asBytes_injective (htext.symm.trans asBytes_nil.symm)
  simp only [SizeText.text, List.append_eq_nil_iff] at hlen
  exact size.size.number.nonempty hlen.1.2.2

theorem ReadSize.parseChunkSize_line (size : ReadSize t) :
    parseChunkSize t size.line = .ok size.value :=
  parseChunkSize_eq_ok_iff.mpr ⟨size.size, size.text_eq, rfl, size.fits⟩

theorem ReadSize.parseChunkSize_feed (size : ReadSize t) :
    parseChunkSize t (size.line ++ [10]) = .ok size.value :=
  parseChunkSize_eq_ok_iff.mpr ⟨size.size, (take_hexEnd_feed _).trans size.text_eq, rfl, size.fits⟩

/-- **The size lines of the streams.** -/
theorem announces_iff {s s' : Stream} {n : Nat} :
    Announces t s n s' ↔ ∃ size : ReadSize t, size.value = n ∧ size.Heads s s' := by
  constructor
  · rintro ⟨line, hread, hne, hparse⟩
    rcases readLineBytes_cases hread with ⟨front, hfeed, rfl⟩ | ⟨hfeed, rfl⟩
    · obtain ⟨size, rfl, hvalue⟩ := exists_readSize hfeed (Or.inl rfl) hparse
      rw [(readLineBytes_ok hread).1, List.append_assoc, List.singleton_append]
      exact ⟨size, hvalue, .feed _ _⟩
    · obtain ⟨size, rfl, hvalue⟩ := exists_readSize hfeed (Or.inr rfl) hparse
      rw [(readLineBytes_ok hread).1, List.append_nil]
      exact ⟨size, hvalue, .atEnd⟩
  · rintro ⟨size, rfl, hheads⟩
    cases hheads with
    | feed rest c =>
      exact ⟨_, readLineBytes_line size.line size.feedless rest c, by simp, size.parseChunkSize_feed⟩
    | atEnd =>
      exact ⟨_, readLineBytes_last size.feedless, size.line_ne, size.parseChunkSize_line⟩

/-- A chunk is read as it stands. -/
theorem ReadChunk.passReads (chunk : ReadChunk t) (rest : List UInt8) (c : Bool) :
    PassReads t ⟨chunk.bytes ++ rest, c⟩ (some chunk.data) chunk.bytes ⟨rest, c⟩ := by
  have hsize := chunk.size.parseChunkSize_feed
  rw [chunk.size_eq] at hsize
  have hread := readLineBytes_line chunk.size.line chunk.size.feedless
    (chunk.data ++ (chunk.ends ++ rest)) c
  have hpass := PassReads.chunk hread (by simp) hsize chunk.nonempty chunk.two
  simpa [ReadChunk.bytes] using hpass

/-- **The chunks of the streams.** -/
theorem chunksRead_iff {s s' : Stream} {datas : List (List UInt8)} :
    ChunksRead t s datas s' ↔ ∃ chunks : List (ReadChunk t), chunks.map (·.data) = datas ∧
      s = ⟨chunks.flatMap (·.bytes) ++ s'.bytes, s'.closed⟩ := by
  constructor
  · intro h
    induction h with
    | nil s => exact ⟨[], rfl, rfl⟩
    | cons pass reads ih =>
      obtain ⟨chunks, rfl, rfl⟩ := ih
      obtain ⟨chunk, rfl, rfl⟩ := pass.exists_chunk
      refine ⟨chunk :: chunks, rfl, ?_⟩
      rw [pass.bytes_eq t, List.flatMap_cons, List.append_assoc]
  · rintro ⟨chunks, rfl, rfl⟩
    induction chunks with
    | nil => exact .nil s'
    | cons chunk chunks ih =>
      rw [List.flatMap_cons, List.append_assoc]
      exact .cons (chunk.passReads _ _) ih

/-! ## Runs -/

theorem PassReads.accepted {s s' : Stream} {consumed : List UInt8}
    (h : PassReads t s none consumed s') : Accepted t s.bytes [] s'.bytes := by
  have hbytes := congrArg Stream.bytes (h.bytes_eq t)
  cases h with
  | ended read =>
    rcases readLineBytes_isLine read with ⟨front, _, hnil⟩ | ⟨_, hleft⟩
    · exact absurd hnil.symm (List.append_ne_nil_of_right_ne_nil _ (List.cons_ne_nil _ _))
    · rw [hbytes, hleft]
      exact .ended
  | @last line trailer s₁ s' read line_ne size readTrailer =>
    rw [hbytes, List.append_assoc]
    rcases readLineBytes_isLine read with ⟨front, hfeed, rfl⟩ | ⟨hfeed, hleft⟩
    · obtain ⟨last, rfl, hzero⟩ := exists_readSize hfeed (Or.inl rfl) size
      exact .last last hzero (Or.inl rfl) (readLineBytes_isLine readTrailer)
    · obtain ⟨last, hlast, hzero⟩ := exists_readSize hfeed (Or.inr rfl) size
      rw [(readLineBytes_ok readTrailer).1] at hleft
      exact .last last hzero (Or.inr ⟨hlast.symm, hleft⟩) (readLineBytes_isLine readTrailer)

theorem BodyReads.accepted {s r : Stream} {datas : List (List UInt8)} {consumed : List UInt8}
    (h : BodyReads t s datas consumed r) :
    ∃ chunks, Accepted t s.bytes chunks r.bytes ∧ chunks.map (·.data) = datas := by
  induction h with
  | done pass => exact ⟨[], pass.accepted, rfl⟩
  | next pass reads ih =>
    obtain ⟨chunks, haccepted, rfl⟩ := ih
    obtain ⟨chunk, rfl, hconsumed⟩ := pass.exists_chunk
    refine ⟨chunk :: chunks, ?_, rfl⟩
    rw [pass.bytes_eq t, ← hconsumed]
    exact .chunk chunk haccepted

/-- **What a reader that returned has accepted.** -/
theorem chunkReaders_accepted (t : Target) (maxSize : Nat) (s r : Stream) (w : List UInt8) :
    (∀ body, readChunkedBody t maxSize s = ⟨.ok body, r, w⟩ →
        ∃ chunks, Accepted t s.bytes chunks r.bytes ∧ body = chunks.flatMap (·.data)) ∧
      (passThroughChunked t s = ⟨.ok (), r, w⟩ → ∃ chunks, Accepted t s.bytes chunks r.bytes) := by
  constructor
  · intro body h
    obtain ⟨datas, consumed, hreads, rfl, _, _⟩ := (readChunkedBody_eq_ok_iff t).mp h
    obtain ⟨chunks, haccepted, rfl⟩ := hreads.accepted
    exact ⟨chunks, haccepted, List.flatMap_def.symm⟩
  · intro h
    obtain ⟨datas, hreads⟩ := (passThroughChunked_eq_ok_iff t).mp h
    obtain ⟨chunks, haccepted, _⟩ := hreads.accepted
    exact ⟨chunks, haccepted⟩

end DlnaProxy.TcpProxy
