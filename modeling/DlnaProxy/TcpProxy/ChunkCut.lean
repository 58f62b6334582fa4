import DlnaProxy.TcpProxy.ChunkPass

/-!
# Chunked bodies that are cut

A loop that meets the end of input in the middle of a chunked body fails, except in
three places: between two chunks, after zeros that a size line starts with, and from
the first byte of the last chunk's size line on. There it returns as if the body were
complete.
-/
namespace DlnaProxy.TcpProxy

open DlnaProxy.Lib.ByteIo DlnaProxy.Lib.Utf8

/-! ## Size lines that are cut -/

/-- The text of a numeral is read as its value or not at all. -/
theorem parseChunkSize_value {number : Numeral 16} {rest : List UInt8} (h : TabsOnly rest)
    {t : Target} {n : Nat} (hparse : parseChunkSize t (asBytes number.text ++ rest) = .ok n) :
    number.value = n := by
  obtain ⟨message, heq⟩ := parseChunkSize_numeral number h t
  rw [heq] at hparse
  cases hread : fromStrRadix t.bits 16 number.text with
  | error e =>
    rw [hread] at hparse
    cases hparse
  | ok m =>
    rw [hread] at hparse
    cases hparse
    exact ((number.read_eq_ok_iff (by decide)).mp hread).1

theorem parseChunkSize_value_zero {number : Numeral 16} (hzero : number.value = 0)
    {rest : List UInt8} (h : TabsOnly rest) (t : Target) :
    parseChunkSize t (asBytes number.text ++ rest) = .ok 0 := by
  obtain ⟨message, heq⟩ := parseChunkSize_numeral number h t
  have hfit : number.value < 2 ^ t.bits := by
    rw [hzero]
    exact Nat.two_pow_pos t.bits
  rw [heq, number.read (by decide) hfit, hzero]

theorem tabsOnly_nil : TabsOnly [] := by simp [TabsOnly]

/-- Zeros are read as zero. -/
theorem parseChunkSize_zeros {q : List UInt8} (hne : q ≠ []) (h : ∀ b ∈ q, b = 48) (t : Target) :
    parseChunkSize t q = .ok 0 := by
  obtain ⟨b, q', rfl⟩ := List.exists_cons_of_ne_nil hne
  obtain ⟨number, htext, hzero⟩ := @Numeral.exists_zeros 16 (by decide) q'.length
  have hq : b :: q' = asBytes number.text ++ [] := by
    have hascii : ∀ c ∈ number.text, Ascii c := fun c hc => (number.alphaNum c hc).ascii
    rw [List.append_nil, asBytes_ascii hascii, htext, List.map_replicate, List.eq_replicate_iff]
    exact ⟨rfl, h⟩
  rw [hq]
  exact parseChunkSize_value_zero hzero tabsOnly_nil t

namespace SizeLine

variable {line : SizeLine} {t : Target}

theorem parseChunkSize_bytes {n : Nat} (h : parseChunkSize t line.bytes = .ok n) :
    line.value = n := by
  rw [line.bytes_eq] at h
  exact parseChunkSize_value (line.tabsOnly List.prefix_rfl) h

/-- A size line is cut inside its digits or behind them. -/
theorem front_prefix {q : List UInt8} (hne : q ≠ []) (hq : q <+: line.front) :
    (∃ (k : Nat) (hk : line.number.text.take k ≠ []), q = asBytes (line.number.take k hk).text) ∨
      ∃ rest, TabsOnly rest ∧ q = asBytes line.number.text ++ rest := by
  have hascii : AllAscii line.number.text := fun c hc => (line.number.alphaNum c hc).ascii
  rw [front] at hq
  rcases Nat.le_total q.length (asBytes line.number.text).length with hle | hle
  · have hdigits := List.prefix_of_prefix_length_le hq (List.prefix_append _ _) hle
    have htake : q = asBytes (line.number.text.take q.length) := by
      rw [asBytes_ascii fun c hc => hascii c (List.mem_of_mem_take hc), List.map_take,
        ← asBytes_ascii hascii]
      exact List.prefix_iff_eq_take.mp hdigits
    have hk : line.number.text.take q.length ≠ [] := by
      intro hnil
      rw [hnil] at htake
      exact hne htake
    exact Or.inl ⟨q.length, hk, htake⟩
  · obtain ⟨rest, rfl⟩ := List.prefix_of_prefix_length_le (List.prefix_append _ _) hq hle
    have hrest : rest <+: line.blanks ++ (line.extension ++ [13]) :=
      (List.prefix_append_right_inj _).mp hq
    refine Or.inr ⟨rest, line.tabsOnly (hrest.trans ?_), rfl⟩
    rw [List.prefix_append_right_inj, List.prefix_append_right_inj]
    exact ⟨[10], rfl⟩

theorem front_of_short {q more : List UInt8} (hq : q <+: line.bytes ++ more)
    (hshort : q.length < line.bytes.length) : q <+: line.front := by
  apply List.prefix_of_prefix_length_le hq
  · exact List.prefix_append_of_prefix (List.prefix_append _ _)
  · rw [SizeLine.bytes, List.length_append] at hshort
    exact Nat.le_of_lt_succ hshort

theorem zeros_of_text_zero {number : Numeral 16} (h : number.value = 0) :
    ∀ b ∈ asBytes number.text, b = 48 := by
  intro b hb
  rw [asBytes_ascii fun c hc => (number.alphaNum c hc).ascii] at hb
  obtain ⟨c, hc, rfl⟩ := List.mem_map.mp hb
  rw [number.text_zero (by decide) h c hc]
  rfl

/-- One that is cut is read as zero only if the cut leaves zeros only. -/
theorem zeros_of_cut (hpos : line.value ≠ 0) {q : List UInt8} (hne : q ≠ [])
    (hq : q <+: line.front) (hzero : parseChunkSize t q = .ok 0) : ∀ b ∈ q, b = 48 := by
  rcases front_prefix hne hq with ⟨k, hk, rfl⟩ | ⟨rest, htabs, rfl⟩
  · rw [← List.append_nil (asBytes _)] at hzero
    exact zeros_of_text_zero (parseChunkSize_value tabsOnly_nil hzero)
  · exact absurd (parseChunkSize_value htabs hzero) hpos

/-- The last one is read as zero wherever it is cut. -/
theorem parseChunkSize_cut (hlast : line.value = 0) {q : List UInt8} (hne : q ≠ [])
    (hq : q <+: line.front) : parseChunkSize t q = .ok 0 := by
  rcases front_prefix hne hq with ⟨k, hk, rfl⟩ | ⟨rest, htabs, rfl⟩
  · refine parseChunkSize_zeros hne (fun b hb => ?_) t
    rw [asBytes_ascii fun c hc => ((line.number.take k hk).alphaNum c hc).ascii] at hb
    obtain ⟨c, hc, rfl⟩ := List.mem_map.mp hb
    rw [line.number.text_zero (by decide) hlast c (List.mem_of_mem_take hc)]
    rfl
  · exact parseChunkSize_value_zero hlast htabs t

end SizeLine

/-! ## Where a loop returns -/

section Loops

variable (t : Target)

/-- On a closed stream there is always a line to read. -/
theorem exists_readLineBytes (bytes : List UInt8) :
    ∃ line s', readLineBytes (Stream.mk bytes true) = ⟨.ok line, s', []⟩ := by
  by_cases hm : (10 : UInt8) ∈ bytes
  · obtain ⟨line, rest, rfl, hline⟩ := List.eq_append_cons_of_mem hm
    exact ⟨_, _, readLineBytes_line line hline rest true⟩
  · exact ⟨bytes, ⟨[], true⟩, (readUntil_eq 10 _).trans (lineRun_last hm true)⟩

/-- A pass at the end of input, or over a last line that is read as zero. -/
theorem passReads_lastLine {line : List UInt8} (h : 10 ∉ line)
    (hzero : line ≠ [] → parseChunkSize t line = .ok 0) :
    PassReads t ⟨line, true⟩ none line ⟨[], true⟩ := by
  by_cases hnil : line = []
  · subst hnil
    exact .ended (readLineBytes_last h)
  · have hlast := PassReads.last (readLineBytes_last h) hnil (hzero hnil)
      (readLineBytes_last List.not_mem_nil)
    rwa [List.append_nil] at hlast

variable {t}

/-- What a pass reads at a size line: its value, and then a line where that is zero, and
as many bytes and a line ending where it is not. -/
theorem PassReads.of_sizeLine {line : SizeLine} {z consumed : List UInt8} {c : Bool}
    {data : Option (List UInt8)} {s' : Stream}
    (h : PassReads t ⟨line.bytes ++ z, c⟩ data consumed s') :
    line.value < 2 ^ t.bits ∧
      ((data = none ∧ line.value = 0 ∧
          ∃ trailer, readLineBytes (Stream.mk z c) = ⟨.ok trailer, s', []⟩) ∨
        ∃ bytes ends, data = some bytes ∧ bytes ≠ [] ∧ bytes.length = line.value ∧
          ends.length = 2 ∧ z = bytes ++ (ends ++ s'.bytes) ∧ c = s'.closed) := by
  have hline := line.readLine z c
  have hfit {n : Nat} (hparse : parseChunkSize t line.bytes = .ok n) :
      line.value < 2 ^ t.bits := by
    by_contra hbig
    obtain ⟨e, he⟩ := line.parseChunkSize_error hbig
    rw [he] at hparse
    cases hparse
  cases h with
  | ended read =>
    rw [read] at hline
    simp only [Run.mk.injEq, Except.ok.injEq] at hline
    exact absurd hline.1.symm line.bytes_ne
  | last read _ size readTrailer =>
    rw [read] at hline
    simp only [Run.mk.injEq, Except.ok.injEq] at hline
    obtain ⟨rfl, rfl, _⟩ := hline
    exact ⟨hfit size, Or.inl ⟨rfl, SizeLine.parseChunkSize_bytes size, _, readTrailer⟩⟩
  | @chunk _ bytes ends _ _ read _ size data_ne two =>
    rw [read] at hline
    simp only [Run.mk.injEq, Except.ok.injEq, Stream.mk.injEq] at hline
    obtain ⟨rfl, ⟨rfl, rfl⟩, _⟩ := hline
    exact ⟨hfit size, Or.inr
      ⟨bytes, ends, rfl, data_ne, (SizeLine.parseChunkSize_bytes size).symm, two, rfl, rfl⟩⟩

/-- And at a last line without its feed. -/
theorem PassReads.of_lastLine {line consumed : List UInt8} (hline : 10 ∉ line)
    {data : Option (List UInt8)} {s' : Stream} (h : PassReads t ⟨line, true⟩ data consumed s') :
    data = none ∧ s'.bytes = [] ∧ (line ≠ [] → parseChunkSize t line = .ok 0) := by
  have hlast := readLineBytes_last hline
  cases h with
  | ended read =>
    rw [read] at hlast
    cases hlast
    exact ⟨rfl, rfl, fun hne => absurd rfl hne⟩
  | last read _ size readTrailer =>
    rw [read] at hlast
    cases hlast
    have hend := readLineBytes_last (@List.not_mem_nil _ 10)
    rw [readTrailer] at hend
    cases hend
    exact ⟨rfl, rfl, fun _ => size⟩
  | chunk read _ _ data_ne _ =>
    rw [read] at hlast
    simp only [Run.mk.injEq, Except.ok.injEq, Stream.mk.injEq, List.append_eq_nil_iff] at hlast
    exact absurd hlast.2.1.1.1 data_ne

/-- At a whole chunk a pass reads that chunk, and only if its size fits. -/
theorem PassReads.of_chunk {chunk : Chunk} {rest consumed : List UInt8} {c : Bool}
    {data : Option (List UInt8)} {s' : Stream}
    (h : PassReads t ⟨chunk.bytes ++ rest, c⟩ data consumed s') :
    chunk.size.value < 2 ^ t.bits ∧ data = some chunk.data ∧ s' = ⟨rest, c⟩ := by
  rw [Chunk.bytes, List.append_assoc] at h
  obtain ⟨hfit, ⟨_, hzero, _⟩ | ⟨bytes, ends, rfl, _, hsize, two, hbytes, rfl⟩⟩ := h.of_sizeLine
  · exact absurd hzero chunk.size_ne_zero
  · have hlen : chunk.data.length = bytes.length := by rw [hsize, chunk.size_eq]
    rw [List.append_assoc] at hbytes
    obtain ⟨rfl, htail⟩ := List.append_inj hbytes hlen
    obtain ⟨_, rfl⟩ := List.append_inj htail two.symm
    exact ⟨hfit, rfl, rfl⟩

/-- At a chunk that is cut a pass fails, unless zeros are all that is there. -/
theorem PassReads.of_cut {chunk : Chunk} {y consumed : List UInt8} {data : Option (List UInt8)}
    {s' : Stream} (hy : y <+: chunk.bytes) (hlt : y.length < chunk.bytes.length)
    (h : PassReads t ⟨y, true⟩ data consumed s') :
    data = none ∧ (∀ b ∈ y, b = 48) ∧ s'.bytes = [] := by
  rw [Chunk.bytes] at hy hlt
  rcases Nat.lt_or_ge y.length chunk.size.bytes.length with hshort | hlong
  · -- the size line is cut
    have hfront := SizeLine.front_of_short hy hshort
    obtain ⟨hdata, hrest, hsize⟩ := h.of_lastLine fun h => chunk.size.feedless (hfront.subset h)
    refine ⟨hdata, ?_, hrest⟩
    by_cases hnil : y = []
    · rw [hnil]
      exact List.forall_mem_nil _
    · exact SizeLine.zeros_of_cut chunk.size_ne_zero hnil hfront (hsize hnil)
  · -- the data or the CRLF after it is
    obtain ⟨z, rfl⟩ := List.prefix_of_prefix_length_le (List.prefix_append _ _) hy hlong
    obtain ⟨_, ⟨_, hzero, _⟩ | ⟨bytes, ends, _, _, hsize, two, rfl, _⟩⟩ := h.of_sizeLine
    · exact absurd hzero chunk.size_ne_zero
    · have hcrlf : crlf.length = 2 := rfl
      rw [chunk.size_eq] at hsize
      simp only [List.length_append] at hlt
      omega

/-- Trailer lines after the first end as a header block does. -/
theorem ChunkedBody.exists_trailerRest {m : ChunkedBody} (h : m.trailer ≠ []) :
    ∃ block : HeaderBlock, m.trailerRest = block.bytes ∧
      ∀ line ∈ block.lines, ∃ field ∈ m.trailer, line = field ++ [13] := by
  rcases m with ⟨chunks, last, _ | ⟨field, fields⟩, last_eq, trailer_eq⟩
  · exact absurd rfl h
  · let rest : ChunkedBody :=
      ⟨chunks, last, fields, last_eq, fun line hline => trailer_eq line (by simp [hline])⟩
    refine ⟨rest.trailerBlock, rest.bytes_trailerBlock.symm, fun line hline => ?_⟩
    obtain ⟨l, hl, rfl⟩ := List.mem_map.mp hline
    exact ⟨l, List.mem_cons_of_mem field hl, rfl⟩

/-- A header block that is cut is incomplete. -/
theorem HeaderBlock.incomplete_of_cut {block : HeaderBlock} {y : List UInt8}
    (hy : y <+: block.bytes) (hlt : y.length < block.bytes.length) : Incomplete y := by
  rcases HeaderBlock.exists_or_incomplete y with ⟨other, rest, rfl⟩ | hincomplete
  · obtain ⟨more, hmore⟩ := hy
    rw [List.append_assoc, ← List.append_nil block.bytes] at hmore
    obtain ⟨hbytes, _⟩ := HeaderBlock.bytes_append_inj hmore
    rw [List.length_append, hbytes] at hlt
    omega
  · exact hincomplete

theorem ChunkedBody.incomplete_of_cut {m : ChunkedBody} {y : List UInt8}
    (hy : y <+: m.trailerRest) (hlt : y.length < m.trailerRest.length) : Incomplete y := by
  by_cases h : m.trailer = []
  · rw [m.trailerRest_nil h] at hlt
    cases hlt
  · obtain ⟨block, hblock, _⟩ := m.exists_trailerRest h
    rw [hblock] at hy hlt
    exact HeaderBlock.incomplete_of_cut hy hlt

/-- What a line leaves of a trailer that is cut. -/
theorem readTrailer_cut {m : ChunkedBody} {y line : List UInt8} {s' : Stream}
    (hy : y <+: m.trailerBytes) (hlt : y.length < m.trailerBytes.length)
    (h : readLineBytes (Stream.mk y true) = ⟨.ok line, s', []⟩) : Incomplete s'.bytes := by
  rw [m.trailerBytes_eq] at hy hlt
  by_cases hle : y.length ≤ m.trailerLine.length
  · have hfeed : 10 ∉ y := fun hm => m.trailerLine_feedless
      ((List.prefix_of_prefix_length_le hy (List.prefix_append _ _) hle).subset hm)
    rw [readLineBytes_last hfeed] at h
    cases h
    exact incomplete_nil
  · rw [← List.singleton_append, ← List.append_assoc] at hy hlt
    have hlong : (m.trailerLine ++ [10]).length ≤ y.length := by
      rw [List.length_append]
      exact Nat.lt_of_not_le hle
    obtain ⟨z, rfl⟩ := List.prefix_of_prefix_length_le (List.prefix_append _ _) hy hlong
    have hread := readLineBytes_line m.trailerLine m.trailerLine_feedless z true
    rw [← List.singleton_append, ← List.append_assoc, h] at hread
    cases hread
    apply m.incomplete_of_cut ((List.prefix_append_right_inj _).mp hy)
    rw [List.length_append, @List.length_append _ (m.trailerLine ++ [10])] at hlt
    exact Nat.lt_of_add_lt_add_left hlt

/-- From the last chunk on a pass returns, and leaves no header block. -/
theorem PassReads.of_cut_last {m : ChunkedBody} {y : List UInt8}
    (hy : y <+: m.last.bytes ++ m.trailerBytes)
    (hlt : y.length < (m.last.bytes ++ m.trailerBytes).length) :
    (∃ consumed s', PassReads t ⟨y, true⟩ none consumed s') ∧
      ∀ data consumed s', PassReads t ⟨y, true⟩ data consumed s' →
        data = none ∧ Incomplete s'.bytes := by
  rcases Nat.lt_or_ge y.length m.last.bytes.length with hshort | hlong
  · -- the size line is cut
    have hfront := SizeLine.front_of_short hy hshort
    have hfeed : 10 ∉ y := fun h => m.last.feedless (hfront.subset h)
    refine ⟨⟨y, _, passReads_lastLine t hfeed fun hne =>
      SizeLine.parseChunkSize_cut m.last_eq hne hfront⟩, fun data consumed s' h => ?_⟩
    obtain ⟨hdata, hrest, _⟩ := h.of_lastLine hfeed
    exact ⟨hdata, hrest ▸ incomplete_nil⟩
  · -- the trailer is
    obtain ⟨z, rfl⟩ := List.prefix_of_prefix_length_le (List.prefix_append _ _) hy hlong
    have hz : z <+: m.trailerBytes := (List.prefix_append_right_inj _).mp hy
    have hlen : z.length < m.trailerBytes.length := by
      rw [List.length_append, List.length_append] at hlt
      exact Nat.lt_of_add_lt_add_left hlt
    have hzero : parseChunkSize t m.last.bytes = .ok 0 := by
      rw [m.last.bytes_eq]
      exact parseChunkSize_value_zero m.last_eq (m.last.tabsOnly List.prefix_rfl) t
    obtain ⟨trailer, s₂, htrailer⟩ := exists_readLineBytes z
    refine ⟨⟨_, s₂, .last (m.last.readLine z true) m.last.bytes_ne hzero htrailer⟩,
      fun data consumed s' h => ?_⟩
    obtain ⟨_, ⟨hdata, _, _, hread⟩ | ⟨bytes, _, _, hne, hsize, _⟩⟩ := h.of_sizeLine
    · exact ⟨hdata, readTrailer_cut hz hlen hread⟩
    · rw [m.last_eq] at hsize
      exact absurd (List.length_eq_zero_iff.mp hsize) hne

/-! ## Bodies -/

theorem BodyReads.sizes_fit {chunks : List Chunk} {rest consumed : List UInt8} {c : Bool}
    {datas : List (List UInt8)} {s' : Stream}
    (h : BodyReads t ⟨chunks.flatMap (·.bytes) ++ rest, c⟩ datas consumed s') :
    ∀ chunk ∈ chunks, chunk.size.value < 2 ^ t.bits := by
  induction chunks generalizing datas consumed with
  | nil => exact List.forall_mem_nil _
  | cons chunk chunks ih =>
    rw [List.flatMap_cons, List.append_assoc] at h
    cases h with
    | done pass => cases pass.of_chunk.2.1
    | next pass reads =>
      obtain ⟨hfits, _, rfl⟩ := pass.of_chunk
      exact List.forall_mem_cons.mpr ⟨hfits, ih reads⟩

/-- What has arrived of a body, by the end of the stream, ends between two chunks, in
zeros that the next size line starts with, or behind the last chunk's beginning.
`chunks` have arrived whole. -/
def ChunkedBody.EndsAfter (coded : ChunkedBody) (chunks : List Chunk) (arrived : List UInt8) :
    Prop :=
  ∃ rest q, coded.chunks = chunks ++ rest ∧ arrived = chunks.flatMap (·.bytes) ++ q ∧
    (rest = [] ∨ ∀ b ∈ q, b = 48)

/-- There a loop returns. -/
theorem ChunkedBody.EndsAfter.bodyReads {coded : ChunkedBody} {chunks : List Chunk}
    {arrived : List UInt8} (h : coded.EndsAfter chunks arrived) (hpre : arrived <+: coded.bytes)
    (hlt : arrived.length < coded.bytes.length)
    (hfit : ∀ chunk ∈ chunks, chunk.size.value < 2 ^ t.bits) :
    ∃ consumed s', BodyReads t ⟨arrived, true⟩ (chunks.map (·.data)) consumed s' := by
  obtain ⟨rest, q, hsplit, rfl, hq⟩ := h
  have hpass : ∃ consumed s', PassReads t ⟨q, true⟩ none consumed s' := by
    rcases hq with rfl | hzeros
    · rw [List.append_nil] at hsplit
      rw [bytes, hsplit] at hpre hlt
      rw [List.length_append, List.length_append] at hlt
      exact (PassReads.of_cut_last ((List.prefix_append_right_inj _).mp hpre)
        (Nat.lt_of_add_lt_add_left hlt)).1
    · have hfeed : 10 ∉ q := fun hm => absurd (hzeros 10 hm) (by decide)
      exact ⟨q, _, passReads_lastLine t hfeed fun hne => parseChunkSize_zeros hne hzeros t⟩
  obtain ⟨consumed, s', hpass⟩ := hpass
  have hall := bodyReads_chunks t hfit (.done hpass)
  rw [List.append_nil] at hall
  exact ⟨_, s', hall⟩

/-- And nowhere else, and it leaves no header block. -/
theorem BodyReads.of_cut {coded : ChunkedBody} {arrived : List UInt8}
    (hpre : arrived <+: coded.bytes) (hlt : arrived.length < coded.bytes.length)
    {datas : List (List UInt8)} {consumed : List UInt8} {s' : Stream}
    (h : BodyReads t ⟨arrived, true⟩ datas consumed s') :
    Incomplete s'.bytes ∧ ∃ chunks, coded.EndsAfter chunks arrived ∧ datas = chunks.map (·.data) := by
  have main : ∀ (chunks : List Chunk) (arrived : List UInt8) (datas : List (List UInt8))
      (consumed : List UInt8), arrived <+: chunks.flatMap (·.bytes) ++ (coded.last.bytes ++
        coded.trailerBytes) → arrived.length < (chunks.flatMap (·.bytes) ++ (coded.last.bytes ++
        coded.trailerBytes)).length → BodyReads t ⟨arrived, true⟩ datas consumed s' →
      Incomplete s'.bytes ∧ ∃ before rest q, chunks = before ++ rest ∧
        arrived = before.flatMap (·.bytes) ++ q ∧ (rest = [] ∨ ∀ b ∈ q, b = 48) ∧
          datas = before.map (·.data) := by
    intro chunks
    induction chunks with
    | nil =>
      intro arrived datas consumed hpre hlt h
      obtain ⟨_, hlast⟩ := PassReads.of_cut_last (t := t) hpre hlt
      cases h with
      | done pass => exact ⟨(hlast _ _ _ pass).2, [], [], arrived, rfl, rfl, Or.inl rfl, rfl⟩
      | next pass _ => cases (hlast _ _ _ pass).1
    | cons chunk chunks ih =>
      intro arrived datas consumed hpre hlt h
      rw [List.flatMap_cons, List.append_assoc] at hpre hlt
      rcases Nat.lt_or_ge arrived.length chunk.bytes.length with hshort | hlong
      · have hcut := List.prefix_of_prefix_length_le hpre (List.prefix_append _ _)
          (Nat.le_of_lt hshort)
        cases h with
        | done pass =>
          obtain ⟨_, hzeros, hnil⟩ := pass.of_cut hcut hshort
          rw [hnil]
          exact ⟨incomplete_nil, [], chunk :: chunks, arrived, rfl, rfl, Or.inr hzeros, rfl⟩
        | next pass _ => cases (pass.of_cut hcut hshort).1
      · obtain ⟨z, rfl⟩ := List.prefix_of_prefix_length_le (List.prefix_append _ _) hpre hlong
        rw [List.length_append, List.length_append] at hlt
        cases h with
        | done pass => cases pass.of_chunk.2.1
        | next pass reads =>
          obtain ⟨_, hdata, rfl⟩ := pass.of_chunk
          cases hdata
          obtain ⟨hincomplete, before, rest, q, rfl, rfl, hq, rfl⟩ :=
            ih z _ _ ((List.prefix_append_right_inj _).mp hpre) (Nat.lt_of_add_lt_add_left hlt) reads
          refine ⟨hincomplete, chunk :: before, rest, q, rfl, ?_, hq, rfl⟩
          rw [List.flatMap_cons, List.append_assoc]
  rw [ChunkedBody.bytes] at hpre hlt
  obtain ⟨hincomplete, before, rest, q, hsplit, harrived, hq, hdatas⟩ :=
    main coded.chunks arrived datas consumed hpre hlt h
  exact ⟨hincomplete, before, ⟨rest, q, hsplit, harrived, hq⟩, hdatas⟩

end Loops

end DlnaProxy.TcpProxy
