import DlnaProxy.TcpProxy.ChunkGrammar

/-!
# Where the chunk readers are too lenient

Chunks as they should be, and the slips that the readers let pass: a plus sign that
the integer parser takes, white space that is trimmed, text after a space or a carriage
return, a last line that does not end, and two bytes after the data that are not
compared with CR LF. Without a slip what has been read is as it should be.
-/
namespace DlnaProxy.TcpProxy

open DlnaProxy.Lib.ByteIo DlnaProxy.Lib.Utf8

/-! ## Chunks as they should be -/

/-- What may follow the digits of a size, up to the line feed: blanks, an extension and
the carriage return of a CRLF. -/
structure SizeTail where
  blanks : List UInt8
  extension : List UInt8
  cr : List UInt8
  blanks_eq : ∀ b ∈ blanks, b = 32 ∨ b = 9
  extension_eq : extension = [] ∨ ∃ text, extension = 59 :: text ∧ 10 ∉ text
  cr_eq : cr = [] ∨ cr = [13]

def SizeTail.bytes (tail : SizeTail) : List UInt8 := tail.blanks ++ (tail.extension ++ tail.cr)

/-- A size line as it should be, with either line end. -/
structure StrictSize where
  number : Numeral 16
  tail : SizeTail

def StrictSize.line (size : StrictSize) : List UInt8 := asBytes size.number.text ++ size.tail.bytes

def StrictSize.bytes (size : StrictSize) : List UInt8 := size.line ++ [10]

structure StrictChunk where
  size : StrictSize
  data : List UInt8
  nonempty : data ≠ []
  size_eq : size.number.value = data.length

def StrictChunk.bytes (chunk : StrictChunk) : List UInt8 :=
  chunk.size.bytes ++ (chunk.data ++ crlf)

/-- What has been read of `bytes` when `left` is left are chunks that carry `body`, each
of a size that fits `usize`, a size line of zero and one line more. -/
def StrictlyRead (t : Target) (bytes left body : List UInt8) : Prop :=
  ∃ (chunks : List StrictChunk) (last : StrictSize) (trailer : List UInt8),
    chunks.flatMap (·.data) = body ∧ (∀ chunk ∈ chunks, chunk.size.number.value < 2 ^ t.bits) ∧
      last.number.value = 0 ∧
        bytes = chunks.flatMap (·.bytes) ++ (last.bytes ++ (trailer ++ left))

variable {t : Target}

/-! ## Slips -/

/-- What is let pass in a size line. -/
inductive SizeSlip (size : ReadSize t) : Prop
  | sign (plus : size.size.sign = ['+'])
  | before (blank : size.size.before ≠ [])
  | after {c : Char} (blank : c ∈ size.size.after) (other : c ≠ '\t')
  | text (other : ∀ tail : SizeTail, tail.bytes ≠ size.line.drop (hexEnd size.line))

/-- The chunks at the start of the bytes, up to a size line of zero, hold a slip. -/
inductive Slips (t : Target) : List UInt8 → Prop
  | size {chunk : ReadChunk t} {rest : List UInt8} (slip : SizeSlip chunk.size) :
      Slips t (chunk.bytes ++ rest)
  | ends {chunk : ReadChunk t} {rest : List UInt8} (slip : chunk.ends ≠ crlf) :
      Slips t (chunk.bytes ++ rest)
  | last {last : ReadSize t} {rest : List UInt8} (zero : last.value = 0) (slip : SizeSlip last) :
      Slips t (last.line ++ 10 :: rest)
  | unended {last : ReadSize t} (zero : last.value = 0) : Slips t last.line
  | later {chunk : ReadChunk t} {rest : List UInt8} (slips : Slips t rest) :
      Slips t (chunk.bytes ++ rest)

/-! ## One size line -/

theorem SizeTail.feedless (tail : SizeTail) : 10 ∉ tail.bytes := by
  rw [bytes, List.mem_append, List.mem_append, not_or, not_or]
  refine ⟨fun h => ?_, ?_, ?_⟩
  · rcases tail.blanks_eq 10 h with h | h <;> cases h
  · rcases tail.extension_eq with heq | ⟨text, heq, htext⟩ <;> rw [heq]
    · exact List.not_mem_nil
    · simpa using htext
  · rcases tail.cr_eq with heq | heq <;> rw [heq] <;> decide

theorem StrictSize.feedless (size : StrictSize) : 10 ∉ size.line := by
  rw [line, List.mem_append, not_or]
  exact ⟨fun h => absurd (digits_plain size.number 10 h) (by decide), size.tail.feedless⟩

/-- The cut leaves tabs with the digits and the rest of the tail behind them. -/
theorem SizeTail.cut (tail : SizeTail) : ∃ (tabs : List UInt8) (rest : SizeTail),
    (∀ b ∈ tabs, b = 9) ∧ tail.bytes = tabs ++ rest.bytes ∧
      tail.bytes.takeWhile (fun b => !(b == 59 || b == 13 || b == 10 || b == 32)) = tabs := by
  obtain ⟨blanks, extension, cr, hblanks, hextension, hcr⟩ := tail
  induction blanks with
  | nil =>
    refine ⟨[], ⟨[], extension, cr, List.forall_mem_nil _, hextension, hcr⟩, List.forall_mem_nil _, rfl, ?_⟩
    rcases hextension with rfl | ⟨text, rfl, _⟩
    · rcases hcr with rfl | rfl <;> rfl
    · rfl
  | cons b blanks ih =>
    rcases hblanks b (by simp) with rfl | rfl
    · exact ⟨[], ⟨32 :: blanks, extension, cr, hblanks, hextension, hcr⟩, List.forall_mem_nil _, rfl, rfl⟩
    · obtain ⟨tabs, rest, htabs, hbytes, htake⟩ := ih fun x hx => hblanks x (by simp [hx])
      refine ⟨9 :: tabs, rest, ?_, ?_, ?_⟩
      · intro x hx
        rcases List.mem_cons.mp hx with rfl | hx
        · rfl
        · exact htabs x hx
      · exact congrArg (List.cons 9) hbytes
      · exact congrArg (List.cons 9) htake

/-- A text of digits starts with a digit. -/
theorem Numeral.head_alphaNum (number : Numeral 16) {c : Char} {s rest : Str}
    (h : c :: s = number.text ++ rest) : AlphaNum c := by
  obtain ⟨d, text, htext⟩ := List.exists_cons_of_ne_nil number.nonempty
  rw [htext, List.cons_append] at h
  rw [(List.cons.inj h).1]
  exact number.alphaNum d (by simp [htext])

theorem Numeral.value_of_text {n₁ n₂ : Numeral 16} (h : n₁.text = n₂.text) :
    n₁.value = n₂.value := by
  have hspells := n₁.spells
  rw [h, n₂.spells] at hspells
  rw [Numeral.value, Numeral.value, Option.some.inj hspells]

/-- A line as it should be is read as the value of its digits, and holds no slip. -/
theorem ReadSize.of_strict {size : ReadSize t} {strict : StrictSize} (h : size.line = strict.line) :
    size.value = strict.number.value ∧ ¬ SizeSlip size := by
  obtain ⟨tabs, rest, htabs, hbytes, htake⟩ := strict.tail.cut
  have hcut := take_hexEnd_numeral strict.number strict.tail.bytes
  rw [htake, ← StrictSize.line, ← h, size.text_eq] at hcut
  have htext : size.size.text = strict.number.text ++ tabs.map fun _ => '\t' :=
    asBytes_injective (by rw [hcut, asBytes_append, asBytes_tabs htabs])
  have htrim := size.size.trim_text
  rw [htext, trim_tabs] at htrim
  have hsign : size.size.sign = [] := by
    refine size.size.sign_eq.resolve_right fun hplus => ?_
    rw [hplus] at htrim
    have hhead : '+' :: size.size.number.text = strict.number.text ++ [] := by
      rw [List.append_nil, htrim]
      rfl
    exact absurd (Numeral.head_alphaNum strict.number hhead) (by decide)
  rw [hsign, List.nil_append] at htrim
  have hbefore : size.size.before = [] := by
    rcases hcase : size.size.before with _ | ⟨c, before⟩
    · rfl
    · rw [SizeText.text, hcase] at htext
      have halnum := Numeral.head_alphaNum strict.number htext
      have hblank := size.size.blanks c (by simp [hcase])
      rw [halnum.not_whitespace] at hblank
      cases hblank
  have hafter : size.size.after = tabs.map fun _ => '\t' := by
    rw [SizeText.text, hbefore, hsign, ← htrim] at htext
    exact List.append_cancel_left htext
  have hdrop : size.line.drop (hexEnd size.line) = rest.bytes := by
    have hall := List.take_append_drop (hexEnd size.line) size.line
    have hline : size.line = asBytes strict.number.text ++ tabs ++ rest.bytes := by
      rw [h, StrictSize.line, hbytes, List.append_assoc]
    rw [size.text_eq, hcut] at hall
    exact List.append_cancel_left (hall.trans hline)
  refine ⟨(Numeral.value_of_text htrim).symm, fun hslip => ?_⟩
  cases hslip with
  | sign plus =>
    rw [hsign] at plus
    cases plus
  | before blank => exact blank hbefore
  | after blank other =>
    rw [hafter] at blank
    obtain ⟨_, _, rfl⟩ := List.mem_map.mp blank
    exact other rfl
  | text other => exact other rest hdrop.symm

/-- A line that holds no slip is as it should be. -/
theorem ReadSize.exists_strict {size : ReadSize t} (h : ¬ SizeSlip size) :
    ∃ strict : StrictSize, strict.line = size.line ∧ strict.number.value = size.value := by
  have hsign : size.size.sign = [] := size.size.sign_eq.resolve_right fun plus => h (.sign plus)
  have hbefore : size.size.before = [] := by
    by_contra blank
    exact h (.before blank)
  have hafter : ∀ c ∈ size.size.after, c = '\t' := by
    intro c hc
    by_contra other
    exact h (.after hc other)
  obtain ⟨tail, htail⟩ : ∃ tail : SizeTail, tail.bytes = size.line.drop (hexEnd size.line) := by
    by_contra hno
    exact h (.text fun tail heq => hno ⟨tail, heq⟩)
  have htabs : ∀ b ∈ asBytes size.size.after, b = 9 := by
    rw [List.eq_replicate_of_mem hafter]
    intro b hb
    obtain ⟨c, hc, hb⟩ := List.mem_flatMap.mp hb
    rw [List.eq_of_mem_replicate hc] at hb
    exact List.mem_singleton.mp hb
  refine ⟨⟨size.size.number, ⟨asBytes size.size.after ++ tail.blanks, tail.extension, tail.cr, ?_,
    tail.extension_eq, tail.cr_eq⟩⟩, ?_, rfl⟩
  · intro b hb
    rcases List.mem_append.mp hb with hb | hb
    · exact Or.inr (htabs b hb)
    · exact tail.blanks_eq b hb
  · have hall := List.take_append_drop (hexEnd size.line) size.line
    rw [size.text_eq, ← htail, SizeText.text, hsign, hbefore] at hall
    rw [← hall]
    simp [StrictSize.line, SizeTail.bytes]

/-! ## What is read -/

theorem ReadChunk.value_ne_zero (chunk : ReadChunk t) : chunk.size.value ≠ 0 := by
  rw [chunk.size_eq]
  exact fun h => chunk.nonempty (List.length_eq_zero_iff.mp h)

theorem StrictChunk.bytes_append (chunk : StrictChunk) (rest : List UInt8) :
    chunk.bytes ++ rest = chunk.size.line ++ 10 :: (chunk.data ++ (crlf ++ rest)) := by
  simp [bytes, StrictSize.bytes]

theorem ReadChunk.bytes_append (chunk : ReadChunk t) (rest : List UInt8) :
    chunk.bytes ++ rest = chunk.size.line ++ 10 :: (chunk.data ++ (chunk.ends ++ rest)) := by
  simp [bytes]

/-- The first lines of two readings. -/
theorem line_inj {l₁ l₂ x y : List UInt8} (h₁ : 10 ∉ l₁) (h₂ : 10 ∉ l₂)
    (h : l₁ ++ 10 :: x = l₂ ++ 10 :: y) : l₁ = l₂ ∧ x = y := by
  have hread := readLineBytes_line l₁ h₁ x true
  rw [h, readLineBytes_line l₂ h₂] at hread
  simp only [Run.mk.injEq, Except.ok.injEq, Stream.mk.injEq, and_true] at hread
  exact ⟨(List.append_cancel_right hread.1).symm, hread.2.symm⟩

/-- A chunk as it should be is read as it is. -/
theorem StrictChunk.read_inj {strict : StrictChunk} {chunk : ReadChunk t} {x y : List UInt8}
    (h : strict.bytes ++ x = chunk.bytes ++ y) :
    chunk.size.line = strict.size.line ∧ chunk.ends = crlf ∧ x = y := by
  rw [strict.bytes_append, chunk.bytes_append] at h
  obtain ⟨hline, hrest⟩ := line_inj strict.size.feedless chunk.size.feedless h
  have hlength : strict.data.length = chunk.data.length := by
    rw [← strict.size_eq, ← chunk.size_eq, (ReadSize.of_strict hline.symm).1]
  obtain ⟨_, hends⟩ := List.append_inj hrest hlength
  obtain ⟨hcrlf, hleft⟩ := List.append_inj hends chunk.two.symm
  exact ⟨hline.symm, hcrlf.symm, hleft⟩

/-- Bytes as they should be hold no slip. -/
theorem not_slips {chunks : List StrictChunk} {last : StrictSize} (hzero : last.number.value = 0)
    {rest : List UInt8} : ¬ Slips t (chunks.flatMap (·.bytes) ++ (last.bytes ++ rest)) := by
  have hnone : ∀ (chunk : ReadChunk t) (more : List UInt8),
      last.bytes ++ rest ≠ chunk.bytes ++ more := by
    intro chunk more h
    rw [StrictSize.bytes, List.append_assoc, List.singleton_append, chunk.bytes_append] at h
    have hline := (line_inj last.feedless chunk.size.feedless h).1
    exact chunk.value_ne_zero ((ReadSize.of_strict hline.symm).1.trans hzero)
  intro hslips
  generalize hbytes : chunks.flatMap (·.bytes) ++ (last.bytes ++ rest) = bytes at hslips
  induction hslips generalizing chunks with
  | @size chunk more slip =>
    cases chunks with
    | nil => exact hnone chunk more hbytes
    | cons strict chunks =>
      rw [List.flatMap_cons, List.append_assoc] at hbytes
      exact (ReadSize.of_strict (StrictChunk.read_inj hbytes).1).2 slip
  | @ends chunk more slip =>
    cases chunks with
    | nil => exact hnone chunk more hbytes
    | cons strict chunks =>
      rw [List.flatMap_cons, List.append_assoc] at hbytes
      exact slip (StrictChunk.read_inj hbytes).2.1
  | @last line more zero slip =>
    cases chunks with
    | nil =>
      rw [List.flatMap_nil, List.nil_append, StrictSize.bytes, List.append_assoc,
        List.singleton_append] at hbytes
      exact (ReadSize.of_strict (line_inj last.feedless line.feedless hbytes).1.symm).2 slip
    | cons strict chunks =>
      rw [List.flatMap_cons, List.append_assoc, strict.bytes_append] at hbytes
      have hline := (line_inj strict.size.feedless line.feedless hbytes).1
      rw [(ReadSize.of_strict hline.symm).1, strict.size_eq] at zero
      exact strict.nonempty (List.length_eq_zero_iff.mp zero)
  | @unended line zero =>
    apply line.feedless
    rw [← hbytes]
    simp [StrictSize.bytes]
  | @later chunk more slips ih =>
    cases chunks with
    | nil => exact hnone chunk more hbytes
    | cons strict chunks =>
      rw [List.flatMap_cons, List.append_assoc] at hbytes
      exact ih (StrictChunk.read_inj hbytes).2.2

/-- A pass of the loops reads a size of zero. -/
def ReadsZero (t : Target) (s : Stream) : Prop :=
  ∃ datas s' s'', ChunksRead t s datas s' ∧ Announces t s' 0 s''

theorem ReadsZero.next {s s' : Stream} {data consumed : List UInt8} (h : ReadsZero t s)
    (pass : PassReads t s (some data) consumed s') : ReadsZero t s' := by
  obtain ⟨datas, s₁, s₂, hreads, hann⟩ := h
  cases hreads with
  | nil =>
    obtain ⟨line, hread, _, hzero⟩ := hann
    cases pass with
    | chunk read _ size data_ne _ =>
      rw [read] at hread
      cases hread
      rw [size] at hzero
      exact absurd (List.length_eq_zero_iff.mp (Except.ok.inj hzero)) data_ne
  | cons first reads =>
    obtain ⟨_, rfl⟩ := pass.unique first
    exact ⟨_, s₁, s₂, reads, hann⟩

/-- Without a slip the chunks that a loop has read are as they should be. -/
theorem BodyReads.strictlyRead {s r : Stream} {datas : List (List UInt8)} {consumed : List UInt8}
    (h : BodyReads t s datas consumed r) (hzero : ReadsZero t s) (hno : ¬ Slips t s.bytes) :
    StrictlyRead t s.bytes r.bytes datas.flatten := by
  induction h with
  | @done s s' consumed pass =>
    have hbytes := congrArg Stream.bytes (pass.bytes_eq t)
    cases pass with
    | ended read =>
      obtain ⟨datas, s₁, s₂, hreads, hann⟩ := hzero
      cases hreads with
      | nil =>
        obtain ⟨line, hread, hne, _⟩ := hann
        rw [read] at hread
        cases hread
        exact absurd rfl hne
      | cons first reads => cases (first.unique (.ended read)).1
    | @last line trailer s₁ _ read line_ne size readTrailer =>
      obtain ⟨last, hlast, hheads⟩ := announces_iff.mp ⟨line, read, line_ne, size⟩
      cases hheads with
      | feed rest c =>
        obtain ⟨strict, hline, hvalue⟩ :=
          ReadSize.exists_strict fun slip => hno (.last hlast slip)
        refine ⟨[], strict, trailer, rfl, List.forall_mem_nil _, hvalue.trans hlast, ?_⟩
        rw [List.flatMap_nil, List.nil_append, StrictSize.bytes, hline, List.append_assoc,
          List.singleton_append]
        exact congrArg (fun rest => last.line ++ 10 :: rest)
          (congrArg Stream.bytes (readLineBytes_ok readTrailer).1)
      | atEnd => exact absurd (.unended hlast) hno
  | @next s s' s'' data consumed rest datas pass reads ih =>
    have hnext := hzero.next pass
    obtain ⟨chunk, rfl, rfl⟩ := pass.exists_chunk
    have hbytes := congrArg Stream.bytes (pass.bytes_eq t)
    rw [hbytes] at hno ⊢
    obtain ⟨strict, hline, hvalue⟩ := ReadSize.exists_strict fun slip => hno (.size slip)
    have hends : chunk.ends = crlf := by
      by_contra slip
      exact hno (.ends slip)
    obtain ⟨chunks, last, trailer, hdatas, hfits, hlast, hrest⟩ :=
      ih hnext fun slips => hno (.later slips)
    let first : StrictChunk := ⟨strict, chunk.data, chunk.nonempty, hvalue.trans chunk.size_eq⟩
    have hfirst : first.bytes = chunk.bytes := by
      simp [StrictChunk.bytes, StrictSize.bytes, ReadChunk.bytes, first, hline, hends]
    refine ⟨first :: chunks, last, trailer, ?_, ?_, hlast, ?_⟩
    · rw [List.flatMap_cons, hdatas, List.flatten_cons]
    · intro x hx
      rcases List.mem_cons.mp hx with rfl | hx
      · exact hvalue.trans_lt chunk.size.fits
      · exact hfits x hx
    · rw [List.flatMap_cons, List.append_assoc, hfirst, hrest]

theorem StrictlyRead.not_slips {bytes left body : List UInt8}
    (h : StrictlyRead t bytes left body) : ¬ Slips t bytes := by
  obtain ⟨chunks, last, trailer, _, _, hzero, rfl⟩ := h
  exact DlnaProxy.TcpProxy.not_slips hzero

/-- **The readers accept chunks as they should be just where they meet no slip.** -/
theorem chunkReaders_strict_iff (t : Target) (maxSize : Nat) {s r : Stream} {w : List UInt8}
    (hzero : ReadsZero t s) :
    (∀ body, readChunkedBody t maxSize s = ⟨.ok body, r, w⟩ →
        (StrictlyRead t s.bytes r.bytes body ↔ ¬ Slips t s.bytes)) ∧
      (passThroughChunked t s = ⟨.ok (), r, w⟩ →
        ((∃ body, StrictlyRead t s.bytes r.bytes body) ↔ ¬ Slips t s.bytes)) := by
  constructor
  · intro body h
    obtain ⟨datas, consumed, hreads, rfl, _, _⟩ := (readChunkedBody_eq_ok_iff t).mp h
    exact ⟨StrictlyRead.not_slips, hreads.strictlyRead hzero⟩
  · intro h
    obtain ⟨datas, hreads⟩ := (passThroughChunked_eq_ok_iff t).mp h
    constructor
    · rintro ⟨body, hread⟩
      exact hread.not_slips
    · exact fun hno => ⟨_, hreads.strictlyRead hzero hno⟩

/-- On a chunk whose size has a leading zero and an extension. -/
theorem chunkReaders_strict_iff_inOneChunk :
    readChunkedBody release64 maxRewritableBodySize (Stream.mk (inOneChunk.bytes ++ []) true) =
        ⟨.ok inOneChunk.payload, ⟨[], true⟩, []⟩ ∧
      (StrictlyRead release64 (inOneChunk.bytes ++ []) [] inOneChunk.payload ↔
        ¬ Slips release64 (inOneChunk.bytes ++ [])) := by
  have hfit : SizesFit release64 maxRewritableBodySize inOneChunk.sizes :=
    sizesFit_of_payload (by decide)
  have hread := readChunkedBody_body release64 hfit [] true
  let chunk : Chunk := ⟨twoBytes, asBytes "hi".toList, by decide, by decide⟩
  have hsize : chunk.size.value < 2 ^ release64.bits := by decide
  have hzero : ReadsZero release64 ⟨inOneChunk.bytes ++ [], true⟩ :=
    ⟨_, _, _, .cons (passReads_chunk release64 hsize (lastChunk.bytes ++ crlf) true) (.nil _), _,
      lastChunk.readLine crlf true, by decide, by decide⟩
  exact ⟨hread, (chunkReaders_strict_iff release64 maxRewritableBodySize hzero).1 _ hread⟩

/-- The size `+1`, and `XY` after the byte of data. -/
def signedChunk : ReadChunk release64 where
  size := ⟨[43, 49, 13], ⟨[], ['+'], oneByte.number, [], by decide, by decide⟩,
    by decide, by decide, by decide⟩
  data := [105]
  ends := [88, 89]
  nonempty := by decide
  size_eq := by decide
  two := by decide

def signedBody : List UInt8 := signedChunk.bytes ++ (lastChunk.bytes ++ crlf)

theorem bodyReads_signedBody :
    BodyReads release64 ⟨signedBody, true⟩ [[105]] signedBody ⟨[], true⟩ :=
  .next (signedChunk.passReads _ true)
    (.done (passReads_last release64 inOneChunk.last_eq (show 10 ∉ [(13 : UInt8)] by decide) [] true))

/-- The readers return on it, and hold it for a chunk. -/
theorem chunkReaders_signedBody :
    readChunkedBody release64 maxRewritableBodySize (Stream.mk signedBody true) =
        ⟨.ok [105], ⟨[], true⟩, []⟩ ∧
      passThroughChunked release64 (Stream.mk signedBody true) =
        ⟨.ok (), ⟨[], true⟩, signedBody⟩ ∧ ReadsZero release64 ⟨signedBody, true⟩ ∧
          ¬ ∃ body, StrictlyRead release64 signedBody [] body := by
  refine ⟨?_, ?_, ?_, ?_⟩
  · exact (readChunkedBody_eq_ok_iff release64).mpr ⟨_, _, bodyReads_signedBody, rfl,
      sizesFit_singleton (by decide) (by decide), rfl⟩
  · exact (passThroughChunked_eq_ok_iff release64).mpr ⟨_, bodyReads_signedBody⟩
  · exact ⟨_, _, _, .cons (signedChunk.passReads _ true) (.nil _), _, lastChunk.readLine crlf true,
      by decide, by decide⟩
  · rintro ⟨body, hread⟩
    exact hread.not_slips (.ends (by decide))

end DlnaProxy.TcpProxy
