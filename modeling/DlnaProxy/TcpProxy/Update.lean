import DlnaProxy.TcpProxy.Framing

/-!
# The header blocks that go out

A rewritten response is sent with its header block as lossy text, or as
`updateContentLength` makes it. Both are header blocks: `lossy` keeps every line
and the way it is scanned, `updated n` has CRLF line ends and announces `n`.
-/
namespace DlnaProxy.TcpProxy

open DlnaProxy.Lib.ByteIo DlnaProxy.Lib.Utf8

theorem not_blank_of_ne {line : List UInt8} (hnil : line ≠ []) (hcr : line ≠ [13]) :
    isBlankLine (line ++ [10]) = false := by
  rw [isBlankLine, Bool.or_eq_false_iff, decide_eq_false_iff_not, decide_eq_false_iff_not]
  constructor
  · intro h
    exact hcr (List.append_inj_left' (show line ++ [10] = [13] ++ [10] from h) rfl)
  · intro h
    exact hnil (List.append_inj_left' (show line ++ [10] = [] ++ [10] from h) rfl)

theorem ne_of_not_blank {line : List UInt8} (h : isBlankLine (line ++ [10]) = false) :
    line ≠ [] ∧ line ≠ [13] := by
  constructor <;> rintro rfl <;> exact absurd h (by decide)

namespace HeaderBlock

variable (block : HeaderBlock) (t : Target)

/-- The block as lossy text. -/
def lossy : HeaderBlock where
  lines := block.lines.map fun line => asBytes (fromUtf8Lossy line)
  blank := block.blank
  feedless := by
    intro line hline hm
    obtain ⟨l, hl, rfl⟩ := List.mem_map.mp hline
    have hfeed : '\n' ∈ fromUtf8Lossy l := (mem_asBytes_iff (by decide) _).mp hm
    exact block.feedless l hl ((mem_lossy_iff (by decide) l).mp hfeed)
  nonblank := by
    intro line hline
    obtain ⟨l, hl, rfl⟩ := List.mem_map.mp hline
    obtain ⟨hnil, hcr⟩ := ne_of_not_blank (block.nonblank l hl)
    apply not_blank_of_ne
    · intro h
      have h' : fromUtf8Lossy l = [] := asBytes_injective (h.trans asBytes_nil.symm)
      exact hnil (fromUtf8Lossy_eq_nil_iff.mp h')
    · intro h
      have h' : fromUtf8Lossy l = ['\r'] := asBytes_injective (h.trans (by decide))
      exact hcr (fromUtf8Lossy_eq_singleton (by decide) h')
  ends := block.ends

theorem lossy_blank : fromUtf8Lossy block.blank = '\r' :: '\n' :: [] ∨
    fromUtf8Lossy block.blank = ['\n'] := by
  rcases block.blank_eq with h | h <;> rw [h]
  · exact Or.inl (by decide)
  · exact Or.inr (by decide)

theorem asBytes_lossy_blank : asBytes (fromUtf8Lossy block.blank) = block.blank := by
  rcases block.blank_eq with h | h <;> rw [h] <;> decide

theorem fromUtf8Lossy_lines (lines : List (List UInt8)) (rest : List UInt8) :
    fromUtf8Lossy (lines.flatMap (· ++ [10]) ++ rest) =
      lines.flatMap (fun line => fromUtf8Lossy line ++ ['\n']) ++ fromUtf8Lossy rest := by
  induction lines with
  | nil => rfl
  | cons line lines ih =>
    rw [List.flatMap_cons, List.append_assoc, List.append_assoc, List.singleton_append,
      fromUtf8Lossy_append line (by decide), ih, List.flatMap_cons]
    simp
    decide

theorem asBytes_lossy : asBytes (fromUtf8Lossy block.bytes) = block.lossy.bytes := by
  rw [bytes, fromUtf8Lossy_lines, asBytes_append, asBytes_lossy_blank]
  congr 1
  show asBytes (block.lines.flatMap _) = (block.lines.map _).flatMap _
  induction block.lines with
  | nil => rfl
  | cons line lines ih =>
    rw [List.flatMap_cons, asBytes_append, ih, asBytes_append]
    rfl

theorem lossy_rawLines : block.lossy.rawLines =
    block.rawLines.map fun line => asBytes (fromUtf8Lossy line) := by
  rw [rawLines, rawLines, List.map_append, List.map_singleton, asBytes_lossy_blank]
  congr 1
  show (block.lines.map _).map _ = (block.lines.map _).map _
  rw [List.map_map, List.map_map]
  apply List.map_congr_left
  intro line _
  show _ ++ [10] = asBytes (fromUtf8Lossy (line ++ [10]))
  rw [fromUtf8Lossy_feed, asBytes_append]
  rfl

/-- The lossy block is scanned as the block is. -/
theorem lossy_contentLength :
    (block.lossy.head t).contentLength = (block.head t).contentLength := by
  rw [head, head, contentLength_foldl, contentLength_foldl, lossy_rawLines, List.foldl_map]
  simp

theorem lossy_isChunked : (block.lossy.head t).isChunked = (block.head t).isChunked := by
  rw [head, head, isChunked_foldl, isChunked_foldl, lossy_rawLines, List.any_map]
  simp [Function.comp_def]

/-! ## The updated block -/

/-- The new Content-Length line. -/
theorem exists_lengthLine (n : Nat) : ∃ line : LengthLine, line.value = n ∧
    line.text = "Content-Length: ".toList ++ decimal n ++ ['\r'] := by
  obtain ⟨number, htext, hvalue⟩ := @Numeral.exists_toDigits 10 (by decide) (by decide) n
  refine ⟨⟨"Content-Length".toList, [' '], number, [], ['\r'], by decide, by decide, by decide,
    Or.inr rfl⟩, hvalue, ?_⟩
  simp only [LengthLine.text, htext]
  rfl

def updatedLine (n : Nat) (line : List UInt8) : List UInt8 :=
  if HasField contentLengthField line then
    asBytes ("Content-Length: ".toList ++ decimal n ++ ['\r'])
  else asBytes (stripLast '\r' (fromUtf8Lossy line) ++ ['\r'])

theorem updatedLine_hasField (n : Nat) {line : List UInt8} (h : HasField contentLengthField line) :
    ∃ l : LengthLine, l.value = n ∧ updatedLine n line = l.bytes := by
  obtain ⟨l, hvalue, htext⟩ := exists_lengthLine n
  exact ⟨l, hvalue, by rw [updatedLine, if_pos h, LengthLine.bytes, htext]⟩

/-- Another line keeps its fields. -/
theorem updatedLine_other (n : Nat) {name : Str} (hname : FieldName name) {line : List UInt8}
    (h : ¬ HasField contentLengthField line) :
    HasField name (updatedLine n line) ↔ HasField name line := by
  rw [updatedLine, if_neg h, ← startsWith_lossy_iff hname, fromUtf8Lossy_asBytes,
    startsWith_cr_iff hname, startsWith_stripLast_iff hname, startsWith_lossy_iff hname]

theorem updatedLine_nonblank (n : Nat) {line : List UInt8}
    (h : isBlankLine (line ++ [10]) = false) : isBlankLine (updatedLine n line ++ [10]) = false := by
  obtain ⟨hnil, hcr⟩ := ne_of_not_blank h
  by_cases hf : HasField contentLengthField line
  · obtain ⟨l, _, hl⟩ := updatedLine_hasField n hf
    have hfield := l.hasField_bytes
    rw [← hl] at hfield
    apply not_blank_of_ne <;> intro hb <;> rw [hb] at hfield <;> exact absurd hfield (by decide)
  · rw [updatedLine, if_neg hf]
    have hne : stripLast '\r' (fromUtf8Lossy line) ≠ [] := by
      intro hs
      rcases stripLast_cases '\r' (fromUtf8Lossy line) with h' | ⟨h', _⟩ <;> rw [hs] at h'
      · exact hcr (fromUtf8Lossy_eq_singleton (by decide) h')
      · exact hnil (fromUtf8Lossy_eq_nil_iff.mp h')
    apply not_blank_of_ne
    · exact asBytes_ne_nil (by simp)
    · intro hb
      have hs : stripLast '\r' (fromUtf8Lossy line) ++ ['\r'] = [] ++ ['\r'] :=
        asBytes_injective (hb.trans (by decide))
      exact hne (List.append_inj_left' hs rfl)

theorem updatedLine_feedless (n : Nat) {line : List UInt8} (h : 10 ∉ line) :
    10 ∉ updatedLine n line := by
  have hfeed : '\n' ∉ fromUtf8Lossy line := fun hm => h ((mem_lossy_iff (by decide) line).mp hm)
  have hmem : ∀ s : Str, '\n' ∉ s → 10 ∉ asBytes s :=
    fun s hs hm => hs ((mem_asBytes_iff (show Ascii '\n' by decide) s).mp hm)
  unfold updatedLine
  split
  · apply hmem
    rw [List.mem_append, List.mem_append, not_or, not_or]
    refine ⟨⟨by decide, ?_⟩, by decide⟩
    exact fun hd => (toDigits_alphaNum (by decide) (by decide) n _ hd).ne (by decide) rfl
  · apply hmem
    rw [List.mem_append, not_or]
    refine ⟨fun hs => hfeed ?_, by decide⟩
    rcases stripLast_cases '\r' (fromUtf8Lossy line) with h' | ⟨h', _⟩ <;> rw [h']
    · exact List.mem_append_left _ hs
    · exact hs

/-- The block as `updateContentLength` makes it. -/
def updated (n : Nat) : HeaderBlock where
  lines := block.lines.map (updatedLine n)
  blank := crlf
  feedless := by
    intro line hline
    obtain ⟨l, hl, rfl⟩ := List.mem_map.mp hline
    exact updatedLine_feedless n (block.feedless l hl)
  nonblank := by
    intro line hline
    obtain ⟨l, hl, rfl⟩ := List.mem_map.mp hline
    exact updatedLine_nonblank n (block.nonblank l hl)
  ends := crlf_blank

theorem splitInclusive_bytes : splitInclusive 10 block.bytes = block.rawLines := by
  have hblank : splitInclusive 10 block.blank = [block.blank] := by
    rcases block.blank_eq with h | h <;> rw [h] <;> decide
  have main : ∀ lines : List (List UInt8), (∀ line ∈ lines, 10 ∉ line) →
      splitInclusive 10 (lines.flatMap (· ++ [10]) ++ block.blank) =
        lines.map (· ++ [10]) ++ [block.blank] := by
    intro lines h
    induction lines with
    | nil => exact hblank
    | cons line lines ih =>
      rw [List.flatMap_cons, List.append_assoc, List.append_assoc, List.singleton_append,
        splitInclusive_line (h line (by simp)), ih fun l hl => h l (by simp [hl])]
      rfl
  exact main block.lines block.feedless

/-- The lines of the block's text. -/
theorem lines_lossy : Lib.Utf8.lines (fromUtf8Lossy block.bytes) =
    block.lines.map (fun line => stripLast '\r' (fromUtf8Lossy line)) ++ [[]] := by
  rw [Lib.Utf8.lines, lossy_splitInclusive, splitInclusive_bytes, rawLines, List.map_append,
    List.map_append, List.map_map, List.map_map]
  congr 1
  · apply List.map_congr_left
    intro line _
    have hlast : (fromUtf8Lossy line ++ ['\n']).getLast? = some '\n' := by simp
    show (if (fromUtf8Lossy (line ++ [10])).getLast? = some '\n' then _ else _) = _
    rw [fromUtf8Lossy_feed, if_pos hlast, List.dropLast_concat]
  · rcases block.lossy_blank with h | h <;> simp [h, stripLast]

theorem asBytes_updateLine (n : Nat) (line : List UInt8) :
    asBytes (updateLine n (stripLast '\r' (fromUtf8Lossy line))) = updatedLine n line ++ [10] := by
  have hstart := (startsWith_stripLast_iff fieldName_contentLength (fromUtf8Lossy line)).trans
    (startsWith_lossy_iff fieldName_contentLength line)
  have hcrlf : "\r\n".toList = ['\r'] ++ ['\n'] := by decide
  have hfeed : asBytes ['\n'] = [10] := by decide
  unfold updateLine updatedLine
  by_cases hf : HasField contentLengthField line
  · have hs := hstart.mpr hf
    rw [if_pos hf]
    apply (congrArg asBytes (if_pos hs)).trans
    rw [hcrlf, ← List.append_assoc, asBytes_append, hfeed]
  · have hs := mt hstart.mp hf
    rw [if_neg hf]
    apply (congrArg asBytes (if_neg hs)).trans
    rw [hcrlf, ← List.append_assoc, asBytes_append, hfeed]

/-- **What `updateContentLength` makes of a block's text is the updated block.** -/
theorem asBytes_updateContentLength (n : Nat) :
    asBytes (updateContentLength (fromUtf8Lossy block.bytes) n) = (block.updated n).bytes := by
  have hblank : asBytes (updateLine n []) = crlf := by
    rw [updateLine, if_neg (by decide)]
    decide
  have main : ∀ lines : List (List UInt8),
      asBytes ((lines.map fun line => stripLast '\r' (fromUtf8Lossy line)).flatMap (updateLine n)) =
        (lines.map (updatedLine n)).flatMap (· ++ [10]) := by
    intro lines
    induction lines with
    | nil => rfl
    | cons line lines ih =>
      rw [List.map_cons, List.flatMap_cons, asBytes_append, asBytes_updateLine, ih]
      rfl
  rw [updateContentLength, lines_lossy, List.flatMap_append, asBytes_append, main]
  show _ ++ asBytes (updateLine n [] ++ []) = _
  rw [List.append_nil, hblank]
  rfl

/-! ## The framing that goes out -/

variable {block t}

theorem lossy_lengthLine (line : LengthLine) :
    asBytes (fromUtf8Lossy line.bytes) = line.bytes := by
  rw [LengthLine.bytes, fromUtf8Lossy_asBytes]

theorem LengthFramed.lossy {n : Nat} (h : block.LengthFramed n) : block.lossy.LengthFramed n := by
  obtain ⟨before, line, after, hlines, hvalue, hothers⟩ := h.length_line
  have hmap : block.lossy.lines = before.map (fun l => asBytes (fromUtf8Lossy l)) ++
      line.bytes :: after.map (fun l => asBytes (fromUtf8Lossy l)) := by
    show block.lines.map _ = _
    rw [hlines, List.map_append, List.map_cons, lossy_lengthLine]
  refine ⟨⟨_, line, _, hmap, hvalue, ?_⟩, ?_⟩
  · intro other hother
    rw [← List.map_append] at hother
    obtain ⟨o, ho, rfl⟩ := List.mem_map.mp hother
    rw [hasField_lossy_iff fieldName_contentLength]
    exact hothers o ho
  · intro other hother
    obtain ⟨o, ho, rfl⟩ := List.mem_map.mp hother
    rw [hasField_lossy_iff fieldName_transferEncoding]
    exact h.no_encoding o ho

theorem ChunkFramed.lossy (h : block.ChunkFramed) : block.lossy.ChunkFramed := by
  obtain ⟨line, hl, hfield, hchunked⟩ := h.encoding_line
  refine ⟨⟨asBytes (fromUtf8Lossy line), List.mem_map_of_mem hl, ?_, ?_⟩, ?_⟩
  · exact (hasField_lossy_iff fieldName_transferEncoding line).mpr hfield
  · exact infix_lower_lossy (by decide) (by decide) hchunked
  · intro other hother
    obtain ⟨o, ho, rfl⟩ := List.mem_map.mp hother
    rw [hasField_lossy_iff fieldName_contentLength]
    exact h.no_length o ho

theorem LengthFramed.updated {m : Nat} (h : block.LengthFramed m) (n : Nat) :
    (block.updated n).LengthFramed n := by
  obtain ⟨before, line, after, hlines, _, hothers⟩ := h.length_line
  obtain ⟨l, hvalue, hl⟩ := updatedLine_hasField n line.hasField_bytes
  have hmap : (block.updated n).lines =
      before.map (updatedLine n) ++ l.bytes :: after.map (updatedLine n) := by
    show block.lines.map (updatedLine n) = _
    rw [hlines, List.map_append, List.map_cons, hl]
  refine ⟨⟨_, l, _, hmap, hvalue, ?_⟩, ?_⟩
  · intro other hother
    rw [← List.map_append] at hother
    obtain ⟨o, ho, rfl⟩ := List.mem_map.mp hother
    rw [updatedLine_other n fieldName_contentLength (hothers o ho)]
    exact hothers o ho
  · intro other hother
    obtain ⟨o, ho, rfl⟩ := List.mem_map.mp hother
    by_cases hf : HasField contentLengthField o
    · obtain ⟨l', _, hl'⟩ := updatedLine_hasField n hf
      rw [hl']
      exact not_hasField_both l'.hasField_bytes
    · rw [updatedLine_other n fieldName_transferEncoding hf]
      exact h.no_encoding o ho

/-! ## The other header lines -/

variable (block)

/-- The header lines other than Content-Length, without their line ends. -/
def fields : List (List UInt8) :=
  (block.lines.filter fun line => ¬ HasField contentLengthField line).map (stripLast 13)

theorem fields_map {f : List UInt8 → List UInt8} {lines : List (List UInt8)}
    (hkept : ∀ line, HasField contentLengthField (f line) ↔ HasField contentLengthField line)
    (hlossy : ∀ line, ¬ HasField contentLengthField line →
      stripLast 13 (f line) = asBytes (fromUtf8Lossy (stripLast 13 line))) :
    ((lines.map f).filter fun line => ¬ HasField contentLengthField line).map (stripLast 13) =
      ((lines.filter fun line => ¬ HasField contentLengthField line).map (stripLast 13)).map
        fun field => asBytes (fromUtf8Lossy field) := by
  induction lines with
  | nil => rfl
  | cons line lines ih =>
    by_cases h : HasField contentLengthField line
    · have h' := (hkept line).mpr h
      simpa [h, h'] using ih
    · have h' := mt (hkept line).mp h
      simpa [h, h', hlossy line h] using ih

/-- Both blocks that go out carry the other lines as lossy text. -/
theorem fields_lossy : block.lossy.fields =
    block.fields.map fun field => asBytes (fromUtf8Lossy field) := by
  apply fields_map (hasField_lossy_iff fieldName_contentLength)
  intro line _
  have hcr : (13 : UInt8) = '\r'.toUInt8 := by decide
  rw [hcr, stripLast_asBytes (by decide), stripLast_lossy (by decide)]

theorem fields_updated (n : Nat) : (block.updated n).fields =
    block.fields.map fun field => asBytes (fromUtf8Lossy field) := by
  have hcr : (13 : UInt8) = '\r'.toUInt8 := by decide
  apply fields_map
  · intro line
    by_cases h : HasField contentLengthField line
    · obtain ⟨l, _, hl⟩ := updatedLine_hasField n h
      rw [hl]
      exact iff_of_true l.hasField_bytes h
    · exact updatedLine_other n fieldName_contentLength h
  · intro line h
    rw [updatedLine, if_neg h, hcr, stripLast_asBytes (by decide), stripLast_concat,
      stripLast_lossy (by decide)]

end HeaderBlock

end DlnaProxy.TcpProxy
