import DlnaProxy.Lib.Lines
import DlnaProxy.TcpProxy.Update

/-!
# The update agrees with the scan

The header loop reads an updated block to its end and no further, finds the new
length where there was one, and decides everything else as before. Line by line the
update changes the Content-Length lines and nothing else, so the last update counts.
-/
namespace DlnaProxy.TcpProxy

open DlnaProxy.Lib.ByteIo DlnaProxy.Lib.Utf8

/-! ## Lines of the text -/

/-- What the update takes for a Content-Length line. -/
def IsLengthLine (line : Str) : Prop :=
  startsWith (toLowercase line) "content-length:".toList = true

instance (line : Str) : Decidable (IsLengthLine line) :=
  inferInstanceAs (Decidable (startsWith (toLowercase line) "content-length:".toList = true))

/-- The text of the new line. -/
def lengthText (n : Nat) : Str := "Content-Length: ".toList ++ decimal n

theorem lengthText_eq (n : Nat) : lengthText n = "Content-Length: ".toList ++ decimal n := rfl

/-- A line as it is copied, without its end. -/
def copied (n : Nat) (line : Str) : Str := if IsLengthLine line then lengthText n else line

theorem updateLine_eq (n : Nat) (line : Str) : updateLine n line = copied n line ++ "\r\n".toList := by
  unfold updateLine copied
  by_cases h : IsLengthLine line
  · rw [if_pos h]
    exact if_pos h
  · rw [if_neg h]
    exact if_neg h

theorem lengthText_isLengthLine (n : Nat) : IsLengthLine (lengthText n) := by
  obtain ⟨line, _, htext⟩ := HeaderBlock.exists_lengthLine n
  have hfield := line.hasField_bytes
  rw [LengthLine.bytes, htext, ← startsWith_lossy_iff fieldName_contentLength,
    fromUtf8Lossy_asBytes, startsWith_cr_iff fieldName_contentLength] at hfield
  rw [IsLengthLine, lengthText_eq]
  exact hfield

theorem lengthText_feedless (n : Nat) : '\n' ∉ lengthText n := by
  rw [lengthText_eq, List.mem_append, not_or]
  refine ⟨by decide, fun hm => ?_⟩
  exact (toDigits_alphaNum (by decide) (by decide) n _ hm).ne (by decide) rfl

/-- **The update copies the lines of a text**, whatever the text. -/
theorem lines_updateContentLength (headers : Str) (n : Nat) :
    lines (updateContentLength headers n) = (lines headers).map (copied n) := by
  have hflat : updateContentLength headers n =
      ((lines headers).map (copied n)).flatMap (· ++ "\r\n".toList) := by
    rw [updateContentLength, List.flatMap_map]
    exact List.flatMap_congr fun line _ => updateLine_eq n line
  rw [hflat]
  apply lines_flatMap
  intro line hline
  obtain ⟨l, hl, rfl⟩ := List.mem_map.mp hline
  unfold copied
  split
  · exact lengthText_feedless n
  · exact feedless_of_mem_lines hl

/-- The last update counts. -/
theorem updateContentLength_twice (headers : Str) (n m : Nat) :
    updateContentLength (updateContentLength headers n) m = updateContentLength headers m := by
  rw [updateContentLength, lines_updateContentLength, List.flatMap_map, updateContentLength]
  apply List.flatMap_congr
  intro line _
  rw [updateLine_eq, updateLine_eq]
  congr 1
  unfold copied
  by_cases h : IsLengthLine line
  · rw [if_pos h, if_pos h, if_pos (lengthText_isLengthLine n)]
  · rw [if_neg h, if_neg h]

/-! ## The content type -/

def contentTypeField : Str := "content-type:".toList

/-- What a Content-Type line in lower case says about rewriting. -/
def rewritesType (line : Str) : Bool :=
  let contentType := trim ((line.splitOn ':')[1]?.getD [])
  startsWith contentType "text/".toList || contains contentType "xml".toList ||
    contains contentType "json".toList || contains contentType "html".toList

/-- The first Content-Type line decides. -/
theorem shouldRewriteContent_eq (headers : Str) : shouldRewriteContent headers =
    ((lines headers).find? fun line => startsWith (toLowercase line) contentTypeField).any
      fun line => rewritesType (toLowercase line) := by
  have hfind : (lines (toLowercase headers)).find? (startsWith · "content-type:".toList) =
      ((lines headers).find? fun line => startsWith (toLowercase line) contentTypeField).map
        toLowercase := by
    rw [lines_toLowercase, List.find?_map]
    rfl
  rw [shouldRewriteContent, hfind]
  cases (lines headers).find? fun line => startsWith (toLowercase line) contentTypeField <;> rfl

theorem not_contentType_of_lengthLine {line : Str} (h : IsLengthLine line) :
    startsWith (toLowercase line) contentTypeField = false := by
  rw [Bool.eq_false_iff]
  intro htype
  obtain ⟨u, hu⟩ := startsWith_iff.mp h
  obtain ⟨v, hv⟩ := startsWith_iff.mp htype
  have hlen : "content-length:".toList.take 9 = contentTypeField.take 9 := by
    have hl := congrArg (List.take 9) (hu.trans hv.symm)
    exact hl
  exact absurd hlen (by decide)

/-- The update keeps the decision. -/
theorem shouldRewriteContent_updateContentLength (headers : Str) (n : Nat) :
    shouldRewriteContent (updateContentLength headers n) = shouldRewriteContent headers := by
  have hcopied (line : Str) : startsWith (toLowercase (copied n line)) contentTypeField =
      startsWith (toLowercase line) contentTypeField := by
    unfold copied
    split
    · next h =>
      rw [not_contentType_of_lengthLine h, not_contentType_of_lengthLine (lengthText_isLengthLine n)]
    · rfl
  have hfind : (lines headers).find?
      ((fun line => startsWith (toLowercase line) contentTypeField) ∘ copied n) =
        (lines headers).find? fun line => startsWith (toLowercase line) contentTypeField :=
    List.find?_congr fun line _ => hcopied line
  rw [shouldRewriteContent_eq, shouldRewriteContent_eq, lines_updateContentLength, List.find?_map,
    hfind]
  cases hline : (lines headers).find? fun line => startsWith (toLowercase line) contentTypeField with
  | none => rfl
  | some line =>
    have htype := List.find?_some hline
    have hlength : ¬ IsLengthLine line := fun h => by
      rw [not_contentType_of_lengthLine h] at htype
      cases htype
    have hsame : copied n line = line := if_neg hlength
    show rewritesType (toLowercase (copied n line)) = rewritesType (toLowercase line)
    rw [hsame]

/-! ## The scan of the updated block -/

section Scan

variable {t : Target}

/-- What pads a line or ends it. -/
def padChars : Str := " \t\r\n".toList

def IsPad (pad : Str) : Prop := ∀ c ∈ pad, c ∈ padChars

instance (pad : Str) : Decidable (IsPad pad) := inferInstanceAs (Decidable (∀ c ∈ pad, c ∈ padChars))

theorem isPad_nil : IsPad [] := by decide

theorem isPad_feed : IsPad ['\n'] := by decide

theorem isPad_return : IsPad ['\r'] := by decide

theorem padChars_caseless : ∀ c ∈ padChars, Caseless c := by decide

section Pad

variable {pad : Str} (h : IsPad pad)

include h

theorem toLowercase_pad : toLowercase pad = pad := by
  induction pad with
  | nil => rfl
  | cons c pad ih =>
    have hc := lowerChar_caseless (padChars_caseless c (h c List.mem_cons_self))
    rw [toLowercase_cons, hc, ih fun d hd => h d (List.mem_cons_of_mem c hd)]
    rfl

/-- The end of a line is not part of a name. -/
theorem startsWith_pad {name : Str} (hname : ∀ c ∈ padChars, c ∉ name) (s : Str) :
    startsWith (toLowercase (s ++ pad)) name = startsWith (toLowercase s) name := by
  rw [toLowercase_append, toLowercase_pad h, Bool.eq_iff_iff, startsWith_iff, startsWith_iff]
  cases pad with
  | nil => rw [List.append_nil]
  | cons c pad => exact prefix_append_cons_iff (hname c (h c List.mem_cons_self)) _ _

/-- What a line ends with does not make it chunked. -/
theorem scanIsChunked_pad (s : Str) : scanIsChunked (s ++ pad) = scanIsChunked s := by
  have hvalue : ∀ c ∈ padChars, c ∉ "chunked".toList := by decide
  have hcontains : contains (toLowercase (s ++ pad)) "chunked".toList =
      contains (toLowercase s) "chunked".toList := by
    rw [toLowercase_append, toLowercase_pad h, Bool.eq_iff_iff, contains_iff, contains_iff]
    exact infix_append_right_iff (by decide) (fun c hc => hvalue c (h c hc)) _
  rw [scanIsChunked, startsWith_pad h (by decide), hcontains]
  rfl

end Pad

/-- What a carriage return at the end does not change, stripping one does not. -/
theorem apply_stripLast {β : Type} {f : Str → β} {c : Char} (h : ∀ s, f (s ++ [c]) = f s) (s : Str) :
    f (stripLast c s) = f s := by
  rcases stripLast_cases c s with hs | ⟨hs, _⟩
  · rw [← h (stripLast c s), ← hs]
  · rw [← hs]

/-- Content-Length lines that all say `n`. -/
theorem foldl_lengthLines {lines : List (List UInt8)} {n : Nat}
    (h : ∀ line ∈ lines, HasField contentLengthField line →
      ∀ len, scanContentLength t (fromUtf8Lossy line) len = some n) (len : Option Nat) :
    lines.foldl (fun len line => scanContentLength t (fromUtf8Lossy line) len) len =
      if ∃ line ∈ lines, HasField contentLengthField line then some n else len := by
  induction lines generalizing len with
  | nil => rw [if_neg (by simp), List.foldl_nil]
  | cons line lines ih =>
    rw [List.foldl_cons, ih fun l hl => h l (List.mem_cons_of_mem line hl)]
    by_cases hf : HasField contentLengthField line
    · rw [h line List.mem_cons_self hf, ite_self, if_pos ⟨line, List.mem_cons_self, hf⟩]
    · rw [scanContentLength_other hf]
      simp [hf]

namespace HeaderBlock

variable (block : HeaderBlock)

theorem updated_scanIsChunked (n : Nat) (line : List UInt8) :
    scanIsChunked (fromUtf8Lossy (updatedLine n line ++ [10])) =
      scanIsChunked (fromUtf8Lossy (line ++ [10])) := by
  rw [fromUtf8Lossy_feed, fromUtf8Lossy_feed, scanIsChunked_pad isPad_feed,
    scanIsChunked_pad isPad_feed]
  by_cases hf : HasField contentLengthField line
  · obtain ⟨l, _, hl⟩ := updatedLine_hasField n hf
    rw [hl, scanIsChunked_other (not_hasField_both l.hasField_bytes),
      scanIsChunked_other (not_hasField_both hf)]
  · rw [updatedLine, if_neg hf, fromUtf8Lossy_asBytes, scanIsChunked_pad isPad_return]
    exact apply_stripLast (scanIsChunked_pad isPad_return) _

theorem updated_isChunked (n : Nat) :
    ((block.updated n).head t).isChunked = (block.head t).isChunked := by
  have hlines : (block.updated n).rawLines.any (fun line => scanIsChunked (fromUtf8Lossy line)) =
      block.rawLines.any fun line => scanIsChunked (fromUtf8Lossy line) := by
    have hblank {b : HeaderBlock} : scanIsChunked (fromUtf8Lossy b.blank) = false :=
      scanIsChunked_other blank_not_transferEncoding
    rw [rawLines, rawLines, List.any_append, List.any_append, List.any_cons, List.any_cons, hblank,
      hblank, updated, List.any_map, List.any_map, List.any_map]
    congr 2
    funext line
    exact updated_scanIsChunked n line
  rw [head, head, isChunked_foldl, isChunked_foldl, hlines]

theorem updatedLine_length_iff (n : Nat) (line : List UInt8) :
    HasField contentLengthField (updatedLine n line) ↔ HasField contentLengthField line := by
  by_cases hf : HasField contentLengthField line
  · obtain ⟨l, _, hl⟩ := updatedLine_hasField n hf
    rw [hl]
    exact iff_of_true l.hasField_bytes hf
  · exact updatedLine_other n fieldName_contentLength hf

/-- The text has a Content-Length line just where the block has one. -/
theorem exists_lengthLine_iff : (∃ line ∈ Lib.Utf8.lines (fromUtf8Lossy block.bytes),
    IsLengthLine line) ↔ ∃ line ∈ block.lines, HasField contentLengthField line := by
  have hline (line : List UInt8) : IsLengthLine (stripLast '\r' (fromUtf8Lossy line)) ↔
      HasField contentLengthField line :=
    (startsWith_stripLast_iff fieldName_contentLength _).trans
      (startsWith_lossy_iff fieldName_contentLength line)
  rw [block.lines_lossy]
  simp only [List.mem_append, List.mem_map, List.mem_singleton]
  constructor
  · rintro ⟨_, ⟨line, hl, rfl⟩ | rfl, hlength⟩
    · exact ⟨line, hl, (hline line).mp hlength⟩
    · exact absurd hlength (by decide)
  · rintro ⟨line, hl, hlength⟩
    exact ⟨_, Or.inl ⟨line, hl, rfl⟩, (hline line).mpr hlength⟩

theorem updated_contentLength {n : Nat} (hn : n < 2 ^ t.bits) :
    ((block.updated n).head t).contentLength =
      if ∃ line ∈ Lib.Utf8.lines (fromUtf8Lossy block.bytes), IsLengthLine line then some n
      else none := by
  have hscan : ∀ line ∈ (block.updated n).lines.map (· ++ [10]), HasField contentLengthField line →
      ∀ len, scanContentLength t (fromUtf8Lossy line) len = some n := by
    intro line hline hfield len
    obtain ⟨l, hl, rfl⟩ := List.mem_map.mp hline
    obtain ⟨o, ho, rfl⟩ := List.mem_map.mp hl
    have ho' : HasField contentLengthField o := (updatedLine_length_iff n o).mp
      ((hasField_feed_iff fieldName_contentLength _).mp hfield)
    obtain ⟨m, hvalue, hm⟩ := updatedLine_hasField n ho'
    rw [hm, m.scan, hvalue, if_pos hn]
  have hlines : (∃ line ∈ (block.updated n).lines.map (· ++ [10]),
      HasField contentLengthField line) ↔
        ∃ line ∈ Lib.Utf8.lines (fromUtf8Lossy block.bytes), IsLengthLine line := by
    rw [block.exists_lengthLine_iff]
    simp only [updated, List.mem_map, exists_exists_and_eq_and,
      hasField_feed_iff fieldName_contentLength, updatedLine_length_iff]
  rw [head, contentLength_foldl, rawLines, List.foldl_append, foldl_lengthLines hscan,
    List.foldl_cons, scanContentLength_other blank_not_contentLength, List.foldl_nil]
  simp only [hlines]
  rfl

theorem updated_needsRewrite (n : Nat) :
    ((block.updated n).head t).needsRewrite = (block.head t).needsRewrite := by
  rw [Head.needsRewrite, Head.needsRewrite, headerBuf_head, headerBuf_head,
    ← block.asBytes_updateContentLength, fromUtf8Lossy_asBytes,
    shouldRewriteContent_updateContentLength]

end HeaderBlock

/-- **The update agrees with the scan.** -/
theorem updateContentLength_rescan (t : Target) (block : HeaderBlock) {n : Nat}
    (hn : n < 2 ^ t.bits) (m : Nat) :
    let headers := fromUtf8Lossy block.bytes
    let updated := updateContentLength headers n
    (∃ head : Head, (∀ rest closed, readHead t (Stream.mk (asBytes updated ++ rest) closed) =
        ⟨.ok (some head), ⟨rest, closed⟩, []⟩) ∧
      head.headerBuf = asBytes updated ∧
      head.contentLength = (if ∃ line ∈ lines headers, IsLengthLine line then some n else none) ∧
      head.isChunked = (block.head t).isChunked ∧
      head.needsRewrite = (block.head t).needsRewrite) ∧
    (lines updated).length = (lines headers).length ∧
    (∀ (i : Nat) (line : Str), (lines headers)[i]? = some line → ¬ IsLengthLine line →
      (lines updated)[i]? = some line) ∧
    updateContentLength updated m = updateContentLength headers m := by
  intro headers updated
  have hbytes : asBytes updated = (block.updated n).bytes := block.asBytes_updateContentLength n
  have hlines : lines updated = (lines headers).map (copied n) := lines_updateContentLength headers n
  refine ⟨⟨(block.updated n).head t, ?_, ?_, ?_, ?_, ?_⟩, ?_, ?_, ?_⟩
  · intro rest closed
    rw [hbytes]
    exact readHead_block t (block.updated n) rest closed
  · rw [hbytes, HeaderBlock.headerBuf_head]
  · exact block.updated_contentLength hn
  · exact block.updated_isChunked n
  · exact block.updated_needsRewrite n
  · rw [hlines, List.length_map]
  · intro i line hline hother
    rw [hlines, List.getElem?_map, hline, Option.map_some, copied, if_neg hother]
  · exact updateContentLength_twice headers n m

end Scan

theorem feed_blank : isBlankLine [10] = true := by decide

/-- LF-only lines, a carriage return inside a line, bytes that are no text and two
Content-Length lines. -/
def mixedBlock : HeaderBlock where
  lines := [asBytes "HTTP/1.1 200 OK".toList, asBytes "Content-Length: 5".toList, [0xFF, 13, 0x41, 13],
    asBytes "content-length: ten\r".toList]
  blank := [10]
  feedless := by decide
  nonblank := by decide
  ends := feed_blank

theorem updateContentLength_rescan_mixed :
    let headers := fromUtf8Lossy mixedBlock.bytes
    let updated := updateContentLength headers 7
    (∃ head : Head, (∀ rest closed, readHead release64 (Stream.mk (asBytes updated ++ rest) closed) =
        ⟨.ok (some head), ⟨rest, closed⟩, []⟩) ∧
      head.headerBuf = asBytes updated ∧
      head.contentLength = (if ∃ line ∈ lines headers, IsLengthLine line then some 7 else none) ∧
      head.isChunked = (mixedBlock.head release64).isChunked ∧
      head.needsRewrite = (mixedBlock.head release64).needsRewrite) ∧
    (lines updated).length = (lines headers).length ∧
    (∀ (i : Nat) (line : Str), (lines headers)[i]? = some line → ¬ IsLengthLine line →
      (lines updated)[i]? = some line) ∧
    updateContentLength updated 3 = updateContentLength headers 3 :=
  updateContentLength_rescan release64 mixedBlock (show 7 < 2 ^ 64 by decide) 3

end DlnaProxy.TcpProxy
