import DlnaProxy.TcpProxy.Header

/-!
# How a header block frames its body

Header lines and framings in bytes, and what the scan makes of them. A block is
`LengthFramed` if one line is a valid Content-Length line and no other line is a
Content-Length or Transfer-Encoding line, and `ChunkFramed` if a Transfer-Encoding
line says chunked and no line is a Content-Length line.
-/
namespace DlnaProxy.TcpProxy

open DlnaProxy.Lib.ByteIo DlnaProxy.Lib.Utf8

/-- `line` starts with `name`, colon included, in any case. -/
def HasField (name : Str) (line : List UInt8) : Prop := asBytes name <+: line.map asciiLower

instance (name : Str) (line : List UInt8) : Decidable (HasField name line) :=
  inferInstanceAs (Decidable (asBytes name <+: line.map asciiLower))

/-- A field name for which Unicode and ASCII lower case agree. -/
structure FieldName (name : Str) : Prop where
  ascii : ∀ c ∈ name, Ascii c ∧ c ≠ 'k'
  last : name.getLast? ≠ some 'i'
  feedless : 10 ∉ asBytes name
  crless : '\r' ∉ name

def contentLengthField : Str := "content-length:".toList

def transferEncodingField : Str := "transfer-encoding:".toList

theorem fieldName_contentLength : FieldName contentLengthField := ⟨by decide, by decide, by decide, by decide⟩

theorem fieldName_transferEncoding : FieldName transferEncodingField :=
  ⟨by decide, by decide, by decide, by decide⟩

section Fields

variable {name : Str} (hname : FieldName name)

include hname

/-- The scan's test of a line, on its lossy text, is a test of its bytes. -/
theorem startsWith_lossy_iff (line : List UInt8) :
    startsWith (toLowercase (fromUtf8Lossy line)) name = true ↔ HasField name line := by
  rw [startsWith_iff, prefix_toLowercase_iff hname.ascii hname.last, HasField,
    prefix_lower_lossy_iff fun c hc => (hname.ascii c hc).1]

theorem hasField_feed_iff (line : List UInt8) :
    HasField name (line ++ [10]) ↔ HasField name line := by
  rw [HasField, List.map_append, HasField]
  exact prefix_append_singleton_iff hname.feedless

theorem hasField_lossy_iff (line : List UInt8) :
    HasField name (asBytes (fromUtf8Lossy line)) ↔ HasField name line := by
  rw [← startsWith_lossy_iff hname, fromUtf8Lossy_asBytes, startsWith_lossy_iff hname]

/-- A carriage return at the end of a line is not part of a name. -/
theorem startsWith_cr_iff (s : Str) : startsWith (toLowercase (s ++ ['\r'])) name = true ↔
    startsWith (toLowercase s) name = true := by
  have hcr : Char.toLower '\r' = '\r' := by decide
  rw [startsWith_iff, startsWith_iff, prefix_toLowercase_iff hname.ascii hname.last,
    prefix_toLowercase_iff hname.ascii hname.last, List.map_append, List.map_singleton, hcr]
  exact prefix_append_singleton_iff hname.crless

theorem startsWith_stripLast_iff (s : Str) :
    startsWith (toLowercase (stripLast '\r' s)) name = true ↔
      startsWith (toLowercase s) name = true := by
  rcases stripLast_cases '\r' s with h | ⟨h, _⟩
  · rw [← startsWith_cr_iff hname (stripLast '\r' s), ← h]
  · rw [← h]

theorem not_hasField_blank {blank : List UInt8} (hb : isBlankLine blank = true)
    (hne : name ≠ []) (hcr : 13 ∉ asBytes name) : ¬ HasField name blank := by
  intro h
  have hb' : blank = crlf ∨ blank = [10] := by simpa [isBlankLine] using hb
  have hmem : ∀ b ∈ asBytes name, b = 13 ∨ b = 10 := by
    intro b hbm
    have hmap := h.subset hbm
    rcases hb' with rfl | rfl
    · simpa [crlf, asciiLower] using hmap
    · exact Or.inr (by simpa [asciiLower] using hmap)
  obtain ⟨b, bytes, hcons⟩ := List.exists_cons_of_ne_nil (asBytes_ne_nil hne)
  have hin : b ∈ asBytes name := by simp [hcons]
  rcases hmem b hin with rfl | rfl
  · exact hcr hin
  · exact hname.feedless hin

end Fields

theorem not_hasField_both {line : List UInt8} (h : HasField contentLengthField line) :
    ¬ HasField transferEncodingField line := by
  obtain ⟨u, hu⟩ := h
  rintro ⟨v, hv⟩
  have hc : asBytes contentLengthField = 99 :: (asBytes contentLengthField).tail := by decide
  have ht : asBytes transferEncodingField = 116 :: (asBytes transferEncodingField).tail := by decide
  rw [hc] at hu
  rw [ht, ← hu] at hv
  exact absurd (List.cons.inj hv).1 (by decide)

/-! ## Content-Length lines -/

theorem scanContentLength_other {line : List UInt8} (h : ¬ HasField contentLengthField line)
    (t : Target) (len : Option Nat) : scanContentLength t (fromUtf8Lossy line) len = len := by
  have hs := mt (startsWith_lossy_iff fieldName_contentLength line).mp h
  exact if_neg hs

theorem scanIsChunked_other {line : List UInt8} (h : ¬ HasField transferEncodingField line) :
    scanIsChunked (fromUtf8Lossy line) = false := by
  have hs := mt (startsWith_lossy_iff fieldName_transferEncoding line).mp h
  rw [scanIsChunked, Bool.and_eq_false_iff]
  exact Or.inl (Bool.eq_false_iff.mpr hs)

/-- A valid Content-Length line: the name in any case, a colon, and a decimal
number between blanks. -/
structure LengthLine where
  name : Str
  before : Str
  number : Numeral 10
  after : Str
  cr : Str
  name_eq : name.map Char.toLower = "content-length".toList
  before_blank : ∀ c ∈ before, c = ' ' ∨ c = '\t'
  after_blank : ∀ c ∈ after, c = ' ' ∨ c = '\t'
  cr_eq : cr = [] ∨ cr = ['\r']

namespace LengthLine

variable (line : LengthLine)

def text : Str := line.name ++ ':' :: (line.before ++ line.number.text ++ (line.after ++ line.cr))

def bytes : List UInt8 := asBytes line.text

def value : Nat := line.number.value

theorem not_colon_name : ':' ∉ line.name := by
  intro h
  have hm := List.mem_map_of_mem (f := Char.toLower) h
  rw [line.name_eq] at hm
  exact absurd hm (by decide)

theorem before_whitespace : ∀ c ∈ line.before, isWhitespace c = true := by
  intro c hc
  rcases line.before_blank c hc with rfl | rfl <;> decide

/-- What follows the number, up to and including the line feed. -/
theorem after_whitespace : ∀ c ∈ line.after ++ line.cr ++ ['\n'], isWhitespace c = true := by
  intro c hc
  rw [List.mem_append, List.mem_append] at hc
  rcases hc with (hc | hc) | hc
  · rcases line.after_blank c hc with rfl | rfl <;> decide
  · rcases line.cr_eq with h | h <;> rw [h] at hc
    · cases hc
    · rw [List.mem_singleton.mp hc]
      decide
  · rw [List.mem_singleton.mp hc]
    decide

theorem whitespace_ne_colon {c : Char} (h : isWhitespace c = true) : c ≠ ':' := by
  rintro rfl
  exact absurd h (by decide)

theorem hasField_bytes : HasField contentLengthField line.bytes := by
  rw [← startsWith_lossy_iff fieldName_contentLength, bytes, fromUtf8Lossy_asBytes, startsWith_iff,
    prefix_toLowercase_iff fieldName_contentLength.ascii fieldName_contentLength.last]
  have hcolon : Char.toLower ':' = ':' := by decide
  have htext : line.text.map Char.toLower = contentLengthField ++
      (line.before ++ line.number.text ++ (line.after ++ line.cr)).map Char.toLower := by
    rw [text, List.map_append, List.map_cons, line.name_eq, hcolon]
    rfl
  exact ⟨_, htext.symm⟩

/-- The scan parses the number of a valid Content-Length line. -/
theorem scan_eq (t : Target) (len : Option Nat) :
    scanContentLength t (fromUtf8Lossy (line.bytes ++ [10])) len =
      (fromStrRadix t.bits 10 line.number.text).toOption := by
  have hstart := (startsWith_lossy_iff fieldName_contentLength (line.bytes ++ [10])).mpr
    ((hasField_feed_iff fieldName_contentLength _).mpr line.hasField_bytes)
  have htext : fromUtf8Lossy (line.bytes ++ [10]) = line.name ++ ':' ::
      (line.before ++ line.number.text ++ (line.after ++ line.cr ++ ['\n'])) := by
    rw [fromUtf8Lossy_feed, bytes, fromUtf8Lossy_asBytes, text]
    simp
  have hcolon : ':' ∉ line.before ++ line.number.text ++ (line.after ++ line.cr ++ ['\n']) := by
    rw [List.mem_append, List.mem_append, not_or, not_or]
    refine ⟨⟨?_, ?_⟩, ?_⟩
    · exact fun h => whitespace_ne_colon (line.before_whitespace _ h) rfl
    · exact fun h => (line.number.alphaNum _ h).ne (by decide) rfl
    · exact fun h => whitespace_ne_colon (line.after_whitespace _ h) rfl
  have htrim : trim (line.before ++ line.number.text ++ (line.after ++ line.cr ++ ['\n'])) =
      line.number.text :=
    trim_pad line.before_whitespace line.after_whitespace
      (fun c hc => (line.number.alphaNum c hc).not_whitespace) line.number.nonempty
  apply (if_pos hstart).trans
  rw [htext, splitOn_append line.not_colon_name, splitOn_of_not_mem hcolon]
  show (fromStrRadix t.bits 10 (trim _)).toOption = _
  rw [htrim]

/-- **It finds the value of a number that fits**, and else nothing. -/
theorem scan (t : Target) (len : Option Nat) :
    scanContentLength t (fromUtf8Lossy (line.bytes ++ [10])) len =
      if line.value < 2 ^ t.bits then some line.value else none := by
  rw [line.scan_eq]
  split
  · next hfit =>
    rw [line.number.read (by decide) hfit]
    rfl
  · next hfit =>
    obtain ⟨e, hread⟩ := line.number.read_error (by decide) hfit
    rw [hread]
    rfl

end LengthLine

/-! ## Framings -/

namespace HeaderBlock

variable (block : HeaderBlock) (t : Target)

/-- The body is the next `n` bytes. -/
structure LengthFramed (n : Nat) : Prop where
  length_line : ∃ before line after, block.lines = before ++ LengthLine.bytes line :: after ∧
    line.value = n ∧ ∀ other ∈ before ++ after, ¬ HasField contentLengthField other
  no_encoding : ∀ line ∈ block.lines, ¬ HasField transferEncodingField line

/-- The body is chunked. -/
structure ChunkFramed : Prop where
  encoding_line : ∃ line ∈ block.lines, HasField transferEncodingField line ∧
    asBytes "chunked".toList <:+: line.map asciiLower
  no_length : ∀ line ∈ block.lines, ¬ HasField contentLengthField line

variable {block t}

theorem foldl_other {lines : List (List UInt8)}
    (h : ∀ line ∈ lines, ¬ HasField contentLengthField line) (len : Option Nat) :
    lines.foldl (fun len line => scanContentLength t (fromUtf8Lossy line) len) len = len := by
  induction lines generalizing len with
  | nil => rfl
  | cons line lines ih =>
    rw [List.foldl_cons, scanContentLength_other (h line (by simp))]
    exact ih (fun l hl => h l (by simp [hl])) len

theorem not_hasField_feed {lines : List (List UInt8)} {name : Str} (hname : FieldName name)
    (h : ∀ line ∈ lines, ¬ HasField name line) :
    ∀ line ∈ lines.map (· ++ [10]), ¬ HasField name line := by
  intro line hline
  obtain ⟨l, hl, rfl⟩ := List.mem_map.mp hline
  exact fun hf => h l hl ((hasField_feed_iff hname l).mp hf)

theorem blank_not_contentLength : ¬ HasField contentLengthField block.blank :=
  not_hasField_blank fieldName_contentLength block.ends (by decide) (by decide)

theorem blank_not_transferEncoding : ¬ HasField transferEncodingField block.blank :=
  not_hasField_blank fieldName_transferEncoding block.ends (by decide) (by decide)

theorem contentLength_none (h : ∀ line ∈ block.lines, ¬ HasField contentLengthField line) :
    (block.head t).contentLength = none := by
  rw [head, contentLength_foldl, rawLines, List.foldl_append,
    foldl_other (not_hasField_feed fieldName_contentLength h)]
  exact scanContentLength_other blank_not_contentLength t none

theorem isChunked_false (h : ∀ line ∈ block.lines, ¬ HasField transferEncodingField line) :
    (block.head t).isChunked = false := by
  rw [head, isChunked_foldl, rawLines, Head.empty, Bool.false_or, List.any_eq_false]
  intro line hl
  rw [Bool.not_eq_true]
  apply scanIsChunked_other
  rcases List.mem_append.mp hl with hl | hl
  · exact not_hasField_feed fieldName_transferEncoding h line hl
  · rw [List.mem_singleton.mp hl]
    exact blank_not_transferEncoding

theorem LengthFramed.contentLength_eq {n : Nat} (h : block.LengthFramed n) :
    (block.head t).contentLength = if n < 2 ^ t.bits then some n else none := by
  obtain ⟨before, line, after, hlines, rfl, hothers⟩ := h.length_line
  have hbefore := not_hasField_feed fieldName_contentLength fun l hl =>
    hothers l (List.mem_append_left after hl)
  have hafter := not_hasField_feed fieldName_contentLength fun l hl =>
    hothers l (List.mem_append_right before hl)
  rw [head, contentLength_foldl, rawLines, hlines, List.map_append, List.map_cons,
    List.append_assoc, List.cons_append, List.foldl_append, foldl_other hbefore, List.foldl_cons,
    line.scan, List.foldl_append, foldl_other hafter]
  exact scanContentLength_other blank_not_contentLength t _

theorem LengthFramed.contentLength {n : Nat} (h : block.LengthFramed n) (hfit : n < 2 ^ t.bits) :
    (block.head t).contentLength = some n := by
  rw [h.contentLength_eq, if_pos hfit]

theorem LengthFramed.isChunked {n : Nat} (h : block.LengthFramed n) :
    (block.head t).isChunked = false := isChunked_false h.no_encoding

theorem ChunkFramed.contentLength (h : block.ChunkFramed) : (block.head t).contentLength = none :=
  contentLength_none h.no_length

theorem ChunkFramed.isChunked (h : block.ChunkFramed) : (block.head t).isChunked = true := by
  obtain ⟨line, hl, hfield, hchunked⟩ := h.encoding_line
  rw [head, isChunked_foldl, Head.empty, Bool.false_or, List.any_eq_true]
  refine ⟨line ++ [10], List.mem_append_left _ (List.mem_map_of_mem hl), ?_⟩
  have hstart := (startsWith_lossy_iff fieldName_transferEncoding (line ++ [10])).mpr
    ((hasField_feed_iff fieldName_transferEncoding line).mpr hfield)
  rw [scanIsChunked, Bool.and_eq_true]
  refine ⟨hstart, contains_iff.mpr ?_⟩
  apply infix_toLowercase_lossy (by decide) (by decide)
  rw [List.map_append]
  exact hchunked.trans (List.prefix_append _ _).isInfix

end HeaderBlock

end DlnaProxy.TcpProxy
