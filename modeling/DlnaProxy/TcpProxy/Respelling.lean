import DlnaProxy.Lib.Keyed
import DlnaProxy.TcpProxy.Rescan

/-!
# Header order, case and spacing

A `FieldBlock` is a status line and fields with distinct names. Each of the three
matchers of the header loop reads one field of it, the one of its name, and of that
field the value between its blanks. Blocks that spell these fields alike are
handled alike.
-/
namespace DlnaProxy.TcpProxy

open DlnaProxy.Lib DlnaProxy.Lib.ByteIo DlnaProxy.Lib.Utf8

/-! ## What the matchers read of a line -/

theorem IsPad.append {a b : Str} (ha : IsPad a) (hb : IsPad b) : IsPad (a ++ b) := by
  intro c hc
  exact (List.mem_append.mp hc).elim (ha c) (hb c)

theorem IsPad.ascii {pad : Str} (h : IsPad pad) : AllAscii pad :=
  fun c hc => (padChars_caseless c (h c hc)).1

theorem IsPad.whitespace {pad : Str} (h : IsPad pad) : ∀ c ∈ pad, isWhitespace c := by
  have hall : ∀ c ∈ padChars, isWhitespace c := by decide
  exact fun c hc => hall c (h c hc)

theorem lossy_pad {pad : Str} (h : IsPad pad) (bytes : List UInt8) :
    fromUtf8Lossy (bytes ++ asBytes pad) = fromUtf8Lossy bytes ++ pad := by
  by_cases hnil : pad = []
  · rw [hnil, asBytes_nil, List.append_nil, List.append_nil]
  · have hsplit := fromUtf8Lossy_ascii_append (asBytes_ascii_le h.ascii) (asBytes_ne_nil hnil) bytes []
    rwa [List.append_nil, fromUtf8Lossy_asBytes, fromUtf8Lossy_nil, List.append_nil] at hsplit

/-- The text between the first two colons, trimmed. -/
def fieldPart (line : Str) : Option Str := (line.splitOn ':')[1]?.map trim

/-- The part of a value that is read. -/
def valuePart (value : Str) : Str := trim (value.takeWhile fun c => decide (c ≠ ':'))

theorem fieldPart_value {name a b : Str} (hname : ':' ∉ name) (ha : IsPad a) (hb : IsPad b)
    (value : Str) : fieldPart (name ++ ':' :: (a ++ (value ++ b))) = some (valuePart value) := by
  rw [fieldPart, splitOn_second hname, Option.map_some,
    trim_takeWhile_pad (by decide) ha.whitespace hb.whitespace]
  rfl

theorem fieldPart_pad {pad : Str} (h : IsPad pad) (s : Str) : fieldPart (s ++ pad) = fieldPart s := by
  have hcolon : ':' ∉ pad := fun hm => absurd (h ':' hm) (by decide)
  by_cases hm : ':' ∈ s
  · obtain ⟨name, rest, rfl, hname⟩ := List.eq_append_cons_of_mem hm
    have hrest := fieldPart_value hname (a := []) (by decide) h rest
    have hnone := fieldPart_value hname (a := []) (b := []) (by decide) (by decide) rest
    rw [List.append_nil] at hnone
    rw [List.append_assoc, List.cons_append]
    exact hrest.trans hnone.symm
  · rw [fieldPart, fieldPart, splitOn_second_none hm, splitOn_second_none]
    rw [List.mem_append, not_or]
    exact ⟨hm, hcolon⟩

theorem scanContentLength_eq (t : Target) (s : Str) (len : Option Nat) :
    scanContentLength t s len =
      if startsWith (toLowercase s) contentLengthField then
        (fieldPart s).elim len fun part => (fromStrRadix t.bits 10 part).toOption
      else len := by
  unfold scanContentLength fieldPart
  cases (s.splitOn ':')[1]? <;> rfl

/-- What a content type says about rewriting. -/
def rewritesPart (contentType : Str) : Bool :=
  startsWith contentType "text/".toList || contains contentType "xml".toList ||
    contains contentType "json".toList || contains contentType "html".toList

theorem rewritesType_eq (line : Str) : rewritesType line = rewritesPart ((fieldPart line).getD []) := by
  unfold rewritesType fieldPart
  cases (line.splitOn ':')[1]? <;> rfl

section Pad

variable {pad : Str} (h : IsPad pad)

include h

theorem scanContentLength_pad (t : Target) (s : Str) (len : Option Nat) :
    scanContentLength t (s ++ pad) len = scanContentLength t s len := by
  rw [scanContentLength_eq, scanContentLength_eq, startsWith_pad h (by decide), fieldPart_pad h]

theorem rewritesType_pad (s : Str) :
    rewritesType (toLowercase (s ++ pad)) = rewritesType (toLowercase s) := by
  rw [rewritesType_eq, rewritesType_eq, toLowercase_append, toLowercase_pad h, fieldPart_pad h]

end Pad

/-! ## Fields -/

/-- A visible ASCII character other than the colon. -/
def IsNameChar (c : Char) : Prop := 0x21 ≤ c.toNat ∧ c.toNat ≤ 0x7E ∧ c ≠ ':'

instance (c : Char) : Decidable (IsNameChar c) := instDecidableAnd

theorem IsNameChar.ascii {c : Char} (h : IsNameChar c) : Ascii c := by
  have hle := h.2.1
  rw [Ascii]
  omega

/-- The carriage return before a line feed. -/
def returnOf (crlf : Bool) : Str := if crlf then ['\r'] else []

theorem returnOf_pad (crlf : Bool) : IsPad (returnOf crlf) := by
  cases crlf <;> decide

theorem feedless_asBytes {s : Str} (h : '\n' ∉ s) : 10 ∉ asBytes s :=
  mt (mem_asBytes_iff (show Ascii '\n' by decide) s).mp h

theorem feedless_returnOf (crlf : Bool) : 10 ∉ asBytes (returnOf crlf) := by
  cases crlf <;> decide

/-- A field as it is spelled on its line. -/
structure HeaderField where
  name : Str
  before : Str
  value : List UInt8
  after : Str
  crlf : Bool
  name_ne : name ≠ []
  name_chars : ∀ c ∈ name, IsNameChar c
  before_blank : ∀ c ∈ before, c = ' ' ∨ c = '\t'
  after_blank : ∀ c ∈ after, c = ' ' ∨ c = '\t'
  feedless : 10 ∉ value

theorem isPad_blank {s : Str} (h : ∀ c ∈ s, c = ' ' ∨ c = '\t') : IsPad s := by
  intro c hc
  rcases h c hc with rfl | rfl <;> decide

namespace HeaderField

variable (field : HeaderField)

/-- The name, as names are compared. -/
def key : Str := field.name.map Char.toLower

/-- The line without its line feed. -/
def line : List UInt8 :=
  asBytes (field.name ++ ':' :: field.before) ++
    (field.value ++ asBytes (field.after ++ returnOf field.crlf))

theorem colon_not_mem_name : ':' ∉ field.name := fun h => (field.name_chars ':' h).2.2 rfl

theorem toLowercase_name : toLowercase field.name = field.key :=
  toLowercase_ascii fun c hc => (field.name_chars c hc).ascii

theorem colon_not_mem_key : ':' ∉ field.key := by
  rw [← toLowercase_name, mem_toLowercase_iff caseless_colon]
  exact field.colon_not_mem_name

/-- The line as text, with whatever ends it. -/
theorem lossy_line {pad : Str} (h : IsPad pad) : ∃ a b : Str, IsPad a ∧ IsPad b ∧
    fromUtf8Lossy (field.line ++ asBytes pad) =
      field.name ++ ':' :: (a ++ (fromUtf8Lossy field.value ++ b)) := by
  have hpad : IsPad (field.after ++ returnOf field.crlf ++ pad) :=
    ((isPad_blank field.after_blank).append (returnOf_pad field.crlf)).append h
  refine ⟨_, _, isPad_blank field.before_blank, hpad, ?_⟩
  rw [line, List.append_assoc, List.append_assoc, ← asBytes_append, fromUtf8Lossy_encode_append,
    lossy_pad hpad]
  simp

theorem line_feedless : 10 ∉ field.line := by
  have hname : '\n' ∉ field.name := fun h => absurd (field.name_chars _ h).1 (by decide)
  have hblank {s : Str} (h : ∀ c ∈ s, c = ' ' ∨ c = '\t') : '\n' ∉ s :=
    fun hm => absurd (h _ hm) (by decide)
  have hstart : '\n' ∉ field.name ++ ':' :: field.before := by
    rw [List.mem_append, List.mem_cons, not_or, not_or]
    exact ⟨hname, by decide, hblank field.before_blank⟩
  rw [line, asBytes_append field.after, List.mem_append, List.mem_append, List.mem_append, not_or,
    not_or, not_or]
  exact ⟨feedless_asBytes hstart, field.feedless, feedless_asBytes (hblank field.after_blank),
    feedless_returnOf field.crlf⟩

theorem line_nonblank : isBlankLine (field.line ++ [10]) = false := by
  have hcolon : ':'.toUInt8 ∈ field.line := by
    rw [line, List.mem_append]
    exact Or.inl ((mem_asBytes_iff (by decide) _).mpr (by simp))
  apply not_blank_of_ne <;> intro hb <;> rw [hb] at hcolon <;> exact absurd hcolon (by decide)

variable {pad : Str} (h : IsPad pad)

include h

/-- A matcher's test of the line is a test of its name. -/
theorem startsWith_line {key : Str} (hkey : ':' ∉ key) :
    startsWith (toLowercase (fromUtf8Lossy (field.line ++ asBytes pad))) (key ++ [':']) =
      decide (field.key = key) := by
  obtain ⟨a, b, _, _, htext⟩ := field.lossy_line h
  rw [htext, toLowercase_append, toLowercase_cons, lowerChar_caseless caseless_colon,
    field.toLowercase_name, Bool.eq_iff_iff, startsWith_iff, decide_eq_true_eq,
    List.singleton_append, prefix_separator_iff hkey field.colon_not_mem_key]
  exact eq_comm

theorem fieldPart_line : fieldPart (fromUtf8Lossy (field.line ++ asBytes pad)) =
    some (valuePart (fromUtf8Lossy field.value)) := by
  obtain ⟨a, b, ha, hb, htext⟩ := field.lossy_line h
  rw [htext, fieldPart_value field.colon_not_mem_name ha hb]

theorem fieldPart_toLowercase_line :
    fieldPart (toLowercase (fromUtf8Lossy (field.line ++ asBytes pad))) =
      some (valuePart (toLowercase (fromUtf8Lossy field.value))) := by
  obtain ⟨a, b, ha, hb, htext⟩ := field.lossy_line h
  rw [htext, toLowercase_append, toLowercase_cons, lowerChar_caseless caseless_colon,
    field.toLowercase_name, toLowercase_append, toLowercase_append, toLowercase_pad ha,
    toLowercase_pad hb]
  exact fieldPart_value field.colon_not_mem_key ha hb _

theorem contains_line {p : Str} (hp : p ≠ []) (hpad : ∀ c ∈ padChars, c ∉ p) (hcolon : ':' ∉ p) :
    contains (toLowercase (fromUtf8Lossy (field.line ++ asBytes pad))) p =
      (contains field.key p || contains (toLowercase (fromUtf8Lossy field.value)) p) := by
  obtain ⟨a, b, ha, hb, htext⟩ := field.lossy_line h
  rw [htext, toLowercase_append, toLowercase_cons, lowerChar_caseless caseless_colon,
    field.toLowercase_name, toLowercase_append, toLowercase_append, toLowercase_pad ha,
    toLowercase_pad hb, Bool.eq_iff_iff, Bool.or_eq_true, contains_iff, contains_iff, contains_iff,
    List.singleton_append, infix_append_cons_iff hcolon,
    infix_append_left_iff hp (fun c hc => hpad c (ha c hc)),
    infix_append_right_iff hp fun c hc => hpad c (hb c hc)]

theorem scanContentLength_line (t : Target) (len : Option Nat) :
    scanContentLength t (fromUtf8Lossy (field.line ++ asBytes pad)) len =
      if field.key = "content-length".toList then
        (fromStrRadix t.bits 10 (valuePart (fromUtf8Lossy field.value))).toOption
      else len := by
  have hname : contentLengthField = "content-length".toList ++ [':'] := by decide
  rw [scanContentLength_eq, hname, field.startsWith_line h (by decide), field.fieldPart_line h]
  simp only [decide_eq_true_eq]
  rfl

theorem scanIsChunked_line : scanIsChunked (fromUtf8Lossy (field.line ++ asBytes pad)) =
    (decide (field.key = "transfer-encoding".toList) &&
      contains (toLowercase (fromUtf8Lossy field.value)) "chunked".toList) := by
  have hname : "transfer-encoding:".toList = "transfer-encoding".toList ++ [':'] := by decide
  rw [scanIsChunked, hname, field.startsWith_line h (by decide),
    field.contains_line h (by decide) (by decide) (by decide)]
  by_cases hkey : field.key = "transfer-encoding".toList
  · have hnone : contains field.key "chunked".toList = false := by
      rw [hkey]
      decide
    rw [hnone, Bool.false_or]
  · rw [decide_eq_false hkey, Bool.false_and, Bool.false_and]

omit h in
/-- The same of the line alone. -/
theorem startsWith_contentType : startsWith (toLowercase (fromUtf8Lossy field.line)) contentTypeField =
    decide (field.key = "content-type".toList) := by
  have hname : contentTypeField = "content-type".toList ++ [':'] := by decide
  have hline := field.startsWith_line isPad_nil (show ':' ∉ "content-type".toList by decide)
  rwa [asBytes_nil, List.append_nil, ← hname] at hline

omit h in
theorem rewritesType_line : rewritesType (toLowercase (fromUtf8Lossy field.line)) =
    rewritesPart (valuePart (toLowercase (fromUtf8Lossy field.value))) := by
  have hpart := field.fieldPart_toLowercase_line isPad_nil
  rw [asBytes_nil, List.append_nil] at hpart
  rw [rewritesType_eq, hpart]
  rfl

end HeaderField

/-! ## Blocks of fields -/

/-- A status line and fields with distinct names. -/
structure FieldBlock where
  status : List UInt8
  statusCrlf : Bool
  fields : List HeaderField
  blank : List UInt8
  status_feedless : 10 ∉ status
  status_ne_nil : status ≠ []
  status_ne_return : status ≠ [13]
  distinct : (fields.map HeaderField.key).Nodup
  ends : isBlankLine blank = true

namespace FieldBlock

variable (b : FieldBlock)

def statusLine : List UInt8 := b.status ++ asBytes (returnOf b.statusCrlf)

theorem statusLine_nonblank : isBlankLine (b.statusLine ++ [10]) = false := by
  apply not_blank_of_ne
  · exact List.append_ne_nil_of_left_ne_nil b.status_ne_nil _
  · intro hb
    cases hcrlf : b.statusCrlf with
    | false =>
      rw [statusLine, hcrlf] at hb
      exact b.status_ne_return ((List.append_nil _).symm.trans hb)
    | true =>
      rw [statusLine, hcrlf] at hb
      exact b.status_ne_nil (List.append_inj_left' (show _ ++ _ = [] ++ [13] from hb) rfl)

/-- The header block the fields stand in. -/
def block : HeaderBlock where
  lines := b.statusLine :: b.fields.map HeaderField.line
  blank := b.blank
  feedless := by
    intro line hline
    rcases List.mem_cons.mp hline with rfl | hline
    · rw [statusLine, List.mem_append, not_or]
      exact ⟨b.status_feedless, feedless_returnOf b.statusCrlf⟩
    · obtain ⟨field, _, rfl⟩ := List.mem_map.mp hline
      exact field.line_feedless
  nonblank := by
    intro line hline
    rcases List.mem_cons.mp hline with rfl | hline
    · exact b.statusLine_nonblank
    · obtain ⟨field, _, rfl⟩ := List.mem_map.mp hline
      exact field.line_nonblank
  ends := b.ends

/-- The field of a name. -/
def field (key : Str) : Option HeaderField := Keyed.first HeaderField.key key b.fields

variable (t : Target)

theorem rawLines_block : b.block.rawLines = (b.status ++ asBytes (returnOf b.statusCrlf ++ ['\n'])) ::
    (b.fields.map fun field => field.line ++ asBytes ['\n']) ++ [b.blank] := by
  have hfeed : asBytes ['\n'] = [10] := by decide
  rw [HeaderBlock.rawLines, hfeed, asBytes_append, hfeed, ← List.append_assoc]
  show (b.statusLine :: b.fields.map HeaderField.line).map (· ++ [10]) ++ _ = _
  rw [List.map_cons, List.map_map]
  rfl

/-- **The last Content-Length line is the one of that name.** -/
theorem contentLength : (b.block.head t).contentLength =
    (b.field "content-length".toList).elim (scanContentLength t (fromUtf8Lossy b.status) none)
      fun field => (fromStrRadix t.bits 10 (valuePart (fromUtf8Lossy field.value))).toOption := by
  have hstatus : IsPad (returnOf b.statusCrlf ++ ['\n']) := (returnOf_pad _).append isPad_feed
  have hblank := scanContentLength_other b.block.blank_not_contentLength t
  rw [HeaderBlock.head, contentLength_foldl, rawLines_block, List.cons_append, List.foldl_cons,
    List.foldl_append, List.foldl_cons, List.foldl_nil, List.foldl_map, lossy_pad hstatus,
    scanContentLength_pad hstatus]
  refine (hblank _).trans ?_
  simp only [HeaderField.scanContentLength_line _ isPad_feed]
  exact Keyed.foldl_first b.distinct _ _

/-- Chunked is said by the status line or by the line of that name. -/
theorem isChunked : (b.block.head t).isChunked = (scanIsChunked (fromUtf8Lossy b.status) ||
    (b.field "transfer-encoding".toList).any fun field =>
      contains (toLowercase (fromUtf8Lossy field.value)) "chunked".toList) := by
  have hstatus : IsPad (returnOf b.statusCrlf ++ ['\n']) := (returnOf_pad _).append isPad_feed
  have hblank := scanIsChunked_other b.block.blank_not_transferEncoding
  rw [HeaderBlock.head, isChunked_foldl, rawLines_block, List.cons_append, List.any_cons,
    List.any_append, List.any_map, lossy_pad hstatus, scanIsChunked_pad hstatus]
  have hfields : b.fields.any ((fun line => scanIsChunked (fromUtf8Lossy line)) ∘
      fun field => field.line ++ asBytes ['\n']) = (b.field "transfer-encoding".toList).any
        fun field => contains (toLowercase (fromUtf8Lossy field.value)) "chunked".toList := by
    rw [field, ← Keyed.any_first b.distinct]
    congr 1
    funext field
    exact field.scanIsChunked_line isPad_feed
  have hlast : [b.blank].any (fun line => scanIsChunked (fromUtf8Lossy line)) = false := by
    rw [List.any_cons, List.any_nil, Bool.or_false]
    exact hblank
  rw [hfields, hlast, Bool.or_false]
  rfl

theorem startsWith_contentType_stripLast (s : Str) :
    startsWith (toLowercase (stripLast '\r' s)) contentTypeField =
      startsWith (toLowercase s) contentTypeField :=
  apply_stripLast (f := fun s => startsWith (toLowercase s) contentTypeField)
    (startsWith_pad isPad_return (by decide)) s

theorem rewritesType_stripLast (s : Str) :
    rewritesType (toLowercase (stripLast '\r' s)) = rewritesType (toLowercase s) :=
  apply_stripLast (f := fun s => rewritesType (toLowercase s)) (rewritesType_pad isPad_return) s

theorem find?_contentType : ((b.fields.map HeaderField.line).map fun line =>
    stripLast '\r' (fromUtf8Lossy line)).find?
      (fun line => startsWith (toLowercase line) contentTypeField) =
    (b.field "content-type".toList).map fun field => stripLast '\r' (fromUtf8Lossy field.line) := by
  rw [List.map_map, List.find?_map]
  congr 1
  apply List.find?_congr
  intro field _
  exact (startsWith_contentType_stripLast _).trans field.startsWith_contentType

/-- The content type is that of the status line or of the line of that name. -/
theorem needsRewrite : (b.block.head t).needsRewrite =
    if startsWith (toLowercase (fromUtf8Lossy b.status)) contentTypeField then
      rewritesType (toLowercase (fromUtf8Lossy b.status))
    else (b.field "content-type".toList).any fun field =>
      rewritesPart (valuePart (toLowercase (fromUtf8Lossy field.value))) := by
  have htext : fromUtf8Lossy b.statusLine = fromUtf8Lossy b.status ++ returnOf b.statusCrlf :=
    lossy_pad (returnOf_pad b.statusCrlf) b.status
  have hstatus : startsWith (toLowercase (stripLast '\r' (fromUtf8Lossy b.statusLine)))
      contentTypeField = startsWith (toLowercase (fromUtf8Lossy b.status)) contentTypeField := by
    rw [startsWith_contentType_stripLast, htext, startsWith_pad (returnOf_pad b.statusCrlf) (by decide)]
  have hlines : b.block.lines = b.statusLine :: b.fields.map HeaderField.line := rfl
  have hlast : [[]].find? (fun line => startsWith (toLowercase line) contentTypeField) = none := by
    decide
  rw [Head.needsRewrite, HeaderBlock.headerBuf_head, shouldRewriteContent_eq,
    HeaderBlock.lines_lossy, hlines, List.map_cons, List.cons_append, List.find?_cons, hstatus,
    List.find?_append, find?_contentType, hlast, Option.or_none]
  cases startsWith (toLowercase (fromUtf8Lossy b.status)) contentTypeField with
  | true =>
    show rewritesType _ = rewritesType _
    rw [rewritesType_stripLast, htext, rewritesType_pad (returnOf_pad b.statusCrlf)]
  | false =>
    show Option.any _ (Option.map _ _) = _
    rw [Option.any_map]
    congr 1
    funext field
    exact (rewritesType_stripLast _).trans field.rewritesType_line

end FieldBlock

/-! ## Respelling -/

/-- The names that the header loop looks for. -/
def framingNames : List Str :=
  ["content-length".toList, "transfer-encoding".toList, "content-type".toList]

/-- The names whose values are read in lower case. -/
def caselessNames : List Str := ["transfer-encoding".toList, "content-type".toList]

/-- The same field in another spelling: the name in another case, other blanks and
another line end, and the value in another case where it is read so. -/
structure HeaderField.Respelled (field₁ field₂ : HeaderField) : Prop where
  key : field₁.key = field₂.key
  value : field₁.value = field₂.value ∨
    field₁.key ∈ caselessNames ∧ field₁.value.map asciiLower = field₂.value.map asciiLower

/-- The same status line, and up to their order the same fields in other spellings,
with further fields of other names on both sides. -/
structure FieldBlock.Respelled (b₁ b₂ : FieldBlock) : Prop where
  status : b₁.status = b₂.status
  fields : ∃ common₁ extra₁ common₂ extra₂ : List HeaderField,
    b₁.fields.Perm (common₁ ++ extra₁) ∧ b₂.fields.Perm (common₂ ++ extra₂) ∧
    List.Forall₂ HeaderField.Respelled common₁ common₂ ∧
    ∀ field ∈ extra₁ ++ extra₂, field.key ∉ framingNames

/-- The value in lower case is the same. -/
theorem HeaderField.Respelled.toLowercase_value {field₁ field₂ : HeaderField}
    (h : field₁.Respelled field₂) : toLowercase (fromUtf8Lossy field₁.value) =
      toLowercase (fromUtf8Lossy field₂.value) := by
  rcases h.value with hvalue | ⟨_, hvalue⟩
  · rw [hvalue]
  · exact toLowercase_lossy_congr hvalue

theorem HeaderField.Respelled.value_eq {field₁ field₂ : HeaderField} (h : field₁.Respelled field₂)
    (hkey : field₁.key = "content-length".toList) : field₁.value = field₂.value := by
  rcases h.value with hvalue | ⟨hname, _⟩
  · exact hvalue
  · rw [hkey] at hname
    exact absurd hname (by decide)

namespace FieldBlock.Respelled

variable {b₁ b₂ : FieldBlock} (h : b₁.Respelled b₂)

include h

/-- A field that is looked for is found in both blocks or in none. -/
theorem field_cases {key : Str} (hkey : key ∈ framingNames) :
    (b₁.field key = none ∧ b₂.field key = none) ∨ ∃ field₁ field₂, b₁.field key = some field₁ ∧
      b₂.field key = some field₂ ∧ field₁.Respelled field₂ ∧ field₁.key = key := by
  obtain ⟨common₁, extra₁, common₂, extra₂, hperm₁, hperm₂, hcommon, hextra⟩ := h.fields
  have hother {extra : List HeaderField} (hsub : ∀ field ∈ extra, field ∈ extra₁ ++ extra₂) :
      ∀ field ∈ extra, field.key ≠ key :=
    fun field hmem he => hextra field (hsub field hmem) (he ▸ hkey)
  have hfirst₁ : b₁.field key = Keyed.first HeaderField.key key common₁ := by
    rw [field, Keyed.first_perm hperm₁ b₁.distinct,
      Keyed.first_append_other _ (hother fun _ hm => List.mem_append_left _ hm)]
  have hfirst₂ : b₂.field key = Keyed.first HeaderField.key key common₂ := by
    rw [field, Keyed.first_perm hperm₂ b₂.distinct,
      Keyed.first_append_other _ (hother fun _ hm => List.mem_append_right _ hm)]
  rw [hfirst₁, hfirst₂]
  refine (Keyed.first_forall₂ _ (fun _ _ hsame => hsame.key) hcommon key).imp_right ?_
  rintro ⟨field₁, field₂, hfound₁, hfound₂, hsame⟩
  exact ⟨field₁, field₂, hfound₁, hfound₂, hsame, Keyed.key_of_first hfound₁⟩

variable (t : Target)

theorem contentLength : (b₁.block.head t).contentLength = (b₂.block.head t).contentLength := by
  rw [b₁.contentLength, b₂.contentLength, h.status]
  rcases h.field_cases (show "content-length".toList ∈ framingNames by decide) with
    ⟨hnone₁, hnone₂⟩ | ⟨field₁, field₂, hfield₁, hfield₂, hsame, hkey⟩
  · rw [hnone₁, hnone₂]
  · rw [hfield₁, hfield₂, Option.elim_some, Option.elim_some, hsame.value_eq hkey]

theorem isChunked : (b₁.block.head t).isChunked = (b₂.block.head t).isChunked := by
  rw [b₁.isChunked, b₂.isChunked, h.status]
  rcases h.field_cases (show "transfer-encoding".toList ∈ framingNames by decide) with
    ⟨hnone₁, hnone₂⟩ | ⟨field₁, field₂, hfield₁, hfield₂, hsame, _⟩
  · rw [hnone₁, hnone₂]
  · rw [hfield₁, hfield₂, Option.any_some, Option.any_some, hsame.toLowercase_value]

theorem needsRewrite : (b₁.block.head t).needsRewrite = (b₂.block.head t).needsRewrite := by
  rw [b₁.needsRewrite, b₂.needsRewrite, h.status]
  rcases h.field_cases (show "content-type".toList ∈ framingNames by decide) with
    ⟨hnone₁, hnone₂⟩ | ⟨field₁, field₂, hfield₁, hfield₂, hsame, _⟩
  · rw [hnone₁, hnone₂]
  · rw [hfield₁, hfield₂, Option.any_some, Option.any_some, hsame.toLowercase_value]

end FieldBlock.Respelled

/-! ## The branch that is taken -/

inductive Branch where
  | streamUntilClose
  | passThrough
  | rewrite

def Head.branch (head : Head) : Branch :=
  if !head.isChunked && head.contentLength.isNone then .streamUntilClose
  else if !head.needsRewrite || head.bodyTooLarge then .passThrough
  else .rewrite

def Branch.run {R : Type} [AsyncBufRead R] (t : Target) (proxy : TCPProxy) (head : Head) :
    Branch → Io R (Control Unit Unit)
  | .streamUntilClose => DlnaProxy.TcpProxy.streamUntilClose head
  | .passThrough => DlnaProxy.TcpProxy.passThrough t head
  | .rewrite => DlnaProxy.TcpProxy.rewrite t proxy head

theorem respond_branch {R : Type} [AsyncBufRead R] (t : Target) (proxy : TCPProxy) {head : Head}
    (h : head.headerBuf ≠ []) : respond (R := R) t proxy head = head.branch.run t proxy head := by
  unfold respond Head.branch
  rw [if_neg (by simpa using h)]
  split
  · rfl
  · split <;> rfl

/-- **Order, case and spacing of the header lines do not matter.** -/
theorem respelled_sameBranch (t : Target) (proxy : TCPProxy) {b₁ b₂ : FieldBlock}
    (h : b₁.Respelled b₂) : ∃ (head₁ head₂ : Head) (branch : Branch),
      (∀ rest closed, readHead t (Stream.mk (b₁.block.bytes ++ rest) closed) =
        ⟨.ok (some head₁), ⟨rest, closed⟩, []⟩) ∧
      (∀ rest closed, readHead t (Stream.mk (b₂.block.bytes ++ rest) closed) =
        ⟨.ok (some head₂), ⟨rest, closed⟩, []⟩) ∧
      head₁.contentLength = head₂.contentLength ∧ head₁.isChunked = head₂.isChunked ∧
      head₁.needsRewrite = head₂.needsRewrite ∧
      respond (R := Stream) t proxy head₁ = branch.run t proxy head₁ ∧
      respond (R := Stream) t proxy head₂ = branch.run t proxy head₂ := by
  have hbuf (b : FieldBlock) : (b.block.head t).headerBuf ≠ [] := by
    rw [HeaderBlock.headerBuf_head]
    exact b.block.bytes_ne_nil
  have hbranch : (b₂.block.head t).branch = (b₁.block.head t).branch := by
    rw [Head.branch, Head.branch, Head.bodyTooLarge, Head.bodyTooLarge, h.contentLength t,
      h.isChunked t, h.needsRewrite t]
  refine ⟨b₁.block.head t, b₂.block.head t, (b₁.block.head t).branch, readHead_block t b₁.block,
    readHead_block t b₂.block, h.contentLength t, h.isChunked t, h.needsRewrite t,
    respond_branch t proxy (hbuf b₁), ?_⟩
  rw [← hbranch]
  exact respond_branch t proxy (hbuf b₂)

/-! ## One answer in two spellings -/

def typeLine : HeaderField :=
  ⟨"Content-Type".toList, [' '], asBytes "text/xml; charset=\"utf-8\"".toList, [], true,
    by decide, by decide, by decide, by decide, by decide⟩

def lengthLine : HeaderField :=
  ⟨"Content-Length".toList, [' '], asBytes "42".toList, [], true,
    by decide, by decide, by decide, by decide, by decide⟩

def typeLineLoud : HeaderField :=
  ⟨"CONTENT-TYPE".toList, [], asBytes "Text/XML; charset=\"UTF-8\"".toList, ['\t'], false,
    by decide, by decide, by decide, by decide, by decide⟩

def lengthLineQuiet : HeaderField :=
  ⟨"content-length".toList, [' ', ' '], asBytes "42".toList, [' '], false,
    by decide, by decide, by decide, by decide, by decide⟩

def extLine : HeaderField :=
  ⟨"EXT".toList, [], [], [], true, by decide, by decide, by decide, by decide, by decide⟩

def plainSpelling : FieldBlock where
  status := asBytes "HTTP/1.1 200 OK".toList
  statusCrlf := true
  fields := [typeLine, lengthLine]
  blank := crlf
  status_feedless := by decide
  status_ne_nil := by decide
  status_ne_return := by decide
  distinct := by decide
  ends := crlf_blank

def otherSpelling : FieldBlock where
  status := asBytes "HTTP/1.1 200 OK".toList
  statusCrlf := false
  fields := [lengthLineQuiet, extLine, typeLineLoud]
  blank := [10]
  status_feedless := by decide
  status_ne_nil := by decide
  status_ne_return := by decide
  distinct := by decide
  ends := feed_blank

theorem plainSpelling_respelled : plainSpelling.Respelled otherSpelling where
  status := rfl
  fields := by
    refine ⟨[typeLine, lengthLine], [], [typeLineLoud, lengthLineQuiet], [extLine],
      ?_, ?_, ?_, ?_⟩
    · exact List.Perm.refl _
    · exact (List.reverse_perm _).symm.trans (List.Perm.cons _ (List.Perm.swap _ _ _))
    · exact .cons ⟨by decide, Or.inr (by decide)⟩ (.cons ⟨by decide, Or.inl rfl⟩ .nil)
    · intro field hmem
      rw [List.mem_singleton.mp hmem]
      decide

theorem respelled_sameBranch_spellings : ∃ (head₁ head₂ : Head) (branch : Branch),
    (∀ rest closed, readHead release64 (Stream.mk (plainSpelling.block.bytes ++ rest) closed) =
      ⟨.ok (some head₁), ⟨rest, closed⟩, []⟩) ∧
    (∀ rest closed, readHead release64 (Stream.mk (otherSpelling.block.bytes ++ rest) closed) =
      ⟨.ok (some head₂), ⟨rest, closed⟩, []⟩) ∧
    head₁.contentLength = head₂.contentLength ∧ head₁.isChunked = head₂.isChunked ∧
    head₁.needsRewrite = head₂.needsRewrite ∧
    respond (R := Stream) release64 ⟨[], []⟩ head₁ = branch.run release64 ⟨[], []⟩ head₁ ∧
    respond (R := Stream) release64 ⟨[], []⟩ head₂ = branch.run release64 ⟨[], []⟩ head₂ :=
  respelled_sameBranch release64 ⟨[], []⟩ plainSpelling_respelled

end DlnaProxy.TcpProxy
