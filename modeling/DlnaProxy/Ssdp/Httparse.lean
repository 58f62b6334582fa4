import DlnaProxy.Lib.Lossy
import DlnaProxy.Lib.Number

/-!
# The request parser

`parse_ssdp` hands a datagram to the request parser of another package, which is a
parameter here. `Lawful` is what that package documents of it, `RequestText` the
requests it must accept, and `reference` a parser that is lawful.
-/
namespace DlnaProxy.Ssdp

open DlnaProxy.Lib.Utf8

inductive HttparseError where
  | headerName
  | headerValue
  | newLine
  | status
  | token
  | tooManyHeaders
  | version
  deriving DecidableEq

structure Header where
  name : Str
  value : List UInt8
  deriving DecidableEq

/-- What every entry of a header table holds before it is written. -/
def emptyHeader : Header := ⟨[], []⟩

/-- What a parse without an error leaves behind: the method, if it has read one, and
the headers it has written to the table, from the front. -/
structure Request where
  method : Option Str
  headers : List Header
  deriving DecidableEq

/-- `Request::parse` with a table of as many entries. -/
abbrev Httparse := Nat → List UInt8 → Except HttparseError Request

/-! ## Well-formed requests -/

def tokenSymbols : Str := "!#$%&'*+-.^_`|~".toList

def isTokenChar (c : Char) : Bool := decide (AlphaNum c) || tokenSymbols.contains c

def isBlank (b : UInt8) : Bool := b == 32 || b == 9

/-- No control byte but the tab. -/
def isValueByte (b : UInt8) : Bool := b == 9 || (32 ≤ b && b != 127)

/-- A header value as it is delivered. -/
def CleanValue (value : List UInt8) : Prop :=
  (∀ b ∈ value, isValueByte b) ∧ Trimmed isBlank value

instance (value : List UInt8) : Decidable (CleanValue value) := instDecidableAnd

def IsToken (s : Str) : Prop := s ≠ [] ∧ ∀ c ∈ s, isTokenChar c

instance (s : Str) : Decidable (IsToken s) := instDecidableAnd

def lineEnd : List UInt8 := [13, 10]

/-- A header line, with the blanks around its value. -/
structure FieldLine where
  name : Str
  before : List UInt8
  value : List UInt8
  after : List UInt8
  token : IsToken name
  blank_before : ∀ b ∈ before, isBlank b
  clean : CleanValue value
  blank_after : ∀ b ∈ after, isBlank b

namespace FieldLine

theorem noBlanks : ∀ b ∈ ([] : List UInt8), isBlank b := List.forall_mem_nil _

variable (line : FieldLine)

def content : List UInt8 := asBytes line.name ++ 58 :: (line.before ++ (line.value ++ line.after))

def bytes : List UInt8 := line.content ++ lineEnd

def header : Header := ⟨line.name, line.value⟩

end FieldLine

/-- The rest of the request line. An SSDP request has no other target. -/
def target : Str := " * HTTP/1.1".toList

structure RequestText where
  method : Str
  token : IsToken method
  lines : List FieldLine

def RequestText.bytes (request : RequestText) : List UInt8 :=
  asBytes request.method ++ asBytes target ++ lineEnd ++
    (request.lines.flatMap FieldLine.bytes ++ lineEnd)

/-- The documented behaviour of the parser. -/
structure Lawful (parser : Httparse) : Prop where
  bounded : ∀ {n buffer request}, parser n buffer = .ok request → request.headers.length ≤ n
  named : ∀ {n buffer request}, parser n buffer = .ok request →
    ∀ header ∈ request.headers, IsToken header.name
  clean : ∀ {n buffer request}, parser n buffer = .ok request →
    ∀ header ∈ request.headers, CleanValue header.value
  complete : ∀ {n} (text : RequestText) (rest : List UInt8), text.lines.length ≤ n →
    parser n (text.bytes ++ rest) = .ok ⟨some text.method, text.lines.map FieldLine.header⟩
  tooMany : ∀ {n} (text : RequestText) (rest : List UInt8), n < text.lines.length →
    parser n (text.bytes ++ rest) = .error .tooManyHeaders

/-! ## A lawful parser -/

/-- A line without its end. -/
def unended (line : List UInt8) : List UInt8 := stripLast 13 (stripLast 10 line)

def readMethod (content : List UInt8) : Option Str :=
  let method := fromUtf8Lossy (content.takeWhile (· != 32))
  if IsToken method ∧ content = asBytes method ++ asBytes target then some method else none

def readField (content : List UInt8) : Option Header :=
  let name := fromUtf8Lossy (content.takeWhile (· != 58))
  match content.dropWhile (· != 58) with
  | [] => none
  | _ :: padded =>
    if IsToken name ∧ CleanValue (trimBy isBlank padded) then some ⟨name, trimBy isBlank padded⟩
    else none

def readFields : List (List UInt8) → Nat → Except HttparseError (List Header)
  | [], _ => .error .newLine
  | line :: lines, n =>
    if unended line = [] then .ok []
    else if n = 0 then .error .tooManyHeaders
    else match readField (unended line) with
      | none => .error .headerName
      | some header => (readFields lines (n - 1)).map (header :: ·)

def reference : Httparse := fun n buffer =>
  match splitInclusive 10 buffer with
  | [] => .error .token
  | line :: lines =>
    match readMethod (unended line) with
    | none => .error .token
    | some method => (readFields lines n).map fun headers => ⟨some method, headers⟩

theorem readField_good {content : List UInt8} {header : Header}
    (h : readField content = some header) : IsToken header.name ∧ CleanValue header.value := by
  simp only [readField] at h
  split at h
  · cases h
  · split at h
    · next hgood =>
      obtain rfl := Option.some.inj h
      exact hgood
    · cases h

/-- What holds of each header that is read holds of all that are. -/
theorem readFields_good {lines : List (List UInt8)} {n : Nat} {headers : List Header}
    (h : readFields lines n = .ok headers) :
    headers.length ≤ n ∧ ∀ header ∈ headers, IsToken header.name ∧ CleanValue header.value := by
  induction lines generalizing n headers with
  | nil => cases h
  | cons line lines ih =>
    rw [readFields] at h
    split at h
    · obtain rfl := Except.ok.inj h
      exact ⟨Nat.zero_le _, nofun⟩
    · split at h
      · cases h
      · next hroom =>
        split at h
        · cases h
        · next header hfield =>
          cases hrest : readFields lines (n - 1) with
          | error e =>
            rw [hrest] at h
            cases h
          | ok rest =>
            rw [hrest] at h
            obtain rfl := Except.ok.inj h
            obtain ⟨hlength, hall⟩ := ih hrest
            refine ⟨by rw [List.length_cons]; omega, ?_⟩
            intro header' hmem
            rcases List.mem_cons.mp hmem with rfl | hmem
            · exact readField_good hfield
            · exact hall header' hmem

/-! ### Well-formed requests are read -/

theorem unended_line {content : List UInt8} : unended (content ++ lineEnd) = content := by
  have hsplit : content ++ lineEnd = content ++ [13] ++ [10] := by simp [lineEnd]
  rw [unended, hsplit, stripLast_concat, stripLast_concat]

theorem not_mem_token {s : Str} (h : IsToken s) {c : Char} (hc : Ascii c)
    (hnot : isTokenChar c = false) : c.toUInt8 ∉ asBytes s := by
  rw [mem_asBytes_iff hc]
  intro hmem
  exact absurd ((h.2 c hmem).symm.trans hnot) nofun

theorem readField_line (line : FieldLine) : readField line.content = some line.header := by
  have hcolon : 58 ∉ asBytes line.name := not_mem_token line.token (c := ':') (by decide) (by decide)
  have hpass : ∀ b ∈ asBytes line.name, (b != 58) = true := by
    intro b hb
    rw [bne_iff_ne]
    rintro rfl
    exact hcolon hb
  have hname : line.content.takeWhile (· != 58) = asBytes line.name := by
    rw [FieldLine.content, List.takeWhile_append_of_pos hpass]
    simp
  have hpadded : line.content.dropWhile (· != 58) =
      58 :: (line.before ++ (line.value ++ line.after)) := by
    rw [FieldLine.content, List.dropWhile_append_of_pos hpass]
    simp
  have hvalue := trimBy_pad line.blank_before line.blank_after line.clean.2
  simp only [readField, hname, hpadded, fromUtf8Lossy_asBytes, hvalue]
  exact if_pos ⟨line.token, line.clean⟩

theorem feedless_content (line : FieldLine) : 10 ∉ line.content := by
  have hname : 10 ∉ asBytes line.name := not_mem_token line.token (c := '\n') (by decide) (by decide)
  have hbefore : 10 ∉ line.before := fun h => absurd (line.blank_before 10 h) (by decide)
  have hvalue : 10 ∉ line.value := fun h => absurd (line.clean.1 10 h) (by decide)
  have hafter : 10 ∉ line.after := fun h => absurd (line.blank_after 10 h) (by decide)
  simp [FieldLine.content, hname, hbefore, hvalue, hafter]

theorem content_ne_nil (line : FieldLine) : line.content ≠ [] := by
  simp [FieldLine.content]

theorem splitInclusive_ended {content : List UInt8} (h : 10 ∉ content) (rest : List UInt8) :
    splitInclusive 10 (content ++ lineEnd ++ rest) =
      (content ++ lineEnd) :: splitInclusive 10 rest := by
  have hline : 10 ∉ content ++ [13] := by simp [h]
  have hsplit := splitInclusive_line hline rest
  simpa [lineEnd] using hsplit

theorem splitInclusive_lines (lines : List FieldLine) (rest : List UInt8) :
    splitInclusive 10 (lines.flatMap FieldLine.bytes ++ lineEnd ++ rest) =
      lines.map FieldLine.bytes ++ lineEnd :: splitInclusive 10 rest := by
  induction lines with
  | nil => exact splitInclusive_ended (List.not_mem_nil) rest
  | cons line lines ih =>
    rw [List.flatMap_cons, List.append_assoc, List.append_assoc, FieldLine.bytes,
      splitInclusive_ended (feedless_content line), ← List.append_assoc, ih]
    rfl

theorem readFields_lines (lines : List FieldLine) (rest : List (List UInt8)) (n : Nat) :
    readFields (lines.map FieldLine.bytes ++ lineEnd :: rest) n =
      if lines.length ≤ n then .ok (lines.map FieldLine.header) else .error .tooManyHeaders := by
  induction lines generalizing n with
  | nil =>
    rw [List.length_nil, if_pos (Nat.zero_le n)]
    exact if_pos (@unended_line [])
  | cons line lines ih =>
    rw [List.map_cons, List.cons_append, readFields, FieldLine.bytes, unended_line,
      if_neg (content_ne_nil line), readField_line, ih]
    cases n with
    | zero => rfl
    | succ n =>
      rw [if_neg (Nat.succ_ne_zero n), Nat.add_sub_cancel, List.length_cons]
      by_cases hroom : lines.length ≤ n
      · rw [if_pos hroom, if_pos (Nat.succ_le_succ hroom)]
        rfl
      · rw [if_neg hroom, if_neg (by omega)]
        rfl

theorem readMethod_text (text : RequestText) :
    readMethod (asBytes text.method ++ asBytes target) = some text.method := by
  have hspace : 32 ∉ asBytes text.method :=
    not_mem_token text.token (c := ' ') (by decide) (by decide)
  have hmethod : (asBytes text.method ++ asBytes target).takeWhile (· != 32) =
      asBytes text.method := by
    rw [List.takeWhile_append_of_pos]
    · have hhead : (asBytes target).takeWhile (· != 32) = [] := by decide
      rw [hhead, List.append_nil]
    · intro b hb
      rw [bne_iff_ne]
      rintro rfl
      exact hspace hb
  simp only [readMethod, hmethod, fromUtf8Lossy_asBytes]
  exact if_pos ⟨text.token, trivial⟩

theorem feedless_requestLine (text : RequestText) :
    10 ∉ asBytes text.method ++ asBytes target := by
  have hmethod : 10 ∉ asBytes text.method :=
    not_mem_token text.token (c := '\n') (by decide) (by decide)
  rw [List.mem_append]
  rintro (h | h)
  · exact hmethod h
  · revert h
    decide

theorem reference_text (text : RequestText) (rest : List UInt8) (n : Nat) :
    reference n (text.bytes ++ rest) =
      if text.lines.length ≤ n then .ok ⟨some text.method, text.lines.map FieldLine.header⟩
      else .error .tooManyHeaders := by
  rw [reference, RequestText.bytes, List.append_assoc, splitInclusive_ended (feedless_requestLine text),
    splitInclusive_lines]
  simp only [unended_line, readMethod_text, readFields_lines]
  split <;> rfl

theorem reference_good {n : Nat} {buffer : List UInt8} {request : Request}
    (h : reference n buffer = .ok request) : request.headers.length ≤ n ∧
      ∀ header ∈ request.headers, IsToken header.name ∧ CleanValue header.value := by
  simp only [reference] at h
  split at h
  · cases h
  · next line lines _ =>
    split at h
    · cases h
    · cases hfields : readFields lines n with
      | error e =>
        rw [hfields] at h
        cases h
      | ok headers =>
        rw [hfields] at h
        obtain rfl := Except.ok.inj h
        exact readFields_good hfields

theorem lawful_reference : Lawful reference where
  bounded h := (reference_good h).1
  named h header hmem := ((reference_good h).2 header hmem).1
  clean h header hmem := ((reference_good h).2 header hmem).2
  complete text rest h := by rw [reference_text, if_pos h]
  tooMany text rest h := by rw [reference_text, if_neg (by omega)]

end DlnaProxy.Ssdp
