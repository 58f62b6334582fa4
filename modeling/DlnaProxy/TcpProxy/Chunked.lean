import DlnaProxy.TcpProxy.KeepAlive

/-!
# Chunked bodies

The chunked coding as a grammar: size lines with any spelling of the size and any
extension, chunks that carry as many bytes as their size line says, the last chunk
and the trailer lines. Such a body is read in one way, and ends in one place.
-/
namespace DlnaProxy.TcpProxy

open DlnaProxy.Lib.ByteIo DlnaProxy.Lib.Utf8

/-! ## Sizes -/

/-- The bytes of digits end no digits. -/
theorem digits_plain (number : Numeral 16) : ∀ b ∈ asBytes number.text,
    (b == 59 || b == 13 || b == 10 || b == 32) = false := by
  have table : ∀ c : Char, AlphaNum c →
      (c.toUInt8 == 59 || c.toUInt8 == 13 || c.toUInt8 == 10 || c.toUInt8 == 32) = false := by
    intro c hc
    have hn : c.toUInt8.toNat = c.toNat % 256 := rfl
    unfold AlphaNum at hc
    simp only [Bool.or_eq_false_iff, beq_eq_false_iff_ne, ne_eq, ← UInt8.toNat_inj, hn]
    simp
    omega
  intro b hb
  rw [asBytes_ascii fun c hc => (number.alphaNum c hc).ascii] at hb
  obtain ⟨c, hc, rfl⟩ := List.mem_map.mp hb
  exact table c (number.alphaNum c hc)

/-- What follows the digits and leaves them as they are: up to the end of the hex
text there are tabs at most. -/
def TabsOnly (rest : List UInt8) : Prop :=
  ∀ b ∈ rest.takeWhile fun b => !(b == 59 || b == 13 || b == 10 || b == 32), b = 9

theorem take_hexEnd_numeral (number : Numeral 16) (rest : List UInt8) :
    (asBytes number.text ++ rest).take (hexEnd (asBytes number.text ++ rest)) =
      asBytes number.text ++ rest.takeWhile fun b => !(b == 59 || b == 13 || b == 10 || b == 32) := by
  rw [← List.takeWhile_append_of_pos fun b hb => by rw [digits_plain number b hb]; rfl,
    List.takeWhile_eq_take_findIdx_not, hexEnd]
  simp

theorem asBytes_tabs {tabs : List UInt8} (h : ∀ b ∈ tabs, b = 9) :
    asBytes (tabs.map fun _ => '\t') = tabs := by
  induction tabs with
  | nil => rfl
  | cons b tabs ih =>
    rw [List.map_cons, asBytes_cons, ih fun x hx => h x (by simp [hx]), h b (by simp)]
    rfl

/-- Tabs after the digits are trimmed. -/
theorem trim_tabs (number : Numeral 16) (tabs : List UInt8) :
    trim (number.text ++ tabs.map fun _ => '\t') = number.text := by
  have hpad := trim_pad (a := []) (fun _ hc => nomatch hc)
    (b := tabs.map fun _ => '\t') (by intro c hc; obtain ⟨_, _, rfl⟩ := List.mem_map.mp hc; decide)
    (fun c hc => (number.alphaNum c hc).not_whitespace) number.nonempty
  simpa using hpad

theorem parseChunkSize_numeral (number : Numeral 16) {rest : List UInt8} (h : TabsOnly rest)
    (t : Target) : ∃ message : Str, parseChunkSize t (asBytes number.text ++ rest) =
      match fromStrRadix t.bits 16 number.text with
      | .ok n => .ok n
      | .error _ => .error (invalidData message) := by
  have htake := take_hexEnd_numeral number rest
  unfold TabsOnly at h
  generalize rest.takeWhile (fun b => !(b == 59 || b == 13 || b == 10 || b == 32)) = tabs
    at h htake
  have htext : fromUtf8 (asBytes number.text ++ tabs) =
      some (number.text ++ tabs.map fun _ => '\t') := by
    rw [fromUtf8_eq_some, asBytes_append, asBytes_tabs h]
  rw [parseChunkSize, htake, htext]
  dsimp only
  rw [trim_tabs]
  cases fromStrRadix t.bits 16 number.text with
  | ok n => exact ⟨[], rfl⟩
  | error e => exact ⟨_, rfl⟩

/-- Hex digits, then blanks and an extension or not. The line ends with CRLF. -/
structure SizeLine where
  number : Numeral 16
  blanks : List UInt8
  extension : List UInt8
  blanks_eq : ∀ b ∈ blanks, b = 32 ∨ b = 9
  extension_eq : extension = [] ∨ ∃ text, extension = 59 :: text ∧ 10 ∉ text

namespace SizeLine

variable (line : SizeLine)

/-- The line without its line feed. -/
def front : List UInt8 := asBytes line.number.text ++ (line.blanks ++ (line.extension ++ [13]))

def bytes : List UInt8 := line.front ++ [10]

def value : Nat := line.number.value

theorem feedless : 10 ∉ line.front := by
  intro h
  rw [front, List.mem_append, List.mem_append, List.mem_append] at h
  rcases h with h | h | h | h
  · exact absurd (digits_plain line.number 10 h) (by decide)
  · rcases line.blanks_eq 10 h with h | h <;> exact absurd h (by decide)
  · rcases line.extension_eq with he | ⟨text, he, ht⟩ <;> rw [he] at h
    · cases h
    · rcases List.mem_cons.mp h with h | h
      · exact absurd h (by decide)
      · exact ht h
  · exact absurd h (by decide)

/-- What follows the digits, to the end of the line or to where it is cut. -/
theorem tabsOnly {rest : List UInt8} (h : rest <+: line.blanks ++ (line.extension ++ [13, 10])) :
    TabsOnly rest := by
  have main : ∀ blanks rest : List UInt8, (∀ b ∈ blanks, b = 32 ∨ b = 9) →
      rest <+: blanks ++ (line.extension ++ [13, 10]) → TabsOnly rest := by
    intro blanks
    induction blanks with
    | nil =>
      intro rest _ hrest
      have hend : ∃ b tail, line.extension ++ [13, 10] = b :: tail ∧ (b = 59 ∨ b = 13) := by
        rcases line.extension_eq with he | ⟨text, he, _⟩ <;> rw [he]
        · exact ⟨13, [10], rfl, Or.inr rfl⟩
        · exact ⟨59, text ++ [13, 10], rfl, Or.inl rfl⟩
      obtain ⟨b, tail, heq, hb⟩ := hend
      rw [List.nil_append, heq] at hrest
      rcases List.prefix_cons_iff.mp hrest with rfl | ⟨rest', rfl, _⟩
      · simp [TabsOnly]
      · rcases hb with rfl | rfl <;> simp [TabsOnly]
    | cons b blanks ih =>
      intro rest hblanks hrest
      rw [List.cons_append] at hrest
      rcases List.prefix_cons_iff.mp hrest with rfl | ⟨rest', rfl, hrest'⟩
      · simp [TabsOnly]
      · have htabs := ih rest' (fun x hx => hblanks x (by simp [hx])) hrest'
        rcases hblanks b (by simp) with rfl | rfl
        · simp [TabsOnly]
        · simpa [TabsOnly] using htabs
  exact main line.blanks rest line.blanks_eq h

theorem bytes_eq : line.bytes =
    asBytes line.number.text ++ (line.blanks ++ (line.extension ++ [13, 10])) := by
  simp [bytes, front]

theorem parseChunkSize_eq (t : Target) :
    ∃ message : Str, parseChunkSize t line.bytes =
      match fromStrRadix t.bits 16 line.number.text with
      | .ok n => .ok n
      | .error _ => .error (invalidData message) := by
  rw [line.bytes_eq]
  exact parseChunkSize_numeral line.number (line.tabsOnly List.prefix_rfl) t

/-- **A size that fits is parsed as the value of its digits.** -/
theorem parseChunkSize_ok {t : Target} (hfit : line.value < 2 ^ t.bits) :
    parseChunkSize t line.bytes = .ok line.value := by
  obtain ⟨message, h⟩ := line.parseChunkSize_eq t
  rw [h, line.number.read (by decide) hfit]
  rfl

/-- One that does not is an error. -/
theorem parseChunkSize_error {t : Target} (hfit : ¬ line.value < 2 ^ t.bits) :
    ∃ e, parseChunkSize t line.bytes = .error e := by
  obtain ⟨message, h⟩ := line.parseChunkSize_eq t
  obtain ⟨e, hread⟩ := line.number.read_error (by decide) hfit
  exact ⟨_, by rw [h, hread]⟩

theorem readLine (rest : List UInt8) (c : Bool) :
    readLineBytes (Stream.mk (line.bytes ++ rest) c) = ⟨.ok line.bytes, ⟨rest, c⟩, []⟩ := by
  rw [bytes, List.append_assoc, List.singleton_append]
  exact (readUntil_eq 10 _).trans (lineRun_line line.feedless rest c)

theorem bytes_ne_nil : line.bytes.isEmpty = false := by
  rw [List.isEmpty_eq_false_iff, bytes]
  simp

/-- The size line of a chunk as it is usually spelled. -/
theorem exists_hex (n : Nat) : ∃ line : SizeLine, line.value = n ∧
    line.bytes = asBytes (hex n) ++ crlf := by
  obtain ⟨number, htext, hvalue⟩ := @Numeral.exists_toDigits 16 (by decide) (by decide) n
  refine ⟨⟨number, [], [], by simp, Or.inl rfl⟩, hvalue, ?_⟩
  simp [bytes, front, htext, hex, crlf]

end SizeLine

/-- A chunk of at least a byte. -/
structure Chunk where
  size : SizeLine
  data : List UInt8
  nonempty : data ≠ []
  size_eq : size.value = data.length

def Chunk.bytes (chunk : Chunk) : List UInt8 := chunk.size.bytes ++ (chunk.data ++ crlf)

/-- A whole chunked body. -/
structure ChunkedBody where
  chunks : List Chunk
  last : SizeLine
  trailer : List (List UInt8)
  last_eq : last.value = 0
  trailer_eq : ∀ line ∈ trailer, 10 ∉ line ∧ line ≠ [] ∧ line ≠ [13]

namespace ChunkedBody

variable (m : ChunkedBody)

/-- The trailer lines and the empty line after them. -/
def trailerBytes : List UInt8 := m.trailer.flatMap (· ++ crlf) ++ crlf

def bytes : List UInt8 := m.chunks.flatMap (·.bytes) ++ (m.last.bytes ++ m.trailerBytes)

def payload : List UInt8 := m.chunks.flatMap (·.data)

/-- The first line after the last chunk, which is all of the trailer that the
loops read, and what they leave. -/
def trailerLine : List UInt8 :=
  match m.trailer with
  | [] => [13]
  | line :: _ => line ++ [13]

def trailerRest : List UInt8 :=
  match m.trailer with
  | [] => []
  | _ :: lines => lines.flatMap (· ++ crlf) ++ crlf

theorem trailerBytes_eq : m.trailerBytes = m.trailerLine ++ 10 :: m.trailerRest := by
  unfold trailerBytes trailerLine trailerRest
  cases m.trailer with
  | nil => rfl
  | cons line lines => simp [crlf]

theorem trailerLine_feedless : 10 ∉ m.trailerLine := by
  unfold trailerLine
  split
  · decide
  · next line lines h =>
    rw [List.mem_append, not_or]
    exact ⟨(m.trailer_eq line (by simp [h])).1, by decide⟩

theorem trailerRest_nil (h : m.trailer = []) : m.trailerRest = [] := by
  rw [trailerRest, h]

end ChunkedBody

/-! ## Chunks are read in one way -/

/-- A target that is wide enough for `n`. -/
def targetOf (n : Nat) : Target := ⟨n + 32, false, by omega⟩

theorem lt_targetOf (n : Nat) : n < 2 ^ (targetOf n).bits :=
  Nat.lt_of_lt_of_le Nat.lt_two_pow_self (Nat.pow_le_pow_right (by decide) (Nat.le_add_right n 32))

theorem SizeLine.bytes_append_inj {l₁ l₂ : SizeLine} {x y : List UInt8}
    (h : l₁.bytes ++ x = l₂.bytes ++ y) : l₁.bytes = l₂.bytes ∧ x = y := by
  have hread := l₁.readLine x true
  rw [h, l₂.readLine] at hread
  simp only [Run.mk.injEq, Except.ok.injEq, Stream.mk.injEq, and_true] at hread
  exact ⟨hread.1.symm, hread.2.symm⟩

theorem SizeLine.value_eq {l₁ l₂ : SizeLine} (h : l₁.bytes = l₂.bytes) : l₁.value = l₂.value := by
  have hlt := lt_targetOf (l₁.value + l₂.value)
  have h₁ := l₁.parseChunkSize_ok (t := targetOf (l₁.value + l₂.value)) (by omega)
  have h₂ := l₂.parseChunkSize_ok (t := targetOf (l₁.value + l₂.value)) (by omega)
  rw [h, h₂] at h₁
  exact (Except.ok.inj h₁).symm

theorem Chunk.size_ne_zero (chunk : Chunk) : chunk.size.value ≠ 0 := by
  rw [chunk.size_eq]
  exact fun h => chunk.nonempty (List.length_eq_zero_iff.mp h)

theorem Chunk.bytes_append_inj {c₁ c₂ : Chunk} {x y : List UInt8}
    (h : c₁.bytes ++ x = c₂.bytes ++ y) : c₁.bytes = c₂.bytes ∧ c₁.data = c₂.data ∧ x = y := by
  simp only [Chunk.bytes, List.append_assoc] at h
  obtain ⟨hsize, hrest⟩ := SizeLine.bytes_append_inj h
  have hlen : c₁.data.length = c₂.data.length := by
    rw [← c₁.size_eq, ← c₂.size_eq, SizeLine.value_eq hsize]
  obtain ⟨hdata, htail⟩ := List.append_inj hrest hlen
  exact ⟨by rw [Chunk.bytes, Chunk.bytes, hsize, hdata], hdata, List.append_cancel_left htail⟩

/-- A size line that says zero starts no chunk. -/
theorem Chunk.bytes_append_ne {chunk : Chunk} {last : SizeLine} (hzero : last.value = 0)
    {x y : List UInt8} : chunk.bytes ++ x ≠ last.bytes ++ y := by
  intro h
  rw [Chunk.bytes, List.append_assoc] at h
  exact chunk.size_ne_zero ((SizeLine.value_eq (SizeLine.bytes_append_inj h).1).trans hzero)

/-- Where the chunks of one body end, no others do. -/
theorem chunks_append_inj {c₁ c₂ : List Chunk} {l₁ l₂ : SizeLine} (h₁ : l₁.value = 0)
    (h₂ : l₂.value = 0) {x y : List UInt8}
    (h : c₁.flatMap (·.bytes) ++ (l₁.bytes ++ x) = c₂.flatMap (·.bytes) ++ (l₂.bytes ++ y)) :
    c₁.flatMap (·.bytes) = c₂.flatMap (·.bytes) ∧ c₁.flatMap (·.data) = c₂.flatMap (·.data) ∧
      l₁.bytes = l₂.bytes ∧ x = y := by
  induction c₁ generalizing c₂ with
  | nil =>
    cases c₂ with
    | nil =>
      obtain ⟨hline, hrest⟩ := SizeLine.bytes_append_inj h
      exact ⟨rfl, rfl, hline, hrest⟩
    | cons c c₂ =>
      rw [List.flatMap_cons, List.append_assoc] at h
      exact absurd h.symm (Chunk.bytes_append_ne h₁)
  | cons c c₁ ih =>
    cases c₂ with
    | nil =>
      rw [List.flatMap_cons, List.append_assoc] at h
      exact absurd h (Chunk.bytes_append_ne h₂)
    | cons d c₂ =>
      rw [List.flatMap_cons, List.flatMap_cons, List.append_assoc, List.append_assoc] at h
      obtain ⟨hbytes, hdata, hrest⟩ := Chunk.bytes_append_inj h
      obtain ⟨hchunks, hpayload, hline, htail⟩ := ih hrest
      refine ⟨?_, ?_, hline, htail⟩
      · rw [List.flatMap_cons, List.flatMap_cons, hbytes, hchunks]
      · rw [List.flatMap_cons, List.flatMap_cons, hdata, hpayload]

namespace ChunkedBody

/-- Trailer lines end as a header block does. -/
def trailerBlock (m : ChunkedBody) : HeaderBlock where
  lines := m.trailer.map (· ++ [13])
  blank := crlf
  feedless := by
    intro line hline
    obtain ⟨l, hl, rfl⟩ := List.mem_map.mp hline
    rw [List.mem_append, not_or]
    exact ⟨(m.trailer_eq l hl).1, by decide⟩
  nonblank := by
    intro line hline
    obtain ⟨l, hl, rfl⟩ := List.mem_map.mp hline
    rw [isBlankLine, Bool.or_eq_false_iff, decide_eq_false_iff_not, decide_eq_false_iff_not,
      List.append_assoc]
    constructor
    · intro h
      exact (m.trailer_eq l hl).2.1 (List.append_left_eq_self.mp h)
    · intro h
      have hlen := congrArg List.length h
      simp at hlen
  ends := crlf_blank

theorem bytes_trailerBlock (m : ChunkedBody) : m.trailerBlock.bytes = m.trailerBytes := by
  simp [trailerBlock, HeaderBlock.bytes, trailerBytes, List.flatMap_map, crlf]

/-- Where one chunked body ends, no other one does. -/
theorem bytes_append_inj {m₁ m₂ : ChunkedBody} {x y : List UInt8}
    (h : m₁.bytes ++ x = m₂.bytes ++ y) :
    m₁.bytes = m₂.bytes ∧ m₁.payload = m₂.payload ∧ x = y := by
  simp only [bytes, List.append_assoc] at h
  obtain ⟨hchunks, hpayload, hline, hrest⟩ := chunks_append_inj m₁.last_eq m₂.last_eq h
  rw [← m₁.bytes_trailerBlock, ← m₂.bytes_trailerBlock] at hrest
  obtain ⟨htrailer, htail⟩ := HeaderBlock.bytes_append_inj hrest
  rw [m₁.bytes_trailerBlock, m₂.bytes_trailerBlock] at htrailer
  exact ⟨by rw [bytes, bytes, hchunks, hline, htrailer], hpayload, htail⟩

end ChunkedBody

end DlnaProxy.TcpProxy
