import DlnaProxy.TcpProxy.Arrival

/-!
# Header blocks

A `HeaderBlock` is what the header loop can accumulate: lines, none of them blank,
and the blank line that ends the block. Reading one yields its `head` and leaves
what follows it; every byte string starts with a block or has no blank line.
-/
namespace DlnaProxy.TcpProxy

open DlnaProxy.Lib.ByteIo DlnaProxy.Lib.Utf8

/-- The lines of a header block without their line feeds, and its last line. -/
structure HeaderBlock where
  lines : List (List UInt8)
  blank : List UInt8
  feedless : ∀ line ∈ lines, 10 ∉ line
  nonblank : ∀ line ∈ lines, isBlankLine (line ++ [10]) = false
  ends : isBlankLine blank = true

theorem crlf_blank : isBlankLine crlf = true := by decide

namespace HeaderBlock

variable (block : HeaderBlock)

/-- The lines as the header loop reads them. -/
def rawLines : List (List UInt8) := block.lines.map (· ++ [10]) ++ [block.blank]

def bytes : List UInt8 := block.lines.flatMap (· ++ [10]) ++ block.blank

/-- What the header loop has accumulated at the blank line. -/
def head (t : Target) : Head := block.rawLines.foldl (Head.scanLine t) Head.empty

theorem blank_eq : block.blank = crlf ∨ block.blank = [10] := by
  have h := block.ends
  simpa [isBlankLine] using h

theorem flatten_rawLines : block.rawLines.flatten = block.bytes := by
  simp [rawLines, bytes, List.flatMap]

theorem bytes_ne_nil : block.bytes ≠ [] := by
  rcases block.blank_eq with h | h <;> simp [bytes, h, crlf]

end HeaderBlock

/-- Bytes in which no header block ends: none of their lines is blank. -/
def Incomplete (bytes : List UInt8) : Prop :=
  ∀ line ∈ splitInclusive 10 bytes, isBlankLine line = false

instance (bytes : List UInt8) : Decidable (Incomplete bytes) :=
  inferInstanceAs (Decidable (∀ line ∈ splitInclusive 10 bytes, isBlankLine line = false))

theorem incomplete_nil : Incomplete [] := by
  intro line hline
  cases hline

section Scan

variable (t : Target)

theorem headerBuf_foldl (lines : List (List UInt8)) (head : Head) :
    (lines.foldl (Head.scanLine t) head).headerBuf = head.headerBuf ++ lines.flatten := by
  induction lines generalizing head with
  | nil => simp
  | cons line lines ih => simp [ih, Head.scanLine]

theorem isChunked_foldl (lines : List (List UInt8)) (head : Head) :
    (lines.foldl (Head.scanLine t) head).isChunked =
      (head.isChunked || lines.any fun line => scanIsChunked (fromUtf8Lossy line)) := by
  induction lines generalizing head with
  | nil => simp
  | cons line lines ih => simp [ih, Head.scanLine, Bool.or_assoc]

theorem contentLength_foldl (lines : List (List UInt8)) (head : Head) :
    (lines.foldl (Head.scanLine t) head).contentLength =
      lines.foldl (fun len line => scanContentLength t (fromUtf8Lossy line) len)
        head.contentLength := by
  induction lines generalizing head with
  | nil => rfl
  | cons line lines ih => exact ih _

@[simp] theorem HeaderBlock.headerBuf_head (block : HeaderBlock) :
    (block.head t).headerBuf = block.bytes := by
  rw [head, headerBuf_foldl, block.flatten_rawLines]
  rfl

/-! ## The header loop on a stream -/

theorem readHeadPass_line (head : Head) {line : List UInt8} (h : 10 ∉ line)
    (hb : isBlankLine (line ++ [10]) = false) (rest : List UInt8) (c : Bool) :
    readHeadPass t head (Stream.mk (line ++ 10 :: rest) c) =
      ⟨.ok (.next (head.scanLine t (line ++ [10]))), ⟨rest, c⟩, []⟩ := by
  have hr : readLineBytes (Stream.mk (line ++ 10 :: rest) c) =
      ⟨.ok (line ++ [10]), ⟨rest, c⟩, []⟩ :=
    (readUntil_eq 10 _).trans (lineRun_line h rest c)
  rw [readHeadPass, bind_ok hr]
  simp [hb]

theorem readHeadPass_blank (head : Head) {blank : List UInt8} (h : isBlankLine blank = true)
    (rest : List UInt8) (c : Bool) :
    readHeadPass t head (Stream.mk (blank ++ rest) c) =
      ⟨.ok (.done (some (head.scanLine t blank))), ⟨rest, c⟩, []⟩ := by
  have hr : readLineBytes (Stream.mk (blank ++ rest) c) = ⟨.ok blank, ⟨rest, c⟩, []⟩ := by
    apply (readUntil_eq 10 _).trans
    have hb : blank = crlf ∨ blank = [10] := by simpa [isBlankLine] using h
    rcases hb with rfl | rfl
    · exact lineRun_line (show (10 : UInt8) ∉ [13] by decide) rest c
    · exact lineRun_line (show (10 : UInt8) ∉ [] by decide) rest c
  have hne : blank.isEmpty = false := by
    rw [List.isEmpty_eq_false_iff]
    rintro rfl
    cases h
  rw [readHeadPass, bind_ok hr]
  simp [h, hne]

/-- The end of the bytes inside a line. -/
theorem readHeadPass_last (head : Head) {line : List UInt8} (h : 10 ∉ line) (hne : line ≠ [])
    (c : Bool) : readHeadPass t head (Stream.mk line c) =
      ⟨atEnd c (.ok (.next (head.scanLine t line))), ⟨[], c⟩, []⟩ := by
  have hr : readLineBytes (Stream.mk line c) = ⟨atEnd c (.ok line), ⟨[], c⟩, []⟩ :=
    (readUntil_eq 10 _).trans (lineRun_last h c)
  have hb : isBlankLine line = false := by
    rw [isBlankLine, Bool.or_eq_false_iff, decide_eq_false_iff_not, decide_eq_false_iff_not]
    constructor <;> rintro rfl <;> exact h (by decide)
  cases c with
  | true =>
    rw [readHeadPass, bind_ok hr]
    simp [hb, hne]
  | false => rw [readHeadPass, bind_halt hr, atEnd_false]

theorem readHeadPass_end (head : Head) (c : Bool) :
    readHeadPass t head (Stream.mk [] c) = ⟨atEnd c (.ok (.done none)), ⟨[], c⟩, []⟩ := by
  have hr : readLineBytes (Stream.mk [] c) = ⟨atEnd c (.ok []), ⟨[], c⟩, []⟩ :=
    (readUntil_eq 10 _).trans (lineRun_nil 10 c)
  cases c with
  | true =>
    rw [readHeadPass, bind_ok hr]
    rfl
  | false => rw [readHeadPass, bind_halt hr, atEnd_false]

theorem readHeadPass_progress : Progress (R := Stream) (readHeadPass t) :=
  (lineLoop_readHeadPass (R := Stream) t).progress

/-- **A header block is read to its end and not beyond.** -/
theorem readHead_block (block : HeaderBlock) (rest : List UInt8) (c : Bool) :
    readHead t (Stream.mk (block.bytes ++ rest) c) = ⟨.ok (some (block.head t)), ⟨rest, c⟩, []⟩ := by
  have main : ∀ (lines : List (List UInt8)) (head : Head), (∀ line ∈ lines, 10 ∉ line) →
      (∀ line ∈ lines, isBlankLine (line ++ [10]) = false) →
      loop (readHeadPass t) head (Stream.mk (lines.flatMap (· ++ [10]) ++ (block.blank ++ rest)) c) =
        ⟨.ok (some ((lines.map (· ++ [10]) ++ [block.blank]).foldl (Head.scanLine t) head)),
          ⟨rest, c⟩, []⟩ := by
    intro lines
    induction lines with
    | nil =>
      intro head _ _
      rw [loop_eq (readHeadPass_progress t), List.flatMap_nil, List.nil_append,
        readHeadPass_blank t head block.ends]
      rfl
    | cons line lines ih =>
      intro head hf hb
      have hline : (line :: lines).flatMap (· ++ [10]) ++ (block.blank ++ rest) =
          line ++ 10 :: (lines.flatMap (· ++ [10]) ++ (block.blank ++ rest)) := by
        simp
      rw [loop_eq (readHeadPass_progress t), hline,
        readHeadPass_line t head (hf line (by simp)) (hb line (by simp)), resume, Run.prepend_nil,
        ih _ (fun l hl => hf l (by simp [hl])) (fun l hl => hb l (by simp [hl]))]
      rfl
  rw [HeaderBlock.bytes, List.append_assoc]
  exact main block.lines Head.empty block.feedless block.nonblank

/-- Where one header block ends, no other one does. -/
theorem HeaderBlock.bytes_append_inj {b₁ b₂ : HeaderBlock} {r₁ r₂ : List UInt8}
    (h : b₁.bytes ++ r₁ = b₂.bytes ++ r₂) : b₁.bytes = b₂.bytes ∧ r₁ = r₂ := by
  let t : Target := ⟨32, false, Target.wide32⟩
  have h₁ := readHead_block t b₁ r₁ true
  rw [h, readHead_block] at h₁
  simp only [Run.mk.injEq, Except.ok.injEq, Option.some.injEq, Stream.mk.injEq, and_true] at h₁
  have hbuf := congrArg Head.headerBuf h₁.1
  rw [headerBuf_head, headerBuf_head] at hbuf
  exact ⟨hbuf.symm, h₁.2.symm⟩

/-- Without a blank line the header loop reads to the end of the bytes. -/
theorem readHead_incomplete {bytes : List UInt8} (h : Incomplete bytes) (c : Bool) :
    readHead t (Stream.mk bytes c) = ⟨atEnd c (.ok none), ⟨[], c⟩, []⟩ := by
  have main : ∀ (n : Nat) (bytes : List UInt8) (head : Head), bytes.length = n →
      (∀ line ∈ splitInclusive 10 bytes, isBlankLine line = false) →
      loop (readHeadPass t) head (Stream.mk bytes c) = ⟨atEnd c (.ok none), ⟨[], c⟩, []⟩ := by
    have hend : ∀ head, loop (readHeadPass t) head (Stream.mk [] c) =
        ⟨atEnd c (.ok none), ⟨[], c⟩, []⟩ := by
      intro head
      rw [loop_eq (readHeadPass_progress t), readHeadPass_end]
      cases c <;> rfl
    intro n
    induction n using Nat.strongRecOn with
    | ind n ih =>
      intro bytes head hn hb
      by_cases hm : (10 : UInt8) ∈ bytes
      · obtain ⟨line, rest, rfl, hline⟩ := List.eq_append_cons_of_mem hm
        rw [splitInclusive_line hline] at hb
        have hlen : rest.length < n := by
          rw [← hn, List.length_append, List.length_cons]
          omega
        rw [loop_eq (readHeadPass_progress t), readHeadPass_line t head hline (hb _ (by simp)), resume,
          Run.prepend_nil, ih _ hlen rest _ rfl fun l hl => hb l (by simp [hl])]
      · by_cases hne : bytes = []
        · subst hne
          exact hend head
        · rw [loop_eq (readHeadPass_progress t), readHeadPass_last t head hm hne]
          cases c with
          | true => exact hend (head.scanLine t bytes)
          | false => rfl
  exact main _ bytes Head.empty rfl h

end Scan

/-- Every byte string starts with a header block or has no blank line. -/
theorem HeaderBlock.exists_or_incomplete (bytes : List UInt8) :
    (∃ (block : HeaderBlock) (rest : List UInt8), bytes = block.bytes ++ rest) ∨
      Incomplete bytes := by
  induction hn : bytes.length using Nat.strongRecOn generalizing bytes with
  | ind n ih =>
    by_cases hm : (10 : UInt8) ∈ bytes
    · obtain ⟨line, rest, rfl, hline⟩ := List.eq_append_cons_of_mem hm
      have hlen : rest.length < n := by
        rw [← hn, List.length_append, List.length_cons]
        omega
      cases hb : isBlankLine (line ++ [10]) with
      | true =>
        refine Or.inl ⟨⟨[], line ++ [10], nofun, nofun, hb⟩, rest, ?_⟩
        simp [HeaderBlock.bytes]
      | false =>
        rcases ih _ hlen rest rfl with ⟨block, rest', rfl⟩ | hrest
        · refine Or.inl ⟨⟨line :: block.lines, block.blank, ?_, ?_, block.ends⟩, rest', ?_⟩
          · intro l hl
            rcases List.mem_cons.mp hl with rfl | hl
            · exact hline
            · exact block.feedless l hl
          · intro l hl
            rcases List.mem_cons.mp hl with rfl | hl
            · exact hb
            · exact block.nonblank l hl
          · simp [HeaderBlock.bytes]
        · refine Or.inr fun l hl => ?_
          rw [splitInclusive_line hline] at hl
          rcases List.mem_cons.mp hl with rfl | hl
          · exact hb
          · exact hrest l hl
    · refine Or.inr fun l hl => ?_
      by_cases hne : bytes = []
      · subst hne
        cases hl
      · rw [splitInclusive_last hm hne, List.mem_singleton] at hl
        subst hl
        rw [isBlankLine, Bool.or_eq_false_iff, decide_eq_false_iff_not, decide_eq_false_iff_not]
        constructor <;> rintro rfl <;> exact hm (by decide)

end DlnaProxy.TcpProxy
