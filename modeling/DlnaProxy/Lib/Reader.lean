import DlnaProxy.Lib.ByteIo

/-!
# Reading lines, exact counts and whole streams

`readUntil`, `readExact` and `copy` are the loops over `fillBuf`, `consume` and
`read` that a buffered reader derives. `Stream` is the reader without arrival:
the bytes still to come, and whether the peer closes after them. A lawful reader
has a view in `Stream`, and each derived operation does on the reader exactly
what its one-step meaning (`lineRun`, `exactRun`, `copyRun`) does on the view.
-/
namespace DlnaProxy.Lib.ByteIo

/-- The bytes that have been sent and not yet read. On a closed stream the end is
the end of input; on an open one a reader waits there. -/
structure Stream where
  bytes : List UInt8
  closed : Bool
  deriving DecidableEq

/-- What a read finds at the end of the bytes. -/
def atEnd (closed : Bool) {α : Type} (a : Except Halt α) : Except Halt α :=
  if closed then a else .error .pending

@[simp] theorem atEnd_true {α : Type} (a : Except Halt α) : atEnd true a = a := rfl

@[simp] theorem atEnd_false {α : Type} (a : Except Halt α) : atEnd false a = .error .pending := rfl

variable {R α : Type}

section Operations

variable [AsyncBufRead R]

/-- The buffer size of `BufReader` and of the copy loops. -/
def defaultBufSize : Nat := 8 * 1024

def readUntilPass (byte : UInt8) (line : List UInt8) : Io R (Control (List UInt8) (List UInt8)) := do
  let available ← fillBuf
  let i := available.findIdx (· == byte)
  if i < available.length then
    consume (i + 1)
    return .done (line ++ available.take (i + 1))
  else
    consume available.length
    if available.isEmpty then return .done line
    else return .next (line ++ available)

def readUntil (byte : UInt8) : Io R (List UInt8) := loop (readUntilPass byte) []

/-- What `read_exact` answers when the input ends before. -/
def earlyEof : IoError := ⟨.unexpectedEof, "early eof".toList⟩

def readExactPass (len : Nat) (buf : List UInt8) : Io R (Control (List UInt8) (List UInt8)) := do
  if len ≤ buf.length then return .done buf
  else
    let bytes ← read (len - buf.length)
    if bytes.isEmpty then fail earlyEof
    else return .next (buf ++ bytes)

def readExact (len : Nat) : Io R (List UInt8) := loop (readExactPass len) []

def copyPass (copied : Nat) : Io R (Control Nat Nat) := do
  let bytes ← read defaultBufSize
  if bytes.isEmpty then return .done copied
  else
    writeAll bytes
    return .next (copied + bytes.length)

/-- Copies to the output until the end of input and counts the bytes. -/
def copy : Io R Nat := loop copyPass 0

end Operations

/-- A reader whose operations deliver, in order and once, the bytes of `view`.
How many bytes `fillBuf` and `read` deliver is left to the reader. -/
class LawfulAsyncBufRead (R : Type) extends AsyncBufRead R where
  view : R → Stream
  unread_view : ∀ r, unread r = (view r).bytes.length
  fillBuf_spec : ∀ r,
    (∃ c r', view r = ⟨[], c⟩ ∧ fillBuf r = ⟨atEnd c (.ok []), r', []⟩ ∧ view r' = ⟨[], c⟩ ∧
      ∃ r'', consume 0 r' = ⟨.ok (), r'', []⟩ ∧ view r'' = ⟨[], c⟩) ∨
    ∃ available rest c r', available ≠ [] ∧ view r = ⟨available ++ rest, c⟩ ∧
      fillBuf r = ⟨.ok available, r', []⟩ ∧
      ∀ n, n ≤ available.length → ∃ r'', consume n r' = ⟨.ok (), r'', []⟩ ∧
        view r'' = ⟨available.drop n ++ rest, c⟩
  read_spec : ∀ r len, 0 < len →
    (∃ c r', view r = ⟨[], c⟩ ∧ read len r = ⟨atEnd c (.ok []), r', []⟩ ∧ view r' = ⟨[], c⟩) ∨
    ∃ bytes rest c r', bytes ≠ [] ∧ bytes.length ≤ len ∧ view r = ⟨bytes ++ rest, c⟩ ∧
      read len r = ⟨.ok bytes, r', []⟩ ∧ view r' = ⟨rest, c⟩

export LawfulAsyncBufRead (view unread_view fillBuf_spec read_spec)

/-- `read_until`: through the first `byte`, or to the end of input. -/
def lineRun (byte : UInt8) (s : Stream) : Run Stream (List UInt8) :=
  let i := s.bytes.findIdx (· == byte)
  if i < s.bytes.length then
    ⟨.ok (s.bytes.take (i + 1)), ⟨s.bytes.drop (i + 1), s.closed⟩, []⟩
  else ⟨atEnd s.closed (.ok s.bytes), ⟨[], s.closed⟩, []⟩

/-- `read_exact`: the next `len` bytes, or an error if the input ends before. -/
def exactRun (len : Nat) (s : Stream) : Run Stream (List UInt8) :=
  if len ≤ s.bytes.length then
    ⟨.ok (s.bytes.take len), ⟨s.bytes.drop len, s.closed⟩, []⟩
  else ⟨atEnd s.closed (.error (.error earlyEof)), ⟨[], s.closed⟩, []⟩

/-- `copy`: everything up to the end of input. -/
def copyRun (s : Stream) : Run Stream Nat :=
  ⟨atEnd s.closed (.ok s.bytes.length), ⟨[], s.closed⟩, s.bytes⟩

def Run.mapOk {β : Type} (f : α → β) (x : Run R α) : Run R β :=
  ⟨x.outcome.map f, x.reader, x.written⟩

@[simp] theorem Run.mapOk_mapOk {β γ : Type} (f : α → β) (g : β → γ) (x : Run R α) :
    (x.mapOk f).mapOk g = x.mapOk (g ∘ f) := by
  rcases x with ⟨_ | _, _, _⟩ <;> rfl

@[simp] theorem Run.mapOk_prepend {β : Type} (f : α → β) (w : List UInt8) (x : Run R α) :
    (x.prepend w).mapOk f = (x.mapOk f).prepend w := rfl

@[simp] theorem Run.mapOk_id (x : Run R α) : x.mapOk id = x := by
  rcases x with ⟨_ | _, _, _⟩ <;> rfl

section Lawful

variable [LawfulAsyncBufRead R]

theorem unread_lt_of_view {r r' : R} {bytes rest : List UInt8} {c c' : Bool} (hb : bytes ≠ [])
    (h : view r = ⟨bytes ++ rest, c⟩) (h' : view r' = ⟨rest, c'⟩) : unread r' < unread r := by
  have hpos := List.length_pos_iff.mpr hb
  simp only [unread_view, h, h', List.length_append]
  omega

/-- One `fill_buf` of `read_until`: the end of the bytes, the delimiter found, or
all that was buffered taken. -/
theorem readUntilPass_spec (byte : UInt8) (line : List UInt8) (r : R) :
    (∃ c r', view r = ⟨[], c⟩ ∧
      readUntilPass byte line r = ⟨atEnd c (.ok (.done line)), r', []⟩ ∧ view r' = ⟨[], c⟩) ∨
    ∃ available rest c r', available ≠ [] ∧ view r = ⟨available ++ rest, c⟩ ∧
      ((available.findIdx (· == byte) < available.length ∧
          readUntilPass byte line r =
            ⟨.ok (.done (line ++ available.take (available.findIdx (· == byte) + 1))), r', []⟩ ∧
          view r' = ⟨available.drop (available.findIdx (· == byte) + 1) ++ rest, c⟩) ∨
        (¬ available.findIdx (· == byte) < available.length ∧
          readUntilPass byte line r = ⟨.ok (.next (line ++ available)), r', []⟩ ∧
          view r' = ⟨rest, c⟩)) := by
  rcases fillBuf_spec r with ⟨c, r', hv, hf, hv', r'', hc, hv''⟩ | ⟨available, rest, c, r', hne, hv, hf, hc⟩
  · refine Or.inl ⟨c, ?_⟩
    cases c with
    | true =>
      refine ⟨r'', hv, ?_, hv''⟩
      rw [readUntilPass, bind_ok hf]
      simp [bind_ok hc, Run.prepend_mk]
    | false => exact ⟨r', hv, by rw [readUntilPass, bind_halt hf]; rfl, hv'⟩
  · refine Or.inr ⟨available, rest, c, ?_⟩
    by_cases hi : available.findIdx (· == byte) < available.length
    · obtain ⟨r'', hc', hv'⟩ := hc _ hi
      refine ⟨r'', hne, hv, Or.inl ⟨hi, ?_, hv'⟩⟩
      rw [readUntilPass, bind_ok hf]
      simp [hi, bind_ok hc', Run.prepend_mk]
    · obtain ⟨r'', hc', hv'⟩ := hc _ (Nat.le_refl _)
      refine ⟨r'', hne, hv, Or.inr ⟨hi, ?_, by simpa using hv'⟩⟩
      rw [readUntilPass, bind_ok hf]
      simp [hi, bind_ok hc', hne, Run.prepend_mk]

theorem readUntilPass_progress (byte : UInt8) : Progress (R := R) (readUntilPass byte) := by
  intro line r line' h
  rcases readUntilPass_spec byte line r with
    ⟨c, r', _, he, _⟩ | ⟨available, rest, c, r', hne, hv, ⟨_, he, _⟩ | ⟨_, he, hv'⟩⟩ <;> rw [he] at h
  · cases c <;> cases h
  · cases h
  · rw [he]
    exact unread_lt_of_view hne hv hv'

theorem lineRun_append_of_not_mem {byte : UInt8} {available rest : List UInt8} {c : Bool}
    (h : ¬ available.findIdx (· == byte) < available.length) :
    lineRun byte ⟨available ++ rest, c⟩ = (lineRun byte ⟨rest, c⟩).mapOk (available ++ ·) := by
  have hlen : available.findIdx (· == byte) = available.length :=
    Nat.le_antisymm List.findIdx_le_length (Nat.not_lt.mp h)
  have hidx : (available ++ rest).findIdx (· == byte) =
      available.length + rest.findIdx (· == byte) := by
    rw [List.findIdx_append, if_neg h, Nat.add_comm]
  simp only [lineRun, hidx, List.length_append, Nat.add_lt_add_iff_left]
  split
  · simp [Run.mapOk, Except.map, Nat.add_assoc, List.take_append, List.drop_append,
      List.take_of_length_le (Nat.le_add_right available.length _)]
  · cases c <;> simp [Run.mapOk, Except.map]

theorem lineRun_append_of_mem {byte : UInt8} {available rest : List UInt8} {c : Bool}
    (h : available.findIdx (· == byte) < available.length) :
    lineRun byte ⟨available ++ rest, c⟩ =
      ⟨.ok (available.take (available.findIdx (· == byte) + 1)),
        ⟨available.drop (available.findIdx (· == byte) + 1) ++ rest, c⟩, []⟩ := by
  have hidx : (available ++ rest).findIdx (· == byte) = available.findIdx (· == byte) := by
    rw [List.findIdx_append, if_pos h]
  simp only [lineRun, hidx, List.length_append]
  rw [if_pos (by omega), List.take_append_of_le_length h, List.drop_append_of_le_length h]

/-- A line that is there is read, and nothing after it. -/
theorem lineRun_line {byte : UInt8} {line : List UInt8} (h : byte ∉ line) (rest : List UInt8)
    (c : Bool) : lineRun byte ⟨line ++ byte :: rest, c⟩ = ⟨.ok (line ++ [byte]), ⟨rest, c⟩, []⟩ := by
  have hidx : (line ++ byte :: rest).findIdx (· == byte) = line.length := by
    rw [List.findIdx_append, if_neg]
    · simp [List.findIdx_cons]
    · rw [List.findIdx_lt_length]
      rintro ⟨x, hx, he⟩
      exact h (eq_of_beq he ▸ hx)
  have hlen : line.length < (line ++ byte :: rest).length := by
    rw [List.length_append, List.length_cons]
    omega
  simp only [lineRun, hidx]
  rw [if_pos hlen, List.take_append, List.drop_append,
    List.take_of_length_le (Nat.le_add_right line.length 1)]
  simp

/-- A line that the input ends in is read as far as it goes. -/
theorem lineRun_last {byte : UInt8} {line : List UInt8} (h : byte ∉ line) (c : Bool) :
    lineRun byte ⟨line, c⟩ = ⟨atEnd c (.ok line), ⟨[], c⟩, []⟩ := by
  have hidx : ¬ line.findIdx (· == byte) < line.length := by
    rw [List.findIdx_lt_length]
    rintro ⟨x, hx, he⟩
    exact h (eq_of_beq he ▸ hx)
  simp only [lineRun]
  rw [if_neg hidx]

theorem lineRun_nil (byte : UInt8) (c : Bool) :
    lineRun byte ⟨[], c⟩ = ⟨atEnd c (.ok []), ⟨[], c⟩, []⟩ := rfl

theorem readUntil_view (byte : UInt8) (r : R) :
    (readUntil byte r).mapReader view = lineRun byte (view r) := by
  have main : ∀ (line : List UInt8) (r : R),
      (loop (readUntilPass byte) line r).mapReader view =
        (lineRun byte (view r)).mapOk (line ++ ·) := by
    refine loop_rule (readUntilPass_progress byte)
      (P := fun line r x => x.mapReader view = (lineRun byte (view r)).mapOk (line ++ ·)) ?_ ?_ ?_
    · intro line r line' r' w he ih
      rcases readUntilPass_spec byte line r with
        ⟨c, r₁, _, he', _⟩ | ⟨available, rest, c, r₁, _, hv, ⟨_, he', _⟩ | ⟨hi, he', hv'⟩⟩ <;>
        rw [he] at he'
      · cases c <;> cases he'
      · cases he'
      · cases he'
        rw [Run.prepend_nil, ih, hv, hv', lineRun_append_of_not_mem hi, Run.mapOk_mapOk]
        congr 1
        funext a
        simp
    · intro line r a r' w he
      rcases readUntilPass_spec byte line r with
        ⟨c, r₁, hv, he', hv'⟩ | ⟨available, rest, c, r₁, _, hv, ⟨hi, he', hv'⟩ | ⟨_, he', _⟩⟩ <;>
        rw [he] at he'
      · cases c <;> cases he'
        simp [Run.mapReader, Run.mapOk, hv, hv', lineRun_nil, Except.map]
      · cases he'
        rw [hv, lineRun_append_of_mem hi]
        simp [Run.mapReader, Run.mapOk, hv', Except.map]
      · cases he'
    · intro line r h r' w he
      rcases readUntilPass_spec byte line r with
        ⟨c, r₁, hv, he', hv'⟩ | ⟨available, rest, c, r₁, _, _, ⟨_, he', _⟩ | ⟨_, he', _⟩⟩ <;>
        rw [he] at he'
      · cases c <;> cases he'
        simp [Run.mapReader, Run.mapOk, hv, hv', lineRun_nil, Except.map]
      · cases he'
      · cases he'
  exact (main [] r).trans (Run.mapOk_id _)

/-- The remaining bytes of `read_exact` once `buf` has been filled. -/
def exactFrom (len : Nat) (buf : List UInt8) (s : Stream) : Run Stream (List UInt8) :=
  (exactRun (len - buf.length) s).mapOk (buf ++ ·)

theorem exactRun_append {len : Nat} {bytes rest : List UInt8} {c : Bool} (h : bytes.length ≤ len) :
    exactRun len ⟨bytes ++ rest, c⟩ =
      (exactRun (len - bytes.length) ⟨rest, c⟩).mapOk (bytes ++ ·) := by
  simp only [exactRun, List.length_append]
  by_cases hl : len ≤ bytes.length + rest.length
  · rw [if_pos hl, if_pos (by omega)]
    simp [Run.mapOk, Except.map, List.take_append, List.drop_append, List.take_of_length_le h, h]
  · rw [if_neg hl, if_neg (by omega)]
    cases c <;> rfl

theorem exactRun_zero (s : Stream) : exactRun 0 s = ⟨.ok [], s, []⟩ := by
  simp [exactRun]

theorem exactRun_nil {len : Nat} (h : 0 < len) (c : Bool) :
    exactRun len ⟨[], c⟩ = ⟨atEnd c (.error (.error earlyEof)), ⟨[], c⟩, []⟩ := by
  simp [exactRun, Nat.not_le.mpr h]

/-- One `read` of `read_exact`. -/
theorem readExactPass_spec {len : Nat} {buf : List UInt8} (h : buf.length < len) (r : R) :
    (∃ c r', view r = ⟨[], c⟩ ∧ view r' = ⟨[], c⟩ ∧
      readExactPass len buf r = ⟨atEnd c (.error (.error earlyEof)), r', []⟩) ∨
    ∃ bytes rest c r', bytes ≠ [] ∧ bytes.length ≤ len - buf.length ∧
      view r = ⟨bytes ++ rest, c⟩ ∧ view r' = ⟨rest, c⟩ ∧
      readExactPass len buf r = ⟨.ok (.next (buf ++ bytes)), r', []⟩ := by
  rcases read_spec r (len - buf.length) (by omega) with
    ⟨c, r', hv, hr, hv'⟩ | ⟨bytes, rest, c, r', hne, hle, hv, hr, hv'⟩
  · refine Or.inl ⟨c, r', hv, hv', ?_⟩
    rw [readExactPass, if_neg (by omega)]
    cases c with
    | true => rw [bind_ok hr]; rfl
    | false => rw [bind_halt hr]; rfl
  · refine Or.inr ⟨bytes, rest, c, r', hne, hle, hv, hv', ?_⟩
    rw [readExactPass, if_neg (by omega), bind_ok hr]
    simp [hne]

theorem readExactPass_progress (len : Nat) : Progress (R := R) (readExactPass len) := by
  intro buf r buf' h
  by_cases hl : buf.length < len
  · rcases readExactPass_spec hl r with ⟨c, r', _, _, he⟩ | ⟨bytes, rest, c, r', hne, _, hv, hv', he⟩
    · rw [he] at h
      cases c <;> cases h
    · rw [he]
      exact unread_lt_of_view hne hv hv'
  · rw [readExactPass, if_pos (by omega)] at h
    cases h

theorem readExact_view (len : Nat) (r : R) :
    (readExact len r).mapReader view = exactRun len (view r) := by
  have main : ∀ (buf : List UInt8) (r : R),
      (loop (readExactPass len) buf r).mapReader view = exactFrom len buf (view r) := by
    refine loop_rule (readExactPass_progress len)
      (P := fun buf r x => x.mapReader view = exactFrom len buf (view r)) ?_ ?_ ?_
    · intro buf r buf' r' w he ih
      by_cases hl : buf.length < len
      · rcases readExactPass_spec hl r with
          ⟨c, r₁, _, _, he'⟩ | ⟨bytes, rest, c, r₁, _, hle, hv, hv', he'⟩ <;> rw [he] at he'
        · cases c <;> cases he'
        · cases he'
          rw [Run.prepend_nil, ih, hv, hv', exactFrom, exactFrom, exactRun_append hle,
            Run.mapOk_mapOk, List.length_append, Nat.sub_sub]
          congr 1
          funext a
          simp
      · rw [readExactPass, if_pos (by omega)] at he
        cases he
    · intro buf r a r' w he
      by_cases hl : buf.length < len
      · rcases readExactPass_spec hl r with
          ⟨c, r₁, _, _, he'⟩ | ⟨bytes, rest, c, r₁, _, _, _, _, he'⟩ <;> rw [he] at he'
        · cases c <;> cases he'
        · cases he'
      · rw [readExactPass, if_pos (by omega)] at he
        cases he
        rw [exactFrom, Nat.sub_eq_zero_of_le (by omega), exactRun_zero]
        simp [Run.mapReader, Run.mapOk, Except.map]
    · intro buf r h r' w he
      by_cases hl : buf.length < len
      · rcases readExactPass_spec hl r with
          ⟨c, r₁, hv, hv', he'⟩ | ⟨bytes, rest, c, r₁, _, _, _, _, he'⟩ <;> rw [he] at he'
        · rw [exactFrom, hv, exactRun_nil (by omega)]
          cases c <;> cases he' <;> simp [Run.mapReader, Run.mapOk, hv', Except.map]
        · cases he'
      · rw [readExactPass, if_pos (by omega)] at he
        cases he
  exact (main [] r).trans (Run.mapOk_id _)

theorem copyPass_spec (copied : Nat) (r : R) :
    (∃ c r', view r = ⟨[], c⟩ ∧ view r' = ⟨[], c⟩ ∧
      copyPass copied r = ⟨atEnd c (.ok (.done copied)), r', []⟩) ∨
    ∃ bytes rest c r', bytes ≠ [] ∧ view r = ⟨bytes ++ rest, c⟩ ∧ view r' = ⟨rest, c⟩ ∧
      copyPass copied r = ⟨.ok (.next (copied + bytes.length)), r', bytes⟩ := by
  rcases read_spec r defaultBufSize (by decide) with
    ⟨c, r', hv, hr, hv'⟩ | ⟨bytes, rest, c, r', hne, _, hv, hr, hv'⟩
  · refine Or.inl ⟨c, r', hv, hv', ?_⟩
    cases c with
    | true => rw [copyPass, bind_ok hr]; rfl
    | false => rw [copyPass, bind_halt hr]; rfl
  · refine Or.inr ⟨bytes, rest, c, r', hne, hv, hv', ?_⟩
    rw [copyPass, bind_ok hr]
    simp [hne, Run.prepend_mk]

theorem copyPass_progress : Progress (R := R) copyPass := by
  intro copied r copied' h
  rcases copyPass_spec copied r with ⟨c, r', _, _, he⟩ | ⟨bytes, rest, c, r', hne, hv, hv', he⟩
  · rw [he] at h
    cases c <;> cases h
  · rw [he]
    exact unread_lt_of_view hne hv hv'

theorem copyRun_append (bytes rest : List UInt8) (c : Bool) :
    copyRun ⟨bytes ++ rest, c⟩ =
      ((copyRun ⟨rest, c⟩).mapOk (bytes.length + ·)).prepend bytes := by
  cases c <;> simp [copyRun, Run.mapOk, Run.prepend, Except.map]

theorem copy_view (r : R) : (copy r).mapReader view = copyRun (view r) := by
  have main : ∀ (copied : Nat) (r : R), (loop copyPass copied r).mapReader view =
      (copyRun (view r)).mapOk (copied + ·) := by
    refine loop_rule copyPass_progress
      (P := fun copied r x => x.mapReader view = (copyRun (view r)).mapOk (copied + ·)) ?_ ?_ ?_
    · intro copied r copied' r' w he ih
      rcases copyPass_spec copied r with
        ⟨c, r₁, _, _, he'⟩ | ⟨bytes, rest, c, r₁, _, hv, hv', he'⟩ <;> rw [he] at he'
      · cases c <;> cases he'
      · cases he'
        rw [Run.mapReader_prepend, ih, hv, hv', copyRun_append, Run.mapOk_prepend, Run.mapOk_mapOk]
        congr 2
        funext n
        simp [Nat.add_assoc]
    · intro copied r a r' w he
      rcases copyPass_spec copied r with
        ⟨c, r₁, hv, hv', he'⟩ | ⟨bytes, rest, c, r₁, _, _, _, he'⟩ <;> rw [he] at he'
      · cases c <;> cases he'
        simp [Run.mapReader, Run.mapOk, copyRun, hv, hv', Except.map]
      · cases he'
    · intro copied r h r' w he
      rcases copyPass_spec copied r with
        ⟨c, r₁, hv, hv', he'⟩ | ⟨bytes, rest, c, r₁, _, _, _, he'⟩ <;> rw [he] at he'
      · cases c <;> cases he'
        simp [Run.mapReader, Run.mapOk, copyRun, hv, hv', Except.map]
      · cases he'
  refine (main 0 r).trans ?_
  rw [show ((0 : Nat) + ·) = id from funext Nat.zero_add, Run.mapOk_id]

end Lawful

end DlnaProxy.Lib.ByteIo
