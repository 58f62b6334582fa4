import DlnaProxy.Lib.Reader

/-!
# Two lawful readers

`Stream` itself reads as a cursor does: every operation delivers all it can.
`BufReader` is the buffered socket: its bytes arrive in pieces, one for each read
of the socket, and `fillBuf` and `read` deliver what the current piece allows.
-/
namespace DlnaProxy.Lib.ByteIo

namespace Stream

protected def fillBuf : Io Stream (List UInt8) := fun s =>
  ⟨if s.bytes.isEmpty then atEnd s.closed (.ok []) else .ok s.bytes, s, []⟩

protected def consume (amt : Nat) : Io Stream Unit := fun s =>
  ⟨.ok (), ⟨s.bytes.drop amt, s.closed⟩, []⟩

protected def read (len : Nat) : Io Stream (List UInt8) := fun s =>
  ⟨if s.bytes.isEmpty then atEnd s.closed (.ok []) else .ok (s.bytes.take len),
    ⟨s.bytes.drop len, s.closed⟩, []⟩

instance : LawfulAsyncBufRead Stream where
  fillBuf := Stream.fillBuf
  consume := Stream.consume
  read := Stream.read
  unread s := s.bytes.length
  view := id
  unread_view _ := rfl
  fillBuf_spec := by
    rintro ⟨bytes, c⟩
    cases bytes with
    | nil => exact Or.inl ⟨c, ⟨[], c⟩, rfl, rfl, rfl, ⟨[], c⟩, rfl, rfl⟩
    | cons b bs =>
      refine Or.inr ⟨b :: bs, [], c, ⟨b :: bs, c⟩, by simp, by simp, rfl, ?_⟩
      intro n _
      exact ⟨_, rfl, by simp⟩
  read_spec := by
    rintro ⟨bytes, c⟩ len hlen
    cases bytes with
    | nil => exact Or.inl ⟨c, ⟨[], c⟩, rfl, by simp [Stream.read], rfl⟩
    | cons b bs =>
      refine Or.inr ⟨(b :: bs).take len, (b :: bs).drop len, c, _, ?_, ?_, ?_, rfl, rfl⟩
      · simpa using Nat.ne_of_gt hlen
      · simp only [List.length_take]
        omega
      · simp

@[simp] theorem view_eq (s : Stream) : view s = s := rfl

@[simp] theorem unread_eq (s : Stream) : unread s = s.bytes.length := rfl

end Stream

/-- What one read of the socket returns: at least one byte. -/
abbrev Piece := {bytes : List UInt8 // bytes ≠ []}

/-- The pieces left of a piece of which a read took the first `len` bytes. -/
def Piece.rest (p : Piece) (len : Nat) : List Piece :=
  if h : p.1.drop len = [] then [] else [⟨p.1.drop len, h⟩]

structure BufReader where
  buf : List UInt8
  arrivals : List Piece
  closed : Bool

namespace BufReader

def new (arrivals : List Piece) (closed : Bool) : BufReader := ⟨[], arrivals, closed⟩

def joined (arrivals : List Piece) : List UInt8 := (arrivals.map (·.1)).flatten

def bytes (r : BufReader) : List UInt8 := r.buf ++ joined r.arrivals

def stream (r : BufReader) : Stream := ⟨r.bytes, r.closed⟩

/-- One read of the socket into a buffer of `len` bytes. -/
def poll (len : Nat) (arrivals : List Piece) (closed : Bool) :
    Except Halt (List UInt8) × List Piece :=
  match arrivals with
  | [] => (atEnd closed (.ok []), [])
  | p :: ps => (.ok (p.1.take len), p.rest len ++ ps)

protected def fillBuf : Io BufReader (List UInt8) := fun r =>
  if r.buf.isEmpty then
    match poll defaultBufSize r.arrivals r.closed with
    | (.ok bytes, arrivals) => ⟨.ok bytes, ⟨bytes, arrivals, r.closed⟩, []⟩
    | (.error h, arrivals) => ⟨.error h, ⟨[], arrivals, r.closed⟩, []⟩
  else ⟨.ok r.buf, r, []⟩

protected def consume (amt : Nat) : Io BufReader Unit := fun r =>
  ⟨.ok (), ⟨r.buf.drop amt, r.arrivals, r.closed⟩, []⟩

/-- A read of at least a whole buffer goes past an empty buffer. -/
protected def read (len : Nat) : Io BufReader (List UInt8) := fun r =>
  if r.buf.isEmpty && defaultBufSize ≤ len then
    match poll len r.arrivals r.closed with
    | (o, arrivals) => ⟨o, ⟨[], arrivals, r.closed⟩, []⟩
  else (do
    let available ← BufReader.fillBuf
    let amt := min available.length len
    BufReader.consume amt
    return available.take amt) r

theorem joined_rest (p : Piece) (len : Nat) (ps : List Piece) :
    joined (p.rest len ++ ps) = p.1.drop len ++ joined ps := by
  unfold Piece.rest
  split
  · next h => simp [joined, h]
  · simp [joined]

theorem joined_cons (p : Piece) (ps : List Piece) : joined (p :: ps) = p.1 ++ joined ps := rfl

theorem fillBuf_eq (r : BufReader) :
    (r.stream = ⟨[], r.closed⟩ ∧ BufReader.fillBuf r =
        ⟨atEnd r.closed (.ok []), ⟨[], [], r.closed⟩, []⟩) ∨
    ∃ available arrivals, available ≠ [] ∧
      r.stream = ⟨available ++ joined arrivals, r.closed⟩ ∧
      BufReader.fillBuf r = ⟨.ok available, ⟨available, arrivals, r.closed⟩, []⟩ := by
  rcases r with ⟨buf, arrivals, c⟩
  cases buf with
  | cons b bs => exact Or.inr ⟨b :: bs, arrivals, by simp, rfl, rfl⟩
  | nil =>
    cases arrivals with
    | nil => exact Or.inl ⟨rfl, by cases c <;> rfl⟩
    | cons p ps =>
      refine Or.inr ⟨p.1.take defaultBufSize, p.rest defaultBufSize ++ ps, ?_, ?_, rfl⟩
      · have hp := p.2
        simp [defaultBufSize, hp]
      · simp only [stream, bytes, joined_rest, joined_cons, List.nil_append]
        rw [← List.append_assoc, List.take_append_drop]

theorem read_short {len : Nat} (hlen : 0 < len) (r : BufReader)
    (h : (r.buf.isEmpty && defaultBufSize ≤ len) = false) :
    (r.stream = ⟨[], r.closed⟩ ∧ BufReader.read len r =
        ⟨atEnd r.closed (.ok []), ⟨[], [], r.closed⟩, []⟩) ∨
    ∃ bytes rest r', bytes ≠ [] ∧ bytes.length ≤ len ∧ r.stream = ⟨bytes ++ rest, r.closed⟩ ∧
      BufReader.read len r = ⟨.ok bytes, r', []⟩ ∧ r'.stream = ⟨rest, r.closed⟩ := by
  rw [BufReader.read, if_neg (by simp [h])]
  rcases fillBuf_eq r with ⟨hs, hf⟩ | ⟨available, arrivals, hne, hs, hf⟩
  · refine Or.inl ⟨hs, ?_⟩
    cases hc : r.closed <;> rw [hc] at hf
    · rw [bind_halt hf]
      rfl
    · rw [bind_ok hf]
      rfl
  · refine Or.inr ⟨available.take (min available.length len),
      available.drop (min available.length len) ++ joined arrivals,
      ⟨available.drop (min available.length len), arrivals, r.closed⟩, ?_, ?_, ?_, ?_, rfl⟩
    · have hpos := List.length_pos_iff.mpr hne
      intro he
      have hl := congrArg List.length he
      simp only [List.length_take, List.length_nil] at hl
      omega
    · simp only [List.length_take]
      omega
    · rw [hs, ← List.append_assoc, List.take_append_drop]
    · rw [bind_ok hf]
      rfl

theorem read_direct {len : Nat} (hlen : 0 < len) (r : BufReader)
    (h : (r.buf.isEmpty && defaultBufSize ≤ len) = true) :
    (r.stream = ⟨[], r.closed⟩ ∧ BufReader.read len r =
        ⟨atEnd r.closed (.ok []), ⟨[], [], r.closed⟩, []⟩) ∨
    ∃ bytes rest r', bytes ≠ [] ∧ bytes.length ≤ len ∧ r.stream = ⟨bytes ++ rest, r.closed⟩ ∧
      BufReader.read len r = ⟨.ok bytes, r', []⟩ ∧ r'.stream = ⟨rest, r.closed⟩ := by
  rw [BufReader.read, if_pos h]
  rcases r with ⟨buf, arrivals, c⟩
  simp only [Bool.and_eq_true, List.isEmpty_iff, decide_eq_true_eq] at h
  obtain ⟨rfl, _⟩ := h
  cases arrivals with
  | nil => exact Or.inl ⟨rfl, rfl⟩
  | cons p ps =>
    refine Or.inr ⟨p.1.take len, p.1.drop len ++ joined ps, ⟨[], p.rest len ++ ps, c⟩, ?_, ?_, ?_,
      rfl, ?_⟩
    · have hp := p.2
      simp [hp, Nat.ne_of_gt hlen]
    · simp only [List.length_take]
      omega
    · simp only [stream, bytes, joined_cons, List.nil_append]
      rw [← List.append_assoc, List.take_append_drop]
    · simp [stream, bytes, joined_rest]

instance : LawfulAsyncBufRead BufReader where
  fillBuf := BufReader.fillBuf
  consume := BufReader.consume
  read := BufReader.read
  unread r := r.bytes.length
  view := stream
  unread_view _ := rfl
  fillBuf_spec r := by
    rcases fillBuf_eq r with ⟨hs, hf⟩ | ⟨available, arrivals, hne, hs, hf⟩
    · exact Or.inl ⟨r.closed, _, hs, hf, rfl, _, rfl, rfl⟩
    · exact Or.inr ⟨available, joined arrivals, r.closed, _, hne, hs, hf, fun n _ => ⟨_, rfl, rfl⟩⟩
  read_spec r len hlen := by
    cases h : (r.buf.isEmpty && decide (defaultBufSize ≤ len)) with
    | true =>
      rcases read_direct hlen r h with ⟨hs, hr⟩ | ⟨bytes, rest, r', hr⟩
      · exact Or.inl ⟨r.closed, _, hs, hr, rfl⟩
      · exact Or.inr ⟨bytes, rest, r.closed, r', hr⟩
    | false =>
      rcases read_short hlen r h with ⟨hs, hr⟩ | ⟨bytes, rest, r', hr⟩
      · exact Or.inl ⟨r.closed, _, hs, hr, rfl⟩
      · exact Or.inr ⟨bytes, rest, r.closed, r', hr⟩

@[simp] theorem view_eq (r : BufReader) : view r = r.stream := rfl

@[simp] theorem stream_new (arrivals : List Piece) (closed : Bool) :
    (new arrivals closed).stream = ⟨joined arrivals, closed⟩ := rfl

/-- The arrival of a whole byte string by one read. -/
def onePiece (bytes : List UInt8) : List Piece :=
  if h : bytes = [] then [] else [⟨bytes, h⟩]

@[simp] theorem joined_onePiece (bytes : List UInt8) : joined (onePiece bytes) = bytes := by
  unfold onePiece
  split
  · next h => simp [joined, h]
  · simp [joined]

end BufReader

end DlnaProxy.Lib.ByteIo
