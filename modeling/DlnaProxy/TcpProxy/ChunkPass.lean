import DlnaProxy.TcpProxy.Chunked

/-!
# What the chunk loops read

`parse_chunk_size` cuts a line, trims it and reads digits, so it accepts more than
size lines. `PassReads` says what one pass of either chunk loop has read when it
returns and `BodyReads` what a whole loop has: the two loops read alike, and differ
in what they write and in the limit that the buffering one puts on the size.
-/
namespace DlnaProxy.TcpProxy

open DlnaProxy.Lib.ByteIo DlnaProxy.Lib.Growth DlnaProxy.Lib.Utf8

/-! ## Size lines as they are accepted -/

/-- Hex digits after a plus sign or none, with white space around them. -/
structure SizeText where
  before : Str
  sign : Str
  number : Numeral 16
  after : Str
  blanks : ∀ c ∈ before ++ after, isWhitespace c = true
  sign_eq : sign = [] ∨ sign = ['+']

def SizeText.text (size : SizeText) : Str :=
  size.before ++ (size.sign ++ size.number.text) ++ size.after

theorem SizeText.trim_text (size : SizeText) : trim size.text = size.sign ++ size.number.text := by
  have hdigits : ∀ c ∈ size.sign ++ size.number.text, isWhitespace c = false := by
    intro c hc
    rcases List.mem_append.mp hc with hc | hc
    · rcases size.sign_eq with heq | heq <;> rw [heq] at hc
      · cases hc
      · rw [List.mem_singleton.mp hc]
        decide
    · exact (size.number.alphaNum c hc).not_whitespace
  apply trim_pad
  · exact fun c hc => size.blanks c (List.mem_append_left _ hc)
  · exact fun c hc => size.blanks c (List.mem_append_right _ hc)
  · exact hdigits
  · exact fun hnil => size.number.nonempty (List.append_eq_nil_iff.mp hnil).2

/-- **The lines that are read as the size `n`**: up to the first semicolon, CR, LF
or space they are a size text of that value. -/
theorem parseChunkSize_eq_ok_iff {t : Target} {line : List UInt8} {n : Nat} :
    parseChunkSize t line = .ok n ↔ ∃ size : SizeText,
      line.take (hexEnd line) = asBytes size.text ∧ size.number.value = n ∧ n < 2 ^ t.bits := by
  unfold parseChunkSize
  constructor
  · intro h
    split at h
    · cases h
    · next hexStr htext =>
      split at h
      · next m hread =>
        cases h
        obtain ⟨sign, number, hsign, htrim, hvalue, hfit⟩ :=
          (fromStrRadix_eq_ok_iff (by decide)).mp hread
        obtain ⟨before, after, hbefore, hafter, hpad⟩ := exists_trim hexStr
        have hblanks : ∀ c ∈ before ++ after, isWhitespace c = true := by
          intro c hc
          rcases List.mem_append.mp hc with hc | hc
          · exact hbefore c hc
          · exact hafter c hc
        refine ⟨⟨before, sign, number, after, hblanks, hsign⟩, ?_, hvalue, hfit⟩
        rw [SizeText.text, ← htrim, ← hpad]
        exact (fromUtf8_eq_some.mp htext).symm
      · cases h
  · rintro ⟨size, htext, hvalue, hfit⟩
    have hutf8 : fromUtf8 (line.take (hexEnd line)) = some size.text :=
      fromUtf8_eq_some.mpr htext.symm
    have hread : fromStrRadix t.bits 16 (trim size.text) = .ok n := by
      rw [size.trim_text]
      exact (fromStrRadix_eq_ok_iff (by decide)).mpr
        ⟨size.sign, size.number, size.sign_eq, rfl, hvalue, hfit⟩
    rw [hutf8]
    dsimp only
    rw [hread]

/-! ## Passes -/

variable (t : Target)

/-- What a pass that returns has read from a stream: nothing at the end of input, a
size of zero and a line after it, or a chunk of some data and two bytes. -/
inductive PassReads (s : Stream) : Option (List UInt8) → List UInt8 → Stream → Prop
  | ended {s' : Stream} (read : readLineBytes s = ⟨.ok [], s', []⟩) : PassReads s none [] s'
  | last {line trailer : List UInt8} {s₁ s' : Stream}
      (read : readLineBytes s = ⟨.ok line, s₁, []⟩) (line_ne : line ≠ [])
      (size : parseChunkSize t line = .ok 0)
      (readTrailer : readLineBytes s₁ = ⟨.ok trailer, s', []⟩) :
      PassReads s none (line ++ trailer) s'
  | chunk {line data ends rest : List UInt8} {c : Bool}
      (read : readLineBytes s = ⟨.ok line, ⟨data ++ (ends ++ rest), c⟩, []⟩) (line_ne : line ≠ [])
      (size : parseChunkSize t line = .ok data.length) (data_ne : data ≠ [])
      (two : ends.length = 2) : PassReads s (some data) (line ++ (data ++ ends)) ⟨rest, c⟩

theorem readExact_ok {n : Nat} {s r : Stream} {bytes w : List UInt8}
    (h : readExact n s = ⟨.ok bytes, r, w⟩) :
    bytes.length = n ∧ s = ⟨bytes ++ r.bytes, r.closed⟩ ∧ w = [] := by
  rw [readExact_eq, exactRun] at h
  split at h
  · next hle =>
    cases h
    refine ⟨List.length_take_of_le hle, ?_, rfl⟩
    rw [List.take_append_drop]
  · cases hc : s.closed <;> rw [hc] at h <;> cases h

/-- The two bytes after the data of a chunk. -/
theorem readExact_two {ends : List UInt8} (two : ends.length = 2) (rest : List UInt8) (c : Bool) :
    readExact 2 (Stream.mk (ends ++ rest) c) = ⟨.ok ends, ⟨rest, c⟩, []⟩ :=
  two ▸ readExact_body ends rest c

theorem readLineBytes_ok {s r : Stream} {line w : List UInt8}
    (h : readLineBytes s = ⟨.ok line, r, w⟩) :
    s = ⟨line ++ r.bytes, r.closed⟩ ∧ w = [] := by
  obtain ⟨hbytes, hclosed, hw⟩ := lineRun_length ((readUntil_eq 10 s).symm.trans h)
  exact ⟨by rw [← hbytes, hclosed], hw⟩

theorem ofExcept_ok {α R : Type} {x : Except IoError α} {a : α} {r r' : R} {w : List UInt8}
    (h : (ofExcept x : Io R α) r = ⟨.ok a, r', w⟩) : x = .ok a ∧ r' = r ∧ w = [] := by
  cases x with
  | ok b =>
    cases h
    exact ⟨rfl, rfl, rfl⟩
  | error e => cases h

/-- All that a pass reads is what the stream had before it. -/
theorem PassReads.bytes_eq {s s' : Stream} {data : Option (List UInt8)} {consumed : List UInt8}
    (h : PassReads t s data consumed s') : s = ⟨consumed ++ s'.bytes, s'.closed⟩ := by
  cases h with
  | ended read => exact (readLineBytes_ok read).1
  | last read _ _ readTrailer =>
    obtain ⟨hs, _⟩ := readLineBytes_ok read
    obtain ⟨hs₁, _⟩ := readLineBytes_ok readTrailer
    rw [hs, hs₁, List.append_assoc]
  | chunk read _ _ _ _ =>
    rw [(readLineBytes_ok read).1]
    simp

section Buffering

variable {maxSize : Nat}

theorem usizeAdd_ok {a b size : Nat} {s r : Stream} {w : List UInt8}
    (h : usizeAdd t a b s = ⟨.ok size, r, w⟩) : r = s ∧ w = [] := by
  unfold usizeAdd at h
  split at h
  · cases h
    exact ⟨rfl, rfl⟩
  · split at h <;> cases h
    exact ⟨rfl, rfl⟩

theorem allocate_ok {n : Nat} {s r : Stream} {w : List UInt8}
    (h : allocate t n s = ⟨.ok (), r, w⟩) : r = s ∧ w = [] := by
  unfold allocate at h
  split at h <;> cases h
  exact ⟨rfl, rfl⟩

/-- The capacity of a vector of bytes fits `isize`. -/
def Fits (capacity : Nat) : Prop := capacity < 2 ^ (t.bits - 1)

variable {t} in
/-- What a vector that fits holds fits too. -/
theorem Fits.length_lt {v : Vec UInt8} (h : Fits t v.capacity) :
    v.toList.length < 2 ^ (t.bits - 1) :=
  Nat.lt_of_le_of_lt v.length_le h

theorem extendFromSlice_ok {body out : Vec UInt8} {chunk : List UInt8} {s r : Stream}
    {w : List UInt8} (h : extendFromSlice t body chunk s = ⟨.ok out, r, w⟩) :
    Fits t (body.extended chunk).capacity ∧ out = body.extended chunk ∧ r = s ∧ w = [] := by
  unfold extendFromSlice at h
  split at h
  · next hfit =>
    cases h
    exact ⟨hfit, rfl, rfl, rfl⟩
  · cases h

theorem two_pow_eq : 2 ^ t.bits = 2 * 2 ^ (t.bits - 1) := by
  have hwide := t.wide
  rw [← Nat.pow_succ']
  congr 1
  omega

theorem two_pow_isize_lt : 2 ^ (t.bits - 1) < 2 ^ t.bits := by
  apply Nat.pow_lt_pow_right (by decide)
  have hwide := t.wide
  omega

theorem two_pow_quarter_lt : 2 ^ (t.bits - 2) < 2 ^ (t.bits - 1) := by
  apply Nat.pow_lt_pow_right (by decide)
  have hwide := t.wide
  omega

/-- The result of a pass of the buffering loop over what it has read. -/
inductive Buffers (maxSize : Nat) (body : Vec UInt8) :
    Option (List UInt8) → Control (Vec UInt8) (List UInt8) → Prop
  | done : Buffers maxSize body none (.done body.toList)
  | next {data : List UInt8} (small : body.toList.length + data.length ≤ maxSize)
      (fits : Fits t (body.extended data).capacity) :
      Buffers maxSize body (some data) (.next (body.extended data))

/-- The sum of a pass that goes on is in the range of `usize`. -/
theorem Fits.sum_lt {body : Vec UInt8} {chunk : List UInt8}
    (h : Fits t (body.extended chunk).capacity) :
    body.toList.length + chunk.length < 2 ^ (t.bits - 1) := by
  have hlength := h.length_lt
  rwa [Vec.toList_extended, List.length_append] at hlength

theorem readChunkedBodyPass_ok {body : Vec UInt8} {s r : Stream} {w : List UInt8}
    {x : Control (Vec UInt8) (List UInt8)}
    (h : readChunkedBodyPass t maxSize body s = ⟨.ok x, r, w⟩) :
    ∃ data consumed, PassReads t s data consumed r ∧ Buffers t maxSize body data x ∧ w = [] := by
  obtain ⟨line, s₁, w₁, w₂, hline, hrest, rfl⟩ := bind_eq_ok h
  obtain ⟨_, rfl⟩ := readLineBytes_ok hline
  split at hrest
  · next hempty =>
    cases hrest
    rw [List.isEmpty_iff.mp hempty] at hline
    exact ⟨none, [], .ended hline, .done, rfl⟩
  · next hne =>
    rw [List.isEmpty_iff] at hne
    obtain ⟨n, s₂, w₃, w₄, hparse, hsized, rfl⟩ := bind_eq_ok hrest
    obtain ⟨hsize, rfl, rfl⟩ := ofExcept_ok hparse
    split at hsized
    · next hzero =>
      subst hzero
      obtain ⟨trailer, s₃, w₅, w₆, htrailer, hdone, rfl⟩ := bind_eq_ok hsized
      obtain ⟨_, rfl⟩ := readLineBytes_ok htrailer
      cases hdone
      exact ⟨none, line ++ trailer, .last hline hne hsize htrailer, .done, rfl⟩
    · next hnz =>
      obtain ⟨size, s₃, w₅, w₆, hadd, hlimit, rfl⟩ := bind_eq_ok hsized
      obtain ⟨rfl, rfl⟩ := usizeAdd_ok t hadd
      split at hlimit
      · cases hlimit
      · next hsmall =>
        obtain ⟨_, s₄, w₇, w₈, halloc, hread, rfl⟩ := bind_eq_ok hlimit
        obtain ⟨rfl, rfl⟩ := allocate_ok t halloc
        obtain ⟨chunk, s₅, w₉, w₁₀, hchunk, hextend, rfl⟩ := bind_eq_ok hread
        obtain ⟨rfl, rfl, rfl⟩ := readExact_ok hchunk
        obtain ⟨out, s₆, w₁₁, w₁₂, hout, hend, rfl⟩ := bind_eq_ok hextend
        obtain ⟨hfits, rfl, rfl, rfl⟩ := extendFromSlice_ok t hout
        obtain ⟨crlf, s₇, w₁₃, w₁₄, hcrlf, hnext, rfl⟩ := bind_eq_ok hend
        obtain ⟨htwo, rfl, rfl⟩ := readExact_ok hcrlf
        cases hnext
        -- the sum has not wrapped, for the extended body fits
        have hsum : body.toList.length + chunk.length < 2 ^ t.bits :=
          Nat.lt_trans (hfits.sum_lt t) (two_pow_isize_lt t)
        rw [usizeAdd, if_pos hsum] at hadd
        cases hadd
        have hdata : chunk ≠ [] := fun hnil => hnz (by rw [hnil]; rfl)
        exact ⟨some chunk, line ++ (chunk ++ crlf), .chunk hline hne hsize hdata htwo,
          .next (Nat.le_of_not_lt hsmall) hfits, rfl⟩

theorem readChunkedBodyPass_of_reads {body : Vec UInt8} {s r : Stream}
    {data : Option (List UInt8)} {consumed : List UInt8} {x : Control (Vec UInt8) (List UInt8)}
    (hreads : PassReads t s data consumed r) (hx : Buffers t maxSize body data x) :
    readChunkedBodyPass t maxSize body s = ⟨.ok x, r, []⟩ := by
  cases hreads with
  | ended read =>
    cases hx
    rw [readChunkedBodyPass, bind_ok read]
    rfl
  | last read line_ne size readTrailer =>
    cases hx
    have hne := List.isEmpty_eq_false_iff.mpr line_ne
    rw [readChunkedBodyPass, bind_ok read, hne, size]
    simp only [Bool.false_eq_true, ↓reduceIte, ofExcept, pure_bind_apply]
    rw [bind_ok (show readUntil 10 _ = _ from readTrailer)]
    rfl
  | @chunk line data ends rest c read line_ne size data_ne two =>
    cases hx with
    | next small fits =>
      have hne := List.isEmpty_eq_false_iff.mpr line_ne
      have hfit := fits.sum_lt t
      have hsum := Nat.lt_trans hfit (two_pow_isize_lt t)
      have halloc : data.length < 2 ^ (t.bits - 1) := by omega
      have hnz : data.length ≠ 0 := fun h => data_ne (List.length_eq_zero_iff.mp h)
      rw [readChunkedBodyPass, bind_ok read, hne, size]
      simp only [Bool.false_eq_true, ↓reduceIte, ofExcept, pure_bind_apply, hnz]
      rw [usizeAdd, if_pos hsum, pure_bind_apply, if_neg (Nat.not_lt.mpr small), allocate,
        if_pos halloc, pure_bind_apply, bind_ok (readExact_body data _ c), extendFromSlice,
        if_pos (show (body.extended data).capacity < _ from fits), pure_bind_apply,
        bind_ok (readExact_two two rest c)]
      simp [Run.prepend_mk]

/-- **A pass of the buffering loop.** -/
theorem readChunkedBodyPass_eq_ok_iff {body : Vec UInt8} {s r : Stream} {w : List UInt8}
    {x : Control (Vec UInt8) (List UInt8)} :
    readChunkedBodyPass t maxSize body s = ⟨.ok x, r, w⟩ ↔
      ∃ data consumed, PassReads t s data consumed r ∧ Buffers t maxSize body data x ∧ w = [] := by
  constructor
  · exact readChunkedBodyPass_ok t
  · rintro ⟨data, consumed, hreads, hx, rfl⟩
    exact readChunkedBodyPass_of_reads t hreads hx

end Buffering

/-- The result of a pass of the streaming loop over what it has read. -/
def streams : Option (List UInt8) → Control Unit Unit
  | none => .done ()
  | some _ => .next ()

theorem forward_ok {n : Nat} {s r : Stream} {w : List UInt8}
    (h : forward t n s = ⟨.ok (), r, w⟩) :
    s = ⟨w ++ r.bytes, r.closed⟩ ∧ (w.length = n ∨ r.bytes = []) := by
  rw [forward_eq, forwardRun] at h
  split at h
  · next hle =>
    cases h
    refine ⟨?_, Or.inl (List.length_take_of_le hle)⟩
    rw [List.take_append_drop]
  · cases hc : s.closed <;> rw [hc] at h <;> cases h
    refine ⟨?_, Or.inr rfl⟩
    rw [List.append_nil, ← hc]

theorem passThroughChunkedPass_ok {s r : Stream} {w : List UInt8} {x : Control Unit Unit}
    (h : passThroughChunkedPass t () s = ⟨.ok x, r, w⟩) :
    ∃ data, PassReads t s data w r ∧ x = streams data := by
  obtain ⟨line, s₁, w₁, w₂, hline, hrest, rfl⟩ := bind_eq_ok h
  obtain ⟨_, rfl⟩ := readLineBytes_ok hline
  split at hrest
  · next hempty =>
    cases hrest
    rw [List.isEmpty_iff.mp hempty] at hline
    exact ⟨none, .ended hline, rfl⟩
  · next hne =>
    rw [List.isEmpty_iff] at hne
    obtain ⟨_, s₂, w₃, w₄, hwrite, hread, rfl⟩ := bind_eq_ok hrest
    cases hwrite
    obtain ⟨n, s₃, w₅, w₆, hparse, hsized, rfl⟩ := bind_eq_ok hread
    obtain ⟨hsize, rfl, rfl⟩ := ofExcept_ok hparse
    split at hsized
    · next hzero =>
      subst hzero
      obtain ⟨trailer, s₄, w₇, w₈, htrailer, hdone, rfl⟩ := bind_eq_ok hsized
      obtain ⟨_, rfl⟩ := readLineBytes_ok htrailer
      obtain ⟨_, s₅, w₉, w₁₀, hforwarded, hend, rfl⟩ := bind_eq_ok hdone
      cases hforwarded
      cases hend
      rw [List.append_nil, List.nil_append, List.nil_append, List.nil_append]
      exact ⟨none, .last hline hne hsize htrailer, rfl⟩
    · next hnz =>
      obtain ⟨_, s₄, w₇, w₈, hforward, hends, rfl⟩ := bind_eq_ok hsized
      obtain ⟨rfl, hall⟩ := forward_ok t hforward
      obtain ⟨crlf, s₅, w₉, w₁₀, hcrlf, hnext, rfl⟩ := bind_eq_ok hends
      obtain ⟨htwo, rfl, rfl⟩ := readExact_ok hcrlf
      obtain ⟨_, s₆, w₁₁, w₁₂, hforwarded, hlast, rfl⟩ := bind_eq_ok hnext
      cases hforwarded
      cases hlast
      rcases hall with rfl | hnil
      · have hdata : w₇ ≠ [] := fun hnil => hnz (by rw [hnil]; rfl)
        rw [List.append_nil, List.nil_append, List.nil_append, List.nil_append]
        exact ⟨some w₇, .chunk hline hne hsize hdata htwo, rfl⟩
      · -- where the data is short the two bytes are missing too
        rw [(List.append_eq_nil_iff.mp hnil).1] at htwo
        cases htwo

theorem passThroughChunkedPass_of_reads {s r : Stream} {data : Option (List UInt8)}
    {consumed : List UInt8} (hreads : PassReads t s data consumed r) :
    passThroughChunkedPass t () s = ⟨.ok (streams data), r, consumed⟩ := by
  cases hreads with
  | ended read =>
    rw [passThroughChunkedPass, bind_ok read]
    rfl
  | last read line_ne size readTrailer =>
    have hne := List.isEmpty_eq_false_iff.mpr line_ne
    rw [passThroughChunkedPass, bind_ok read, hne, size]
    simp only [Bool.false_eq_true, ↓reduceIte, writeAll_bind_apply, ofExcept, pure_bind_apply]
    rw [bind_ok (show readUntil 10 _ = _ from readTrailer)]
    simp [Run.prepend_mk, streams]
  | @chunk line data ends rest c read line_ne size data_ne two =>
    have hne := List.isEmpty_eq_false_iff.mpr line_ne
    have hnz : data.length ≠ 0 := fun h => data_ne (List.length_eq_zero_iff.mp h)
    rw [passThroughChunkedPass, bind_ok read, hne, size]
    simp only [Bool.false_eq_true, ↓reduceIte, writeAll_bind_apply, ofExcept, pure_bind_apply, hnz]
    rw [bind_ok (forward_body t data _ c), bind_ok (readExact_two two rest c)]
    simp [Run.prepend_mk, streams]

/-- **A pass of the streaming loop** reads in the same way, and writes what it reads. -/
theorem passThroughChunkedPass_eq_ok_iff {s r : Stream} {w : List UInt8} {x : Control Unit Unit} :
    passThroughChunkedPass t () s = ⟨.ok x, r, w⟩ ↔
      ∃ data, PassReads t s data w r ∧ x = streams data := by
  constructor
  · exact passThroughChunkedPass_ok t
  · rintro ⟨data, hreads, rfl⟩
    exact passThroughChunkedPass_of_reads t hreads

/-! ## Runs -/

/-- What a loop that returned has read: the data of some chunks, and a pass that
found none. -/
inductive BodyReads : Stream → List (List UInt8) → List UInt8 → Stream → Prop
  | done {s s' : Stream} {consumed : List UInt8} (pass : PassReads t s none consumed s') :
      BodyReads s [] consumed s'
  | next {s s' s'' : Stream} {data consumed rest : List UInt8} {datas : List (List UInt8)}
      (pass : PassReads t s (some data) consumed s') (reads : BodyReads s' datas rest s'') :
      BodyReads s (data :: datas) (consumed ++ rest) s''

theorem BodyReads.bytes_eq {s s' : Stream} {datas : List (List UInt8)} {consumed : List UInt8}
    (h : BodyReads t s datas consumed s') : s = ⟨consumed ++ s'.bytes, s'.closed⟩ := by
  induction h with
  | done pass => exact pass.bytes_eq t
  | next pass reads ih =>
    rw [pass.bytes_eq t, ih, List.append_assoc]

variable {t} in
theorem PassReads.unique {s s₁ s₂ : Stream} {d₁ d₂ : Option (List UInt8)} {w₁ w₂ : List UInt8}
    (h₁ : PassReads t s d₁ w₁ s₁) (h₂ : PassReads t s d₂ w₂ s₂) : d₁ = d₂ ∧ s₁ = s₂ := by
  cases h₁ with
  | ended read₁ =>
    cases h₂ with
    | ended read₂ =>
      rw [read₁] at read₂
      cases read₂
      exact ⟨rfl, rfl⟩
    | last read₂ line_ne =>
      rw [read₁] at read₂
      cases read₂
      exact absurd rfl line_ne
    | chunk read₂ line_ne =>
      rw [read₁] at read₂
      cases read₂
      exact absurd rfl line_ne
  | last read₁ line_ne size₁ trailer₁ =>
    cases h₂ with
    | ended read₂ =>
      rw [read₁] at read₂
      cases read₂
      exact absurd rfl line_ne
    | last read₂ _ _ trailer₂ =>
      rw [read₁] at read₂
      cases read₂
      rw [trailer₁] at trailer₂
      cases trailer₂
      exact ⟨rfl, rfl⟩
    | chunk read₂ _ size₂ data_ne =>
      rw [read₁] at read₂
      cases read₂
      rw [size₁] at size₂
      exact absurd (List.length_eq_zero_iff.mp (Except.ok.inj size₂).symm) data_ne
  | chunk read₁ line_ne size₁ data_ne two₁ =>
    cases h₂ with
    | ended read₂ =>
      rw [read₁] at read₂
      cases read₂
      exact absurd rfl line_ne
    | last read₂ _ size₂ =>
      rw [read₁] at read₂
      cases read₂
      rw [size₁] at size₂
      exact absurd (List.length_eq_zero_iff.mp (Except.ok.inj size₂)) data_ne
    | chunk read₂ _ size₂ _ two₂ =>
      rw [read₁] at read₂
      simp only [Run.mk.injEq, Except.ok.injEq, Stream.mk.injEq, and_true] at read₂
      obtain ⟨rfl, hbytes, rfl⟩ := read₂
      rw [size₁] at size₂
      obtain ⟨rfl, htail⟩ := List.append_inj hbytes (Except.ok.inj size₂)
      obtain ⟨_, rfl⟩ := List.append_inj htail (two₁.trans two₂.symm)
      exact ⟨rfl, rfl⟩

variable {t} in
/-- A stream holds the chunks of one body only. -/
theorem BodyReads.unique {s s₁ s₂ : Stream} {datas₁ datas₂ : List (List UInt8)}
    {w₁ w₂ : List UInt8} (h₁ : BodyReads t s datas₁ w₁ s₁) (h₂ : BodyReads t s datas₂ w₂ s₂) :
    datas₁ = datas₂ := by
  induction h₁ generalizing datas₂ w₂ with
  | done pass₁ =>
    cases h₂ with
    | done => rfl
    | next pass₂ _ => cases (pass₁.unique pass₂).1
  | next pass₁ _ ih =>
    cases h₂ with
    | done pass₂ => cases (pass₁.unique pass₂).1
    | next pass₂ reads₂ =>
      obtain ⟨hdata, rfl⟩ := pass₁.unique pass₂
      rw [Option.some.inj hdata, ih reads₂]

section Buffering

variable {maxSize : Nat}

/-- A vector that has collected chunks fits the limit of the loop and `isize`. -/
def Collects (maxSize : Nat) (body : Vec UInt8) : Prop :=
  body.toList.length ≤ maxSize ∧ Fits t body.capacity

theorem collects_new : Collects t maxSize .new := ⟨Nat.zero_le _, Nat.two_pow_pos _⟩

variable {t} in
/-- So did it before its last chunks. -/
theorem Collects.of_extendedAll {body : Vec UInt8} {datas : List (List UInt8)}
    (h : Collects t maxSize (body.extendedAll datas)) : Collects t maxSize body := by
  obtain ⟨hle, hfits⟩ := h
  rw [Vec.toList_extendedAll, List.length_append] at hle
  exact ⟨by omega, Nat.lt_of_le_of_lt (body.capacity_le_extendedAll datas) hfits⟩

/-- **The buffering loop returns what the chunks carry**, if that is small enough. -/
theorem readChunkedBody_loop_eq_ok_iff {body : Vec UInt8} (hbody : Collects t maxSize body)
    {out : List UInt8} {s r : Stream} {w : List UInt8} :
    loop (readChunkedBodyPass t maxSize) body s = ⟨.ok out, r, w⟩ ↔
      ∃ datas consumed, BodyReads t s datas consumed r ∧ out = body.toList ++ datas.flatten ∧
        Collects t maxSize (body.extendedAll datas) ∧ w = [] := by
  have hp := (lineLoop_readChunkedBodyPass (R := Stream) t maxSize).progress
  constructor
  · refine loop_rule hp (P := fun body s x => Collects t maxSize body → x = ⟨.ok out, r, w⟩ →
      ∃ datas consumed, BodyReads t s datas consumed r ∧ out = body.toList ++ datas.flatten ∧
        Collects t maxSize (body.extendedAll datas) ∧ w = []) ?_ ?_ ?_ body s hbody
    · intro body s body' s' v hpass ih _ hrun
      obtain ⟨_, consumed, hreads, hx, rfl⟩ := (readChunkedBodyPass_eq_ok_iff t).mp hpass
      cases hx with
      | @next data small fits =>
        have hextended : Collects t maxSize (body.extended data) := ⟨by simpa using small, fits⟩
        rw [Run.prepend_nil] at hrun
        obtain ⟨datas, rest, hrest, rfl, hcollects, rfl⟩ := ih hextended hrun
        exact ⟨data :: datas, consumed ++ rest, .next hreads hrest, by simp, hcollects, rfl⟩
    · intro body s a s' v hpass hcollects hrun
      obtain ⟨_, consumed, hreads, hx, rfl⟩ := (readChunkedBodyPass_eq_ok_iff t).mp hpass
      cases hrun
      cases hx
      exact ⟨[], consumed, .done hreads, by simp, hcollects, rfl⟩
    · intro body s h s' v _ _ hrun
      cases hrun
  · rintro ⟨datas, consumed, hreads, rfl, hcollects, rfl⟩
    induction hreads generalizing body with
    | done pass =>
      have hpass : readChunkedBodyPass t maxSize body _ = ⟨.ok (.done body.toList), _, []⟩ :=
        (readChunkedBodyPass_eq_ok_iff t).mpr ⟨none, _, pass, .done, rfl⟩
      rw [loop_eq hp, hpass]
      simp [resume]
    | @next s s' s'' data consumed rest datas pass reads ih =>
      rw [Vec.extendedAll_cons] at hcollects
      have hextended := hcollects.of_extendedAll
      have hsmall := hextended.1
      rw [Vec.toList_extended, List.length_append] at hsmall
      have hpass := (readChunkedBodyPass_eq_ok_iff t).mpr
        ⟨some data, _, pass, .next hsmall hextended.2, rfl⟩
      rw [loop_eq hp, hpass, resume, Run.prepend_nil, List.flatten_cons, ← List.append_assoc,
        ← Vec.toList_extended]
      exact ih hextended hcollects

/-- The chunks of these sizes fit the limit, and the vector that grows over them `isize`. -/
def SizesFit (maxSize : Nat) (sizes : List Nat) : Prop :=
  sizes.sum ≤ maxSize ∧ Fits t (capacityAfter sizes)

theorem sizesFit_nil : SizesFit t maxSize [] := ⟨Nat.zero_le _, Nat.two_pow_pos _⟩

variable {t} in
/-- A vector grows to just what a single chunk needs, where that is not little. -/
theorem sizesFit_singleton {size : Nat} (hle : size ≤ maxSize) (hfit : size < 2 ^ (t.bits - 1)) :
    SizesFit t maxSize [size] := by
  have hwide := t.wide
  have hbig : 2 ^ 31 ≤ 2 ^ (t.bits - 1) := Nat.pow_le_pow_right (by decide) (by omega)
  have hsingle := Vec.capacity_extendedAll_new [List.replicate size ()]
  rw [List.map_singleton, List.length_replicate] at hsingle
  constructor
  · rwa [List.sum_singleton]
  · rw [Fits, ← hsingle]
    simp [Vec.extended, grownCapacity, minNonZeroCap]
    split <;> omega

theorem collects_extendedAll_new (datas : List (List UInt8)) :
    Collects t maxSize (Vec.new.extendedAll datas) ↔
      SizesFit t maxSize (datas.map List.length) := by
  rw [Collects, SizesFit, Vec.capacity_extendedAll_new, Vec.toList_extendedAll, Vec.toList_new,
    List.nil_append, List.length_flatten]

theorem readChunkedBody_eq_ok_iff {out : List UInt8} {s r : Stream} {w : List UInt8} :
    readChunkedBody t maxSize s = ⟨.ok out, r, w⟩ ↔ ∃ datas consumed,
      BodyReads t s datas consumed r ∧ out = datas.flatten ∧
        SizesFit t maxSize (datas.map List.length) ∧ w = [] := by
  rw [readChunkedBody, readChunkedBody_loop_eq_ok_iff t (collects_new t)]
  simp only [collects_extendedAll_new, Vec.toList_new, List.nil_append]

variable {t} in
/-- A quarter of the range of `usize` is room for every body. -/
theorem fits_of_le {size capacity : Nat} (hle : size ≤ 2 ^ (t.bits - 2))
    (hcapacity : capacity ≤ max 8 (2 * size - 2)) : Fits t capacity := by
  have hwide := t.wide
  have hhalf : 2 ^ (t.bits - 1) = 2 * 2 ^ (t.bits - 2) := by
    rw [← Nat.pow_succ']
    congr 1
    omega
  have hbig : 2 ^ 30 ≤ 2 ^ (t.bits - 2) := Nat.pow_le_pow_right (by decide) (by omega)
  unfold Fits
  omega

variable {t} in
theorem sizesFit_of_le {sizes : List Nat} (hle : sizes.sum ≤ maxSize)
    (hmax : maxSize ≤ 2 ^ (t.bits - 2)) : SizesFit t maxSize sizes :=
  ⟨hle, fits_of_le (hle.trans hmax) (capacityAfter_le sizes)⟩

end Buffering

/-- **The streaming loop writes all that it reads.** -/
theorem passThroughChunked_eq_ok_iff {s r : Stream} {w : List UInt8} :
    passThroughChunked t s = ⟨.ok (), r, w⟩ ↔ ∃ datas, BodyReads t s datas w r := by
  have hp := (lineLoop_passThroughChunkedPass (R := Stream) t).progress
  constructor
  · refine loop_rule hp (P := fun _ s x => ∀ w, x = ⟨.ok (), r, w⟩ →
      ∃ datas, BodyReads t s datas w r) ?_ ?_ ?_ () s w
    · intro _ s _ s' v hpass ih w hrun
      obtain ⟨data, hreads, hx⟩ := (passThroughChunkedPass_eq_ok_iff t).mp hpass
      cases data with
      | none => cases hx
      | some data =>
        rcases hloop : loop (passThroughChunkedPass t) () s' with ⟨o, r', v'⟩
        rw [hloop, Run.prepend_mk] at hrun
        cases hrun
        obtain ⟨datas, hrest⟩ := ih v' hloop
        exact ⟨data :: datas, .next hreads hrest⟩
    · intro _ s a s' v hpass w hrun
      obtain ⟨data, hreads, hx⟩ := (passThroughChunkedPass_eq_ok_iff t).mp hpass
      cases hrun
      cases data with
      | none => exact ⟨[], .done hreads⟩
      | some data => cases hx
    · intro _ s h s' v _ w hrun
      cases hrun
  · rintro ⟨datas, hreads⟩
    rw [passThroughChunked]
    induction hreads with
    | done pass =>
      have hpass := (passThroughChunkedPass_eq_ok_iff t).mpr ⟨none, pass, rfl⟩
      rw [loop_eq hp, hpass]
      rfl
    | next pass reads ih =>
      have hpass := (passThroughChunkedPass_eq_ok_iff t).mpr ⟨some _, pass, rfl⟩
      rw [loop_eq hp, hpass, streams, resume, ih, Run.prepend_mk]

/-! ## Bodies of the grammar -/

theorem SizeLine.bytes_ne (line : SizeLine) : line.bytes ≠ [] :=
  List.isEmpty_eq_false_iff.mp line.bytes_ne_nil

theorem passReads_chunk {chunk : Chunk} (hfit : chunk.size.value < 2 ^ t.bits)
    (rest : List UInt8) (c : Bool) :
    PassReads t ⟨chunk.bytes ++ rest, c⟩ (some chunk.data) chunk.bytes ⟨rest, c⟩ := by
  have hsize := chunk.size.parseChunkSize_ok hfit
  rw [chunk.size_eq] at hsize
  have hread := chunk.size.readLine (chunk.data ++ (crlf ++ rest)) c
  rw [← List.append_assoc, ← List.append_assoc, List.append_assoc _ chunk.data] at hread
  exact .chunk hread chunk.size.bytes_ne hsize chunk.nonempty rfl

theorem readChunkedBodyPass_chunk {maxSize : Nat} {body : Vec UInt8} {chunk : Chunk}
    (hle : body.toList.length + chunk.data.length ≤ maxSize)
    (hfit : Fits t (body.extended chunk.data).capacity) (rest : List UInt8) (c : Bool) :
    readChunkedBodyPass t maxSize body (Stream.mk (chunk.bytes ++ rest) c) =
      ⟨.ok (.next (body.extended chunk.data)), ⟨rest, c⟩, []⟩ := by
  have hsize : chunk.size.value < 2 ^ t.bits := by
    have hlt := two_pow_isize_lt t
    have hsum := hfit.sum_lt t
    rw [chunk.size_eq]
    omega
  exact (readChunkedBodyPass_eq_ok_iff t).mpr
    ⟨_, _, passReads_chunk t hsize rest c, .next hle hfit, rfl⟩

theorem readLineBytes_line (line : List UInt8) (h : 10 ∉ line) (rest : List UInt8) (c : Bool) :
    readLineBytes (Stream.mk (line ++ 10 :: rest) c) = ⟨.ok (line ++ [10]), ⟨rest, c⟩, []⟩ :=
  (readUntil_eq 10 _).trans (lineRun_line h rest c)

theorem readLineBytes_last {line : List UInt8} (h : 10 ∉ line) :
    readLineBytes (Stream.mk line true) = ⟨.ok line, ⟨[], true⟩, []⟩ :=
  (readUntil_eq 10 _).trans (lineRun_last h true)

/-- A line that has been read ends in its feed, or at the end of input. -/
theorem readLineBytes_cases {s s' : Stream} {line : List UInt8}
    (h : readLineBytes s = ⟨.ok line, s', []⟩) :
    (∃ front, 10 ∉ front ∧ line = front ++ [10]) ∨ (10 ∉ line ∧ s' = ⟨[], true⟩) := by
  obtain ⟨bytes, c⟩ := s
  by_cases hm : (10 : UInt8) ∈ bytes
  · obtain ⟨front, rest, rfl, hfront⟩ := List.eq_append_cons_of_mem hm
    rw [readLineBytes_line front hfront] at h
    cases h
    exact Or.inl ⟨front, hfront, rfl⟩
  · cases c with
    | true =>
      rw [readLineBytes_last hm] at h
      cases h
      exact Or.inr ⟨hm, rfl⟩
    | false =>
      rw [readLineBytes, readUntil_eq, lineRun_last hm] at h
      cases h

theorem passReads_last {last : SizeLine} (hzero : last.value = 0) {line : List UInt8}
    (hline : 10 ∉ line) (rest : List UInt8) (c : Bool) :
    PassReads t ⟨last.bytes ++ (line ++ 10 :: rest), c⟩ none (last.bytes ++ (line ++ [10]))
      ⟨rest, c⟩ := by
  have hsize : parseChunkSize t last.bytes = .ok 0 := by
    rw [← hzero]
    apply last.parseChunkSize_ok
    rw [hzero]
    exact Nat.two_pow_pos t.bits
  exact .last (last.readLine _ c) last.bytes_ne hsize (readLineBytes_line line hline rest c)

theorem bodyReads_chunks {chunks : List Chunk}
    (hfit : ∀ chunk ∈ chunks, chunk.size.value < 2 ^ t.bits) {s s' : Stream}
    {datas : List (List UInt8)} {consumed : List UInt8} (h : BodyReads t s datas consumed s') :
    BodyReads t ⟨chunks.flatMap (·.bytes) ++ s.bytes, s.closed⟩ (chunks.map (·.data) ++ datas)
      (chunks.flatMap (·.bytes) ++ consumed) s' := by
  induction chunks with
  | nil => exact h
  | cons chunk chunks ih =>
    rw [List.flatMap_cons, List.append_assoc, List.append_assoc]
    exact .next (passReads_chunk t (hfit chunk (by simp)) _ _) (ih fun x hx => hfit x (by simp [hx]))

/-- **A chunked body is read to the first line of its trailer.** -/
theorem ChunkedBody.bodyReads {m : ChunkedBody}
    (hfit : ∀ chunk ∈ m.chunks, chunk.size.value < 2 ^ t.bits) (rest : List UInt8) (c : Bool) :
    BodyReads t ⟨m.bytes ++ rest, c⟩ (m.chunks.map (·.data))
      (m.chunks.flatMap (·.bytes) ++ (m.last.bytes ++ (m.trailerLine ++ [10])))
      ⟨m.trailerRest ++ rest, c⟩ := by
  have hlast := BodyReads.done
    (passReads_last t m.last_eq m.trailerLine_feedless (m.trailerRest ++ rest) c)
  have hall := bodyReads_chunks t hfit hlast
  rw [List.append_nil] at hall
  rwa [bytes, m.trailerBytes_eq, List.append_assoc, List.append_assoc, List.append_assoc,
    List.cons_append]

theorem Chunk.size_le {chunks : List Chunk} : ∀ chunk ∈ chunks,
    chunk.size.value ≤ (chunks.flatMap (·.data)).length := by
  intro chunk hchunk
  obtain ⟨before, after, rfl⟩ := List.append_of_mem hchunk
  rw [chunk.size_eq, List.flatMap_append, List.flatMap_cons, List.length_append,
    List.length_append]
  omega

/-- The sizes that its size lines say. -/
def ChunkedBody.sizes (m : ChunkedBody) : List Nat := m.chunks.map (·.size.value)

theorem ChunkedBody.map_length (m : ChunkedBody) :
    (m.chunks.map (·.data)).map List.length = m.sizes := by
  rw [List.map_map, sizes]
  exact List.map_congr_left fun chunk _ => chunk.size_eq.symm

theorem ChunkedBody.sum_sizes (m : ChunkedBody) : m.sizes.sum = m.payload.length := by
  rw [← m.map_length, ← List.length_flatten, payload, List.flatMap_def]

variable {t} in
/-- What the loop returns it has room for. -/
theorem SizesFit.payload_lt {maxSize : Nat} {m : ChunkedBody} (h : SizesFit t maxSize m.sizes) :
    m.payload.length < 2 ^ (t.bits - 1) := by
  rw [← m.map_length, ← collects_extendedAll_new] at h
  have hlength := h.2.length_lt
  rwa [Vec.toList_extendedAll, Vec.toList_new, List.nil_append, ← List.flatMap_def] at hlength

variable {t} in
/-- What the loop has to return at most it has room for. -/
theorem sizesFit_of_payload {m : ChunkedBody} (hle : m.payload.length ≤ maxRewritableBodySize) :
    SizesFit t maxRewritableBodySize m.sizes :=
  sizesFit_of_le (m.sum_sizes.trans_le hle) t.max_le_quarter

theorem readChunkedBody_body {maxSize : Nat} {m : ChunkedBody} (hfit : SizesFit t maxSize m.sizes)
    (rest : List UInt8) (c : Bool) :
    readChunkedBody t maxSize (Stream.mk (m.bytes ++ rest) c) =
      ⟨.ok m.payload, ⟨m.trailerRest ++ rest, c⟩, []⟩ := by
  have hsizes : ∀ chunk ∈ m.chunks, chunk.size.value < 2 ^ t.bits := fun chunk hchunk =>
    Nat.lt_of_le_of_lt (Chunk.size_le chunk hchunk)
      (Nat.lt_trans hfit.payload_lt (two_pow_isize_lt t))
  refine (readChunkedBody_eq_ok_iff t).mpr ⟨_, _, m.bodyReads t hsizes rest c, List.flatMap_def,
    ?_, rfl⟩
  rwa [m.map_length]

/-- The streaming loop writes it to there. -/
theorem passThroughChunked_body {m : ChunkedBody}
    (hfit : ∀ chunk ∈ m.chunks, chunk.size.value < 2 ^ t.bits) (rest : List UInt8) (c : Bool) :
    passThroughChunked t (Stream.mk (m.bytes ++ rest) c) = ⟨.ok (), ⟨m.trailerRest ++ rest, c⟩,
      m.chunks.flatMap (·.bytes) ++ (m.last.bytes ++ (m.trailerLine ++ [10]))⟩ :=
  (passThroughChunked_eq_ok_iff t).mpr ⟨_, m.bodyReads t hfit rest c⟩

end DlnaProxy.TcpProxy
