import DlnaProxy.TcpProxy.ChunkGrammar

/-!
# Chunk sizes

The guard of the buffering loop is a sum on `usize`. It wraps, or panics where
arithmetic is checked, when a size comes near the top of the range after some data
has been collected, and such a size is never survived: where the sum wraps the
buffer is too large to allocate. The streaming loop only subtracts what it has read.
-/
namespace DlnaProxy.TcpProxy

open DlnaProxy.Lib.ByteIo DlnaProxy.Lib.Growth DlnaProxy.Lib.Utf8

variable (t : Target)

/-- A pass with `body` collected allocates a buffer of `n` bytes. -/
def Allocates (maxSize : Nat) (body : Vec UInt8) (s : Stream) (n : Nat) : Prop :=
  ∃ s' size, Announces t s n s' ∧ n ≠ 0 ∧
    usizeAdd t body.toList.length n s' = ⟨.ok size, s', []⟩ ∧ size ≤ maxSize ∧
      allocate t n s' = ⟨.ok (), s', []⟩

/-- The arithmetic of the chunk loops is safe: the sum that the code computes is the sum,
no buffer and no body is larger than the limit, the buffering loop does not panic, and no
read takes more than remains. -/
structure SafeArithmetic (maxSize : Nat) (s : Stream) : Prop where
  sum_eq : ∀ {w body s' n s''}, Reaches (readChunkedBodyPass t maxSize) .new s w body s' →
    Announces t s' n s'' → n ≠ 0 →
      usizeAdd t body.toList.length n s'' = ⟨.ok (body.toList.length + n), s'', []⟩
  buffer_le : ∀ {w body s' n}, Reaches (readChunkedBodyPass t maxSize) .new s w body s' →
    Allocates t maxSize body s' n → n ≤ maxSize
  body_le : ∀ {w body s'}, Reaches (readChunkedBodyPass t maxSize) .new s w body s' →
    body.toList.length ≤ maxSize
  returns : (readChunkedBody t maxSize s).outcome ≠ .error .panic ∧
    (readChunkedBody t maxSize s).outcome ≠ .error .diverged
  remaining_le : ∀ {len w remaining} {r r' : BufReader}, Reaches (forwardPass t) len r w remaining r' →
    0 < remaining → ∀ {buf r'' v}, read (min remaining 8192) r' = ⟨.ok buf, r'', v⟩ →
      buf.length ≤ remaining

/-- Behind chunks of these sizes a size of `n` is too large for the machine, where
`available` bytes follow its line: it is one of the last sizes of `usize`, as many as
there are bytes before it, or it is within the limit and there is no buffer of `n` bytes,
or all of the chunk is there and the vector cannot grow over it. -/
def Overruns (maxSize : Nat) (sizes : List Nat) (n available : Nat) : Prop :=
  2 ^ t.bits - sizes.sum ≤ n ∨ (sizes.sum + n ≤ maxSize ∧
    (2 ^ (t.bits - 1) ≤ n ∨ (n ≤ available ∧ 2 ^ (t.bits - 1) ≤ capacityAfter (sizes ++ [n]))))

/-- The stream starts with chunks that fit and a size line that does not. -/
def Hostile (maxSize : Nat) (s : Stream) : Prop :=
  ∃ (chunks : List (ReadChunk t)) (size : ReadSize t) (s' s'' : Stream),
    s = ⟨chunks.flatMap (·.bytes) ++ s'.bytes, s'.closed⟩ ∧ size.Heads s' s'' ∧ size.value ≠ 0 ∧
      SizesFit t maxSize (chunks.map (·.size.value)) ∧
        Overruns t maxSize (chunks.map (·.size.value)) size.value s''.bytes.length

/-! ## One pass -/

theorem readExact_ne_panic (n : Nat) (s : Stream) : (readExact n s).outcome ≠ .error .panic := by
  rw [readExact_eq, exactRun]
  split
  · intro h
    cases h
  · cases s.closed <;> intro h <;> cases h

theorem readUntil_ne_panic (byte : UInt8) (s : Stream) :
    (readUntil byte s).outcome ≠ .error .panic := by
  rw [readUntil_eq, lineRun]
  split
  · intro h
    cases h
  · cases s.closed <;> intro h <;> cases h

theorem ne_panic_bind {α β : Type} {m : Io Stream α} {f : α → Io Stream β} {s : Stream}
    (hm : (m s).outcome ≠ .error .panic)
    (hf : ∀ a r w, m s = ⟨.ok a, r, w⟩ → (f a r).outcome ≠ .error .panic) :
    ((m >>= f) s).outcome ≠ .error .panic := by
  rcases hr : m s with ⟨h | a, r, w⟩
  · rw [bind_halt hr]
    rw [hr] at hm
    exact fun hpanic => hm (by cases hpanic; rfl)
  · rw [bind_ok hr]
    exact hf a r w hr

variable {t} {maxSize : Nat} {body : Vec UInt8}

/-- The pass once it has read a size that is not zero. -/
theorem readChunkedBodyPass_announced {s s' : Stream} {n : Nat} (h : Announces t s n s')
    (hn : n ≠ 0) : readChunkedBodyPass t maxSize body s = (do
      let size ← usizeAdd t body.toList.length n
      if maxSize < size then
        fail (invalidData ("Chunked body exceeds maximum size (".toList ++ decimal maxSize ++
          " bytes)".toList))
      else
        allocate t n
        let chunk ← readExact n
        let body ← extendFromSlice t body chunk
        let _crlf ← readExact 2
        return .next body : Io Stream (Control (Vec UInt8) (List UInt8))) s' := by
  obtain ⟨line, hread, hne, hsize⟩ := h
  rw [readChunkedBodyPass, bind_ok hread, List.isEmpty_eq_false_iff.mpr hne, hsize]
  simp only [Bool.false_eq_true, ↓reduceIte, ofExcept, pure_bind_apply, hn, Run.prepend_nil]

theorem Announces.lt {s s' : Stream} {n : Nat} (h : Announces t s n s') : n < 2 ^ t.bits := by
  obtain ⟨line, _, _, hsize⟩ := h
  obtain ⟨_, _, _, hlt⟩ := parseChunkSize_eq_ok_iff.mp hsize
  exact hlt

/-- The vector that has collected these chunks. -/
def collected (datas : List (List UInt8)) : Vec UInt8 := Vec.new.extendedAll datas

theorem length_collected (datas : List (List UInt8)) :
    (collected datas).toList.length = (datas.map List.length).sum := by
  rw [collected, Vec.toList_extendedAll, Vec.toList_new, List.nil_append, List.length_flatten]

theorem capacity_collected (datas : List (List UInt8)) (chunk : List UInt8) :
    ((collected datas).extended chunk).capacity =
      capacityAfter (datas.map List.length ++ [chunk.length]) := by
  have h := Vec.capacity_extendedAll_new (datas ++ [chunk])
  rw [Vec.extendedAll_append, List.map_append, List.map_singleton] at h
  exact h

/-- A size that is not too large makes no pass panic. -/
theorem readChunkedBodyPass_ne_panic {datas : List (List UInt8)} {s : Stream}
    (h : ∀ n s', Announces t s n s' → n ≠ 0 →
      ¬ Overruns t maxSize (datas.map List.length) n s'.bytes.length) :
    (readChunkedBodyPass t maxSize (collected datas) s).outcome ≠ .error .panic := by
  apply ne_panic_bind (readUntil_ne_panic 10 s)
  intro line s₁ w hread
  obtain ⟨_, rfl⟩ := readLineBytes_ok hread
  split
  · intro h
    cases h
  · next hne =>
    rw [List.isEmpty_iff] at hne
    cases hsize : parseChunkSize t line with
    | error e =>
      intro h
      cases h
    | ok n =>
      rw [ofExcept, pure_bind_apply]
      split
      · apply ne_panic_bind (readUntil_ne_panic 10 s₁)
        intro _ _ _ _ h
        cases h
      · next hn =>
        have hnot := h n s₁ ⟨line, hread, hne, hsize⟩ hn
        simp only [Overruns, not_or, not_and, Nat.not_le] at hnot
        obtain ⟨hsum, hsmall⟩ := hnot
        rw [← length_collected] at hsum hsmall
        rw [usizeAdd, if_pos (by omega), pure_bind_apply]
        split
        · intro h
          cases h
        · next hle =>
          obtain ⟨halloc, hextend⟩ := hsmall (Nat.le_of_not_lt hle)
          rw [allocate, if_pos halloc, pure_bind_apply]
          apply ne_panic_bind (readExact_ne_panic n s₁)
          intro chunk s₂ w₂ hchunk
          obtain ⟨rfl, rfl, _⟩ := readExact_ok hchunk
          have hcapacity := hextend (by simp)
          rw [← capacity_collected] at hcapacity
          rw [extendFromSlice, if_pos hcapacity, pure_bind_apply]
          apply ne_panic_bind (readExact_ne_panic 2 s₂)
          intro _ _ _ _ h
          cases h

/-- One that is too large makes the pass panic. -/
theorem readChunkedBodyPass_panic {datas : List (List UInt8)}
    (hfit : SizesFit t maxSize (datas.map List.length)) {s s' : Stream} {n : Nat}
    (h : Announces t s n s') (hn : n ≠ 0)
    (hover : Overruns t maxSize (datas.map List.length) n s'.bytes.length) :
    (readChunkedBodyPass t maxSize (collected datas) s).outcome = .error .panic := by
  have hlt := h.lt
  have htwo := two_pow_eq t
  have hcollects := (collects_extendedAll_new t datas).mpr hfit
  have hlength := hcollects.2.length_lt
  have hmax := hcollects.1
  change (collected datas).toList.length < _ at hlength
  change (collected datas).toList.length ≤ _ at hmax
  rw [Overruns, ← length_collected] at hover
  rw [readChunkedBodyPass_announced h hn]
  by_cases hsum : (collected datas).toList.length + n < 2 ^ t.bits
  · obtain ⟨hle, hlarge⟩ := hover.resolve_left (by omega)
    rw [usizeAdd, if_pos hsum, pure_bind_apply, if_neg (Nat.not_lt.mpr hle)]
    by_cases halloc : n < 2 ^ (t.bits - 1)
    · obtain ⟨havail, hcapacity⟩ := hlarge.resolve_left (Nat.not_le.mpr halloc)
      have hread : readExact n s' =
          ⟨.ok (s'.bytes.take n), ⟨s'.bytes.drop n, s'.closed⟩, []⟩ := by
        rw [readExact_eq, exactRun, if_pos havail]
      have hextend : ¬ ((collected datas).extended (s'.bytes.take n)).capacity <
          2 ^ (t.bits - 1) := by
        rw [capacity_collected, List.length_take_of_le havail]
        exact Nat.not_lt.mpr hcapacity
      rw [allocate, if_pos halloc, pure_bind_apply, bind_ok hread, extendFromSlice, if_neg hextend]
      rfl
    · rw [allocate, if_neg halloc]
      rfl
  · rw [usizeAdd, if_neg hsum]
    cases t.overflowChecks with
    | true => rfl
    | false =>
      -- the wrapped sum is below what has been collected, and the buffer is too large
      have hwrap : ((collected datas).toList.length + n) % 2 ^ t.bits ≤ maxSize := by
        rw [Nat.mod_eq_sub_mod (Nat.le_of_not_lt hsum), Nat.mod_eq_of_lt (by omega)]
        omega
      have halloc : ¬ n < 2 ^ (t.bits - 1) := by omega
      simp only [Bool.false_eq_true, ↓reduceIte, pure_bind_apply]
      rw [if_neg (Nat.not_lt.mpr hwrap), allocate, if_neg halloc]
      rfl

/-! ## The run -/

/-- The passes of the buffering loop follow the chunks of the stream. -/
theorem chunksRead_of_reaches {s s' : Stream} {body body' : Vec UInt8} {w : List UInt8}
    (h : Reaches (readChunkedBodyPass t maxSize) body s w body' s')
    (hbody : Collects t maxSize body) :
    ∃ datas, ChunksRead t s datas s' ∧ body' = body.extendedAll datas ∧ w = [] ∧
      Collects t maxSize body' := by
  induction h with
  | refl body s => exact ⟨[], .nil s, rfl, rfl, hbody⟩
  | step pass rest ih =>
    obtain ⟨_, consumed, hpass, hx, rfl⟩ := (readChunkedBodyPass_eq_ok_iff t).mp pass
    cases hx with
    | @next data small fits =>
      obtain ⟨datas, hreads, rfl, rfl, hcollects⟩ := ih ⟨by simpa using small, fits⟩
      exact ⟨data :: datas, .cons hpass hreads, rfl, rfl, hcollects⟩

theorem reaches_of_chunksRead {s s' : Stream} {datas : List (List UInt8)}
    (h : ChunksRead t s datas s') (body : Vec UInt8)
    (hcollects : Collects t maxSize (body.extendedAll datas)) :
    Reaches (readChunkedBodyPass t maxSize) body s [] (body.extendedAll datas) s' := by
  induction h generalizing body with
  | nil s => exact .refl body s
  | @cons s s' s'' data consumed datas pass reads ih =>
    rw [Vec.extendedAll_cons] at hcollects ⊢
    have hextended := hcollects.of_extendedAll
    have hsmall := hextended.1
    rw [Vec.toList_extended, List.length_append] at hsmall
    have hnext := (readChunkedBodyPass_eq_ok_iff t).mpr
      ⟨some data, consumed, pass, .next hsmall hextended.2, rfl⟩
    exact .step hnext (ih (body.extended data) hcollects)

/-- The states that the loop reaches are those behind chunks that fit. -/
theorem reaches_iff {s s' : Stream} {body : Vec UInt8} {w : List UInt8} :
    Reaches (readChunkedBodyPass t maxSize) .new s w body s' ↔ ∃ datas, ChunksRead t s datas s' ∧
      body = collected datas ∧ w = [] ∧ SizesFit t maxSize (datas.map List.length) := by
  constructor
  · intro h
    obtain ⟨datas, hreads, rfl, rfl, hcollects⟩ := chunksRead_of_reaches h (collects_new t)
    exact ⟨datas, hreads, rfl, rfl, (collects_extendedAll_new t datas).mp hcollects⟩
  · rintro ⟨datas, hreads, rfl, rfl, hfit⟩
    exact reaches_of_chunksRead hreads .new ((collects_extendedAll_new t datas).mpr hfit)

theorem map_size_value (chunks : List (ReadChunk t)) :
    (chunks.map (·.data)).map List.length = chunks.map (·.size.value) := by
  rw [List.map_map]
  exact List.map_congr_left fun chunk _ => chunk.size_eq.symm

/-- A stream is hostile if the loop reaches a size that is too large. -/
theorem hostile_iff {s : Stream} : Hostile t maxSize s ↔ ∃ datas s' n s'',
    ChunksRead t s datas s' ∧ SizesFit t maxSize (datas.map List.length) ∧ Announces t s' n s'' ∧
      n ≠ 0 ∧ Overruns t maxSize (datas.map List.length) n s''.bytes.length := by
  constructor
  · rintro ⟨chunks, size, s', s'', hs, hheads, hne, hfit, hover⟩
    rw [← map_size_value] at hfit hover
    exact ⟨_, s', size.value, s'', chunksRead_iff.mpr ⟨chunks, rfl, hs⟩, hfit,
      announces_iff.mpr ⟨size, rfl, hheads⟩, hne, hover⟩
  · rintro ⟨datas, s', n, s'', hreads, hfit, hann, hne, hover⟩
    obtain ⟨chunks, rfl, hs⟩ := chunksRead_iff.mp hreads
    obtain ⟨size, rfl, hheads⟩ := announces_iff.mp hann
    rw [map_size_value] at hfit hover
    exact ⟨chunks, size, s', s'', hs, hheads, hne, hfit, hover⟩

/-- The loop panics where it meets a size that is too large, and only there. -/
theorem readChunkedBody_ne_panic_iff {s : Stream} :
    (readChunkedBody t maxSize s).outcome ≠ .error .panic ↔ ¬ Hostile t maxSize s := by
  have hp := (lineLoop_readChunkedBodyPass (R := Stream) t maxSize).progress
  rw [not_iff_not, hostile_iff]
  constructor
  · intro hpanic
    obtain ⟨w, body, s', _, _, hreach, hpass, _⟩ := Reaches.of_loop_error hp _ _ hpanic
    obtain ⟨datas, hreads, rfl, rfl, hfit⟩ := reaches_iff.mp hreach
    by_contra hno
    refine readChunkedBodyPass_ne_panic (fun n s'' hann hn hover => ?_) (congrArg Run.outcome hpass)
    exact hno ⟨datas, s', n, s'', hreads, hfit, hann, hn, hover⟩
  · rintro ⟨datas, s', n, s'', hreads, hfit, hann, hn, hover⟩
    have hreach := reaches_iff.mpr ⟨datas, hreads, rfl, rfl, hfit⟩
    have hpanic := readChunkedBodyPass_panic hfit hann hn hover
    rw [readChunkedBody, hreach.loop_eq hp, Run.prepend_nil, loop_eq hp]
    rcases hpass : readChunkedBodyPass t maxSize (collected datas) s' with ⟨o, r, w⟩
    rw [hpass] at hpanic
    obtain rfl : o = .error .panic := hpanic
    rfl

theorem allocates_le {s : Stream} {n : Nat} (hfit : body.toList.length < 2 ^ (t.bits - 1))
    (h : Allocates t maxSize body s n) : n ≤ maxSize := by
  obtain ⟨s', size, _, _, hadd, hle, halloc⟩ := h
  have hn : n < 2 ^ (t.bits - 1) := by
    by_contra hbig
    rw [allocate, if_neg hbig] at halloc
    cases halloc
  have htwo := two_pow_eq t
  rw [usizeAdd, if_pos (by omega)] at hadd
  cases hadd
  omega

theorem read_length_le {remaining : Nat} (hpos : 0 < remaining) {r r' : BufReader}
    {buf v : List UInt8} (h : read (min remaining 8192) r = ⟨.ok buf, r', v⟩) :
    buf.length ≤ remaining := by
  rcases read_spec r (min remaining 8192) (by omega) with
    ⟨c, s, _, hread, _⟩ | ⟨bytes, rest, c, s, _, hle, _, hread, _⟩ <;> rw [h] at hread
  · cases c <;> cases hread
    exact Nat.zero_le _
  · cases hread
    omega

/-- **The arithmetic is safe just where no size is too large for the machine.** -/
theorem safeArithmetic_iff (t : Target) (maxSize : Nat) (s : Stream) :
    SafeArithmetic t maxSize s ↔ ¬ Hostile t maxSize s := by
  constructor
  · exact fun h => readChunkedBody_ne_panic_iff.mp h.returns.1
  · intro h
    have hcollected : ∀ {w body s'}, Reaches (readChunkedBodyPass t maxSize) .new s w body s' →
        Collects t maxSize body := by
      intro w body s' hreach
      exact (chunksRead_of_reaches hreach (collects_new t)).choose_spec.2.2.2
    constructor
    · intro w body s' n s'' hreach hann hn
      obtain ⟨datas, hreads, rfl, rfl, hfit⟩ := reaches_iff.mp hreach
      have hsum : (collected datas).toList.length + n < 2 ^ t.bits := by
        by_contra hover
        rw [length_collected] at hover
        exact h (hostile_iff.mpr ⟨datas, s', n, s'', hreads, hfit, hann, hn, Or.inl (by omega)⟩)
      rw [usizeAdd, if_pos hsum]
      rfl
    · intro w body s' n hreach halloc
      exact allocates_le (hcollected hreach).2.length_lt halloc
    · exact fun hreach => (hcollected hreach).1
    · refine ⟨readChunkedBody_ne_panic_iff.mpr h, fun hdiv => ?_⟩
      have hfair := ((lineLoop_readChunkedBodyPass (R := Stream) t maxSize).streamed .new).settles.fair hdiv
      exact hfair.1 rfl
    · exact fun _ hpos _ _ _ hread => read_length_le hpos hread

/-- A size of `usize::MAX`. -/
def maxLine : List UInt8 := List.replicate 16 102 ++ [13]

/-- A chunk of one byte. -/
def oneChunk : Chunk := ⟨oneByte, [104], by decide, by decide⟩

/-- The chunk with a size of `usize::MAX` after it. -/
def hugeSize : List UInt8 := oneChunk.bytes ++ (maxLine ++ [10])

theorem not_safeArithmetic : ¬ SafeArithmetic release64 maxRewritableBodySize ⟨hugeSize, true⟩ := by
  intro h
  have hchunks : ChunksRead release64 ⟨hugeSize, true⟩ [[104]] ⟨maxLine ++ [10], true⟩ :=
    .cons (passReads_chunk release64 (by decide) (maxLine ++ [10]) true) (.nil _)
  have hreach := reaches_iff.mpr ⟨_, hchunks, rfl, rfl,
    (show SizesFit release64 maxRewritableBodySize [1] from sizesFit_singleton (by decide) (by decide))⟩
  have hann : Announces release64 ⟨maxLine ++ [10], true⟩ (2 ^ 64 - 1) ⟨[], true⟩ :=
    ⟨maxLine ++ [10], readLineBytes_line maxLine (by decide) [] true, by decide, by decide⟩
  have hsum := h.sum_eq hreach hann (by decide)
  rw [usizeAdd, if_neg (by decide)] at hsum
  cases hsum

end DlnaProxy.TcpProxy
