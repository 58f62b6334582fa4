import DlnaProxy.TcpProxy.ChunkCut
import DlnaProxy.TcpProxy.UntilClose

/-!
# Bodies above the maximum size

Framed by its length such a body is passed through. Chunked, the limit is met
inside the buffering loop, when the header block and the chunks before it have been
read and not been sent: nothing of the response reaches the client and the
connection ends. Only where a Content-Length line beside the chunked coding says a
length above the maximum the chunks are passed through too.
-/
namespace DlnaProxy.TcpProxy

open DlnaProxy.Lib.ByteIo DlnaProxy.Lib.Growth DlnaProxy.Lib.Utf8 DlnaProxy.Net

/-- A response with a rewritable content type and a body above the maximum size, framed
as the scan reads it or by a Content-Length that may be past `usize`. -/
structure Oversized (t : Target) (block : HeaderBlock) (content body : List UInt8) : Prop where
  text : (block.head t).needsRewrite = true
  large : maxRewritableBodySize < body.length
  framed : Framed t block content body ∨ (block.LengthFramed body.length ∧ content = body)

/-- Wherever the response comes on a connection, the client gets its bytes and the
run goes on with those after it. -/
def PassedOn (t : Target) (proxy : TCPProxy) (block : HeaderBlock) (content : List UInt8) : Prop :=
  ∀ (originRead : OwnedReadHalf) (w : List UInt8) (reader : BufReader) (rest : List UInt8) (c : Bool),
    ReadsTo t proxy originRead w reader → reader.stream = ⟨block.bytes ++ (content ++ rest), c⟩ →
      (proxyResponseWithRewrite t proxy originRead).mapReader BufReader.stream =
        (responseLoop t proxy ⟨rest, c⟩).prepend (w ++ (block.bytes ++ content))

theorem passedOn_iff {t : Target} {proxy : TCPProxy} {block : HeaderBlock} {content : List UInt8} :
    PassedOn t proxy block content ↔ ∀ (rest : List UInt8) (c : Bool),
      responseLoop t proxy (Stream.mk (block.bytes ++ (content ++ rest)) c) =
        (responseLoop t proxy (Stream.mk rest c)).prepend (block.bytes ++ content) := by
  constructor
  · intro h rest c
    let originRead : OwnedReadHalf :=
      ⟨BufReader.onePiece (block.bytes ++ (content ++ rest)), c⟩
    have hstream : originRead.reader.stream = ⟨block.bytes ++ (content ++ rest), c⟩ := by
      rw [originRead.stream_reader, OwnedReadHalf.bytes, BufReader.joined_onePiece]
    have hreads : ReadsTo t proxy originRead [] originRead.reader := Reaches.refl _ _
    have hrun := h originRead [] _ rest c hreads hstream
    rw [hreads.run, hstream, Run.prepend_nil, List.nil_append] at hrun
    exact hrun
  · intro h originRead w reader rest c hreads hstream
    rw [hreads.run, hstream, h, Run.prepend_prepend]

/-! ## The buffering loop past its limit -/

section Loop

variable (t : Target) {maxSize : Nat}

/-- A chunk that takes the body past the limit halts the pass: by the limit or, if
its size leaves `usize`, by the parse, the checked sum or the allocation. -/
theorem readChunkedBodyPass_over (hmax : maxSize < 2 ^ (t.bits - 1)) {body : Vec UInt8}
    {chunk : Chunk} (hbody : body.toList.length ≤ maxSize)
    (hover : maxSize < body.toList.length + chunk.data.length) (rest : List UInt8) (c : Bool) :
    ∃ h s, readChunkedBodyPass t maxSize body (Stream.mk (chunk.bytes ++ rest) c) =
      ⟨.error h, s, []⟩ := by
  have hne := chunk.size_ne_zero
  rw [Chunk.bytes, List.append_assoc, List.append_assoc, readChunkedBodyPass,
    bind_ok (chunk.size.readLine _ c)]
  simp only [chunk.size.bytes_ne_nil, Bool.false_eq_true, ↓reduceIte, Run.prepend_nil]
  by_cases hfit : chunk.size.value < 2 ^ t.bits
  · simp only [chunk.size.parseChunkSize_ok hfit, ofExcept, pure_bind_apply, hne, ↓reduceIte]
    rw [chunk.size_eq] at hfit ⊢
    by_cases hadd : body.toList.length + chunk.data.length < 2 ^ t.bits
    · rw [usizeAdd, if_pos hadd, pure_bind_apply, if_pos hover]
      exact ⟨_, _, rfl⟩
    · rw [usizeAdd, if_neg hadd]
      cases t.overflowChecks with
      | true => exact ⟨_, _, rfl⟩
      | false =>
        -- the sum wraps, and such a chunk is too large to allocate
        have hpow := two_pow_eq t
        have halloc : ¬ chunk.data.length < 2 ^ (t.bits - 1) := by omega
        simp only [Bool.false_eq_true, ↓reduceIte, pure_bind_apply]
        split
        · exact ⟨_, _, rfl⟩
        · rw [allocate, if_neg halloc]
          exact ⟨_, _, rfl⟩
  · obtain ⟨e, he⟩ := chunk.size.parseChunkSize_error hfit
    rw [he]
    exact ⟨_, _, rfl⟩

theorem readChunkedBody_over (hmax : maxSize ≤ 2 ^ (t.bits - 2)) {chunks : List Chunk}
    {body : Vec UInt8} (hgrown : body.Grown) (hbody : body.toList.length ≤ maxSize)
    (hover : maxSize < body.toList.length + (chunks.flatMap (·.data)).length) (rest : List UInt8)
    (c : Bool) :
    ∃ h s, loop (readChunkedBodyPass t maxSize) body
      (Stream.mk (chunks.flatMap (·.bytes) ++ rest) c) = ⟨.error h, s, []⟩ := by
  have hp := (lineLoop_readChunkedBodyPass (R := Stream) t maxSize).progress
  induction chunks generalizing body with
  | nil =>
    simp only [List.flatMap_nil, List.length_nil, Nat.add_zero] at hover
    omega
  | cons chunk chunks ih =>
    rw [List.flatMap_cons, List.append_assoc, loop_eq hp]
    by_cases hle : body.toList.length + chunk.data.length ≤ maxSize
    · have hextended := hgrown.extended chunk.data
      have hlength : (body.extended chunk.data).toList.length ≤ maxSize := by simpa using hle
      rw [readChunkedBodyPass_chunk t hle (fits_of_le (hlength.trans hmax) hextended), resume,
        Run.prepend_nil]
      apply ih hextended hlength
      rw [Vec.toList_extended, List.length_append]
      rw [List.flatMap_cons, List.length_append] at hover
      omega
    · have hisize : maxSize < 2 ^ (t.bits - 1) := Nat.lt_of_le_of_lt hmax (two_pow_quarter_lt t)
      obtain ⟨h, s, hpass⟩ := readChunkedBodyPass_over t hisize hbody (Nat.lt_of_not_le hle)
        (chunks.flatMap (·.bytes) ++ rest) c
      exact ⟨h, s, by rw [hpass]; rfl⟩

end Loop

/-! ## Chunked bodies -/

section Chunked

variable {t : Target} (proxy : TCPProxy) {block : HeaderBlock}

theorem HeaderBlock.ChunkFramed.selectsRewrite (h : block.ChunkFramed) :
    (block.head t).selectsRewrite = (block.head t).needsRewrite := by
  rw [Head.selectsRewrite, h.isChunked, Head.bodyTooLarge, h.contentLength]
  simp

theorem HeaderBlock.scanned_of_chunked (hchunked : (block.head t).isChunked = true) :
    ((block.head t).isChunked || (block.head t).contentLength.isSome) = true := by
  rw [hchunked, Bool.true_or]

/-- To be rewritten, nothing is sent of the response and the run ends in a failure. -/
theorem responsePass_oversized (hchunked : (block.head t).isChunked = true)
    (hselects : (block.head t).selectsRewrite = true) {coded : ChunkedBody}
    (hlarge : maxRewritableBodySize < coded.payload.length) (rest : List UInt8) (c : Bool) :
    ∃ h s, responsePass t proxy () (Stream.mk (block.bytes ++ (coded.bytes ++ rest)) c) =
      ⟨.error h, s, []⟩ := by
  have hover : maxRewritableBodySize <
      (Vec.new : Vec UInt8).toList.length + (coded.chunks.flatMap (·.data)).length := by
    simpa [ChunkedBody.payload] using hlarge
  obtain ⟨h, s, hread⟩ := readChunkedBody_over t t.max_le_quarter Vec.grown_new (Nat.zero_le _) hover
    (coded.last.bytes ++ coded.trailerBytes ++ rest) c
  have hrewrite : rewrite t proxy (block.head t) (Stream.mk (coded.bytes ++ rest) c) =
      ⟨.error h, s, []⟩ := by
    rw [rewrite, hchunked, if_pos rfl, ChunkedBody.bytes, List.append_assoc,
      bind_halt (show readChunkedBody t maxRewritableBodySize _ = _ from hread)]
  exact ⟨h, s, by rw [responsePass_block, respond_selected proxy hselects, hrewrite]⟩

theorem responseLoop_oversized (hchunked : (block.head t).isChunked = true)
    (hselects : (block.head t).selectsRewrite = true) {coded : ChunkedBody}
    (hlarge : maxRewritableBodySize < coded.payload.length) (rest : List UInt8) (c : Bool) :
    ∃ h s, responseLoop t proxy (Stream.mk (block.bytes ++ (coded.bytes ++ rest)) c) =
      ⟨.error h, s, []⟩ := by
  obtain ⟨h, s, hpass⟩ := responsePass_oversized proxy hchunked hselects hlarge rest c
  refine ⟨h, s, ?_⟩
  rw [responseLoop, loop_eq (responsePass_progress t proxy), hpass]
  rfl

/-- Not to be rewritten, it is passed on to its first trailer line. -/
theorem responsePass_chunked_passed (hchunked : (block.head t).isChunked = true)
    (hselects : (block.head t).selectsRewrite = false) {coded : ChunkedBody}
    (sizes : ∀ chunk ∈ coded.chunks, chunk.size.value < 2 ^ t.bits) (rest : List UInt8) (c : Bool) :
    ∃ consumed, consumed ++ coded.trailerRest = coded.bytes ∧
      responsePass t proxy () (Stream.mk (block.bytes ++ (coded.bytes ++ rest)) c) =
        ⟨.ok (.next ()), ⟨coded.trailerRest ++ rest, c⟩, block.bytes ++ consumed⟩ := by
  let consumed := coded.chunks.flatMap (·.bytes) ++ (coded.last.bytes ++ (coded.trailerLine ++ [10]))
  have hbody : passThroughBody t (block.head t) (Stream.mk (coded.bytes ++ rest) c) =
      ⟨.ok (), ⟨coded.trailerRest ++ rest, c⟩, consumed⟩ := by
    rw [passThroughBody, hchunked, if_pos rfl]
    exact passThroughChunked_body t sizes rest c
  refine ⟨consumed, ?_, ?_⟩
  · rw [ChunkedBody.bytes, coded.trailerBytes_eq]
    simp [consumed]
  · rw [responsePass_block,
      respond_unselected proxy (HeaderBlock.scanned_of_chunked hchunked) hselects, passThrough,
      writeAll_bind_apply, bind_ok hbody, block.headerBuf_head, flush_bind_apply]
    simp [Run.prepend_mk]

theorem responseLoop_chunked_passed (hchunked : (block.head t).isChunked = true)
    (hselects : (block.head t).selectsRewrite = false) {coded : ChunkedBody}
    (sizes : ∀ chunk ∈ coded.chunks, chunk.size.value < 2 ^ t.bits) (rest : List UInt8) (c : Bool) :
    ∃ consumed, consumed ++ coded.trailerRest = coded.bytes ∧
      responseLoop t proxy (Stream.mk (block.bytes ++ (coded.bytes ++ rest)) c) =
        (responseLoop t proxy (Stream.mk (coded.trailerRest ++ rest) c)).prepend
          (block.bytes ++ consumed) := by
  obtain ⟨consumed, hconsumed, hpass⟩ :=
    responsePass_chunked_passed proxy hchunked hselects sizes rest c
  exact ⟨consumed, hconsumed, Reaches.loop_step (responsePass_progress t proxy) hpass⟩

theorem passThrough_ok {head : Head} {s s' : Stream} {x : Control Unit Unit} {w : List UInt8}
    (h : passThrough t head s = ⟨.ok x, s', w⟩) :
    ∃ sent, passThroughBody t head s = ⟨.ok (), s', sent⟩ := by
  obtain ⟨_, s₁, w₁, w₂, hheader, hrest, rfl⟩ := bind_eq_ok h
  cases hheader
  obtain ⟨_, s₂, sent, w₃, hbody, hdone, rfl⟩ := bind_eq_ok hrest
  cases hdone
  exact ⟨sent, hbody⟩

theorem passThrough_chunked_ok (hchunked : (block.head t).isChunked = true) {s s' : Stream}
    {x : Control Unit Unit} {w : List UInt8}
    (hpass : passThrough t (block.head t) s = ⟨.ok x, s', w⟩) :
    ∃ datas consumed, BodyReads t s datas consumed s' := by
  obtain ⟨sent, hbody⟩ := passThrough_ok hpass
  rw [passThroughBody, hchunked, if_pos rfl] at hbody
  obtain ⟨datas, hreads⟩ := (passThroughChunked_eq_ok_iff t).mp hbody
  exact ⟨datas, sent, hreads⟩

theorem rewrite_chunked_ok (hchunked : (block.head t).isChunked = true) {s s' : Stream}
    {x : Control Unit Unit} {w : List UInt8}
    (hpass : rewrite t proxy (block.head t) s = ⟨.ok x, s', w⟩) :
    ∃ datas consumed left, BodyReads t s datas consumed left := by
  rw [rewrite, hchunked, if_pos rfl] at hpass
  obtain ⟨body, left, _, _, hread, _, _⟩ := bind_eq_ok hpass
  obtain ⟨datas, consumed, hreads, _⟩ := (readChunkedBody_eq_ok_iff t).mp hread
  exact ⟨datas, consumed, left, hreads⟩

/-- Where the run returns, either loop has found the end of the chunks. -/
theorem bodyReads_of_responseLoop (hchunked : (block.head t).isChunked = true) {rest : List UInt8}
    {c : Bool} (h : (responseLoop t proxy (Stream.mk (block.bytes ++ rest) c)).outcome = .ok ()) :
    ∃ datas consumed left, BodyReads t ⟨rest, c⟩ datas consumed left := by
  rw [responseLoop, loop_eq (responsePass_progress t proxy), responsePass_block] at h
  rcases hrun : respond t proxy (block.head t) (Stream.mk rest c) with ⟨e | x, s', w⟩
  · rw [hrun] at h
    cases h
  · cases hselects : (block.head t).selectsRewrite with
    | true =>
      rw [respond_selected proxy hselects] at hrun
      exact rewrite_chunked_ok proxy hchunked hrun
    | false =>
      rw [respond_unselected proxy (HeaderBlock.scanned_of_chunked hchunked) hselects] at hrun
      obtain ⟨datas, consumed, hreads⟩ := passThrough_chunked_ok hchunked hrun
      exact ⟨datas, consumed, _, hreads⟩

end Chunked

/-! ## Framed by a length -/

section Length

variable {t : Target} (proxy : TCPProxy)

/-- A body with the length that the scan has found is passed through. -/
theorem responsePass_length_passed {block : HeaderBlock} {body : List UInt8}
    (hplain : (block.head t).isChunked = false)
    (hlength : (block.head t).contentLength = some body.length)
    (hselects : (block.head t).selectsRewrite = false) (rest : List UInt8) (c : Bool) :
    responsePass t proxy () (Stream.mk (block.bytes ++ (body ++ rest)) c) =
      ⟨.ok (.next ()), ⟨rest, c⟩, block.bytes ++ body⟩ := by
  have hscan : ((block.head t).isChunked || (block.head t).contentLength.isSome) = true := by
    rw [hlength, Option.isSome_some, Bool.or_true]
  have hbody : passThroughBody t (block.head t) (Stream.mk (body ++ rest) c) =
      ⟨.ok (), ⟨rest, c⟩, body⟩ := by
    rw [passThroughBody, hplain, hlength]
    exact forward_body t body rest c
  rw [responsePass_block, respond_unselected proxy hscan hselects, passThrough,
    writeAll_bind_apply, bind_ok hbody, block.headerBuf_head, flush_bind_apply]
  simp [Run.prepend_mk]

theorem responseLoop_length_passed {block : HeaderBlock} {body : List UInt8}
    (hplain : (block.head t).isChunked = false)
    (hlength : (block.head t).contentLength = some body.length)
    (hselects : (block.head t).selectsRewrite = false) (rest : List UInt8) (c : Bool) :
    responseLoop t proxy (Stream.mk (block.bytes ++ (body ++ rest)) c) =
      (responseLoop t proxy (Stream.mk rest c)).prepend (block.bytes ++ body) :=
  Reaches.loop_step (responsePass_progress t proxy)
    (responsePass_length_passed proxy hplain hlength hselects rest c)

/-- Framed by a length that fits, a response that is not rewritten is passed on. -/
theorem responseLoop_passedThrough {r : LengthResponse t} (hnot : ¬ r.Rewritable)
    (rest : List UInt8) (c : Bool) :
    responseLoop t proxy (Stream.mk (r.bytes ++ rest) c) =
      (responseLoop t proxy (Stream.mk rest c)).prepend r.bytes := by
  rw [LengthResponse.bytes, List.append_assoc]
  exact responseLoop_length_passed proxy r.framed.isChunked r.contentLength
    (LengthResponse.not_selectsRewrite hnot) rest c

theorem readExact_short {n : Nat} {bytes : List UInt8} (hlt : bytes.length < n) :
    ∃ h s', readExact n (Stream.mk bytes true) = ⟨.error h, s', []⟩ := by
  rw [readExact_eq, exactRun, if_neg (Nat.not_le.mpr hlt)]
  exact ⟨_, _, rfl⟩

/-- A length-framed body that is cut is not read for the rewriting. -/
theorem responsePass_length_short {block : HeaderBlock} {n : Nat}
    (hplain : (block.head t).isChunked = false) (hlength : (block.head t).contentLength = some n)
    (hselects : (block.head t).selectsRewrite = true) {arrived : List UInt8}
    (hlt : arrived.length < n) :
    ∃ e s', responsePass t proxy () (Stream.mk (block.bytes ++ arrived) true) =
      ⟨.error e, s', []⟩ := by
  have hle : n ≤ maxRewritableBodySize := by
    obtain ⟨_, _, hwithin⟩ := Head.selectsRewrite_iff.mp hselects
    rw [Head.bodyTooLarge, hlength, Option.any_some] at hwithin
    exact Nat.le_of_not_lt (decide_eq_false_iff_not.mp hwithin)
  have halloc : allocate t n (Stream.mk arrived true) = ⟨.ok (), ⟨arrived, true⟩, []⟩ := by
    rw [allocate, if_pos (Nat.lt_of_le_of_lt hle t.max_lt_isize)]
    rfl
  obtain ⟨e, s', hread⟩ := readExact_short hlt
  refine ⟨e, s', ?_⟩
  rw [responsePass_block, respond_selected proxy hselects, rewrite, hplain, hlength]
  simp only [Bool.false_eq_true, ↓reduceIte]
  rw [bind_ok halloc, bind_halt hread, Run.prepend_nil]

end Length

/-! ## What is left of a trailer -/

/-- The block goes out as it is, as that of a response with no body. -/
structure HeaderBlock.PassesEmpty (t : Target) (block : HeaderBlock) : Prop where
  plain : (block.head t).isChunked = false
  empty : (block.head t).contentLength = some 0
  valid : (block.head t).needsRewrite = true → Valid block.bytes

theorem parseChunkSize_h (t : Target) : ∃ e, parseChunkSize t [72] = .error e := ⟨_, rfl⟩

/-- The beginning of a header block is no size line. -/
theorem not_bodyReads_h {t : Target} {datas : List (List UInt8)} {consumed : List UInt8}
    {s' : Stream} : ¬ BodyReads t ⟨[72], true⟩ datas consumed s' := by
  have hfeed : (10 : UInt8) ∉ [72] := by decide
  have hpass {data consumed s'} (h : PassReads t ⟨[72], true⟩ data consumed s') : False := by
    obtain ⟨_, _, hzero⟩ := h.of_lastLine hfeed
    obtain ⟨e, he⟩ := parseChunkSize_h t
    cases he.symm.trans (hzero (by decide))
  intro h
  cases h with
  | done pass => exact hpass pass
  | next pass _ => exact hpass pass

section Leftover

variable {t : Target} (originAddr proxyAddr : SocketAddr)

/-- A block with the length zero goes out alone, as lossy text if it is to be rewritten. -/
theorem HeaderBlock.responseLoop_empty {block : HeaderBlock}
    (hplain : (block.head t).isChunked = false) (hempty : (block.head t).contentLength = some 0)
    (rest : List UInt8) (c : Bool) :
    let proxy := TCPProxy.new originAddr proxyAddr
    responseLoop t proxy (Stream.mk (block.bytes ++ rest) c) =
      (responseLoop t proxy (Stream.mk rest c)).prepend
        (if (block.head t).needsRewrite then block.lossy.bytes else block.bytes) := by
  intro proxy
  have hlength : (block.head t).contentLength = some ([] : List UInt8).length := hempty
  have hwithin : (block.head t).bodyTooLarge = false := by
    rw [Head.bodyTooLarge, hempty]
    rfl
  cases htext : (block.head t).needsRewrite with
  | true =>
    have hselects : (block.head t).selectsRewrite = true := by
      rw [Head.selectsRewrite_iff, hempty]
      exact ⟨Bool.or_true _, htext, hwithin⟩
    have hpass := responsePass_length_rewritten proxy hplain hlength hselects
      (Nat.zero_le _) rest c
    rw [rewriteBody_nil originAddr proxyAddr, List.nil_append, List.append_nil] at hpass
    rw [sentWith, if_neg fun h => h.2 rfl] at hpass
    rw [if_pos rfl]
    exact Reaches.loop_step (responsePass_progress t proxy) hpass
  | false =>
    have hselects : (block.head t).selectsRewrite = false := by
      rw [Head.selectsRewrite, htext, Bool.and_false, Bool.false_and]
    have hloop := responseLoop_length_passed proxy hplain hlength hselects rest c
    rw [List.nil_append, List.append_nil] at hloop
    rw [hloop, if_neg Bool.false_ne_true]

theorem forward_single (n : Nat) (b : UInt8) :
    forward t (n + 1) (Stream.mk [b] true) = ⟨.ok (), ⟨[], true⟩, [b]⟩ := by
  rw [forward_eq, forwardRun]
  cases n with
  | zero => rfl
  | succ n =>
    rw [if_neg (by simp)]
    rfl

/-- A block before the beginning of another one: what the run makes of them tells
whether it takes the first for a response with no body. -/
theorem HeaderBlock.passesEmpty_of_loop {block : HeaderBlock}
    (h : ∀ (rest : List UInt8), Incomplete rest →
      responseLoop t (TCPProxy.new originAddr proxyAddr) (Stream.mk (block.bytes ++ rest) true) =
        ⟨.ok (), ⟨[], true⟩, block.bytes⟩) : block.PassesEmpty t := by
  let proxy := TCPProxy.new originAddr proxyAddr
  have hbegun := h [72] (by decide)
  have hended := h [] incomplete_nil
  cases hchunked : (block.head t).isChunked with
  | true =>
    obtain ⟨_, _, _, hreads⟩ :=
      bodyReads_of_responseLoop proxy hchunked (congrArg Run.outcome hbegun)
    exact absurd hreads not_bodyReads_h
  | false =>
    cases hlength : (block.head t).contentLength with
    | none =>
      rw [responseLoop_untilClose proxy ⟨hlength, hchunked⟩] at hbegun
      simpa using congrArg Run.written hbegun
    | some n =>
      cases n with
      | zero =>
        refine ⟨hchunked, hlength, fun htext => ?_⟩
        rw [block.responseLoop_empty originAddr proxyAddr hchunked hlength, responseLoop_end,
          if_pos htext] at hended
        have hlossy := congrArg Run.written hended
        rw [Run.prepend_written, List.append_nil, ← block.asBytes_lossy] at hlossy
        exact hlossy
      | succ n =>
        cases hselects : (block.head t).selectsRewrite with
        | true =>
          obtain ⟨e, s', hpass⟩ := responsePass_length_short proxy hchunked hlength hselects
            (show ([] : List UInt8).length < n + 1 from Nat.succ_pos n)
          rw [responseLoop, loop_eq (responsePass_progress t proxy), hpass] at hended
          cases hended
        | false =>
          -- the first byte of the next block is taken for one of the body
          have hbody : passThroughBody t (block.head t) (Stream.mk [72] true) =
              ⟨.ok (), ⟨[], true⟩, [72]⟩ := by
            rw [passThroughBody, hchunked, hlength]
            exact forward_single n 72
          have hscan : ((block.head t).isChunked || (block.head t).contentLength.isSome) = true := by
            rw [hlength, Option.isSome_some, Bool.or_true]
          rw [responseLoop, loop_eq (responsePass_progress t _), responsePass_block,
            respond_unselected _ hscan hselects, passThrough, writeAll_bind_apply, bind_ok hbody,
            block.headerBuf_head] at hbegun
          simpa [resume, Run.prepend_mk] using congrArg Run.written hbegun

theorem HeaderBlock.PassesEmpty.loop {block : HeaderBlock} (h : block.PassesEmpty t)
    (rest : List UInt8) (c : Bool) :
    let proxy := TCPProxy.new originAddr proxyAddr
    responseLoop t proxy (Stream.mk (block.bytes ++ rest) c) =
      (responseLoop t proxy (Stream.mk rest c)).prepend block.bytes := by
  intro proxy
  rw [block.responseLoop_empty originAddr proxyAddr h.plain h.empty]
  split
  · next htext =>
    have hvalid : asBytes (fromUtf8Lossy block.bytes) = block.bytes := h.valid htext
    rw [← block.asBytes_lossy, hvalid]
  · rfl

end Leftover

/-! ## Both framings -/

/-- The scan finds the length. Or it finds chunks, the sizes of which fit `usize`, and a
length above the maximum beside them, and no trailer lines: what is left of a trailer
has to be an empty response. -/
inductive PassesOver (t : Target) (block : HeaderBlock) : List UInt8 → List UInt8 → Prop
  | length {body : List UInt8} (plain : (block.head t).isChunked = false)
      (length : (block.head t).contentLength = some body.length) : PassesOver t block body body
  | chunked {coded : ChunkedBody} (chunked : (block.head t).isChunked = true)
      (large : (block.head t).bodyTooLarge = true)
      (sizes : ∀ chunk ∈ coded.chunks, chunk.size.value < 2 ^ t.bits)
      (left : coded.trailer = [] ∨
        ∃ left : HeaderBlock, left.bytes = coded.trailerRest ∧ left.PassesEmpty t) :
      PassesOver t block coded.bytes coded.payload

section Both

variable {t : Target} (originAddr proxyAddr : SocketAddr) {block : HeaderBlock}

theorem not_selectsRewrite_of_large (h : (block.head t).bodyTooLarge = true) :
    (block.head t).selectsRewrite = false := by
  rw [Head.selectsRewrite, h, Bool.not_true, Bool.and_false]

/-- Chunks that are passed on leave the run at what is left of the trailer. -/
theorem passedOn_chunked_iff (proxy : TCPProxy) (hchunked : (block.head t).isChunked = true)
    (hlarge : (block.head t).bodyTooLarge = true) {coded : ChunkedBody}
    (sizes : ∀ chunk ∈ coded.chunks, chunk.size.value < 2 ^ t.bits) :
    PassedOn t proxy block coded.bytes ↔ ∀ (rest : List UInt8) (c : Bool),
      responseLoop t proxy (Stream.mk (coded.trailerRest ++ rest) c) =
        (responseLoop t proxy (Stream.mk rest c)).prepend coded.trailerRest := by
  rw [passedOn_iff]
  apply forall_congr'
  intro rest
  apply forall_congr'
  intro c
  obtain ⟨consumed, hconsumed, hloop⟩ := responseLoop_chunked_passed proxy hchunked
    (not_selectsRewrite_of_large hlarge) sizes rest c
  rw [hloop, ← hconsumed, ← List.append_assoc, ← Run.prepend_prepend (block.bytes ++ consumed)]
  exact (Run.prepend_injective _).eq_iff

theorem passesOver_of_passedOn {content body : List UInt8} (h : Oversized t block content body)
    (hpassed : PassedOn t (TCPProxy.new originAddr proxyAddr) block content) :
    PassesOver t block content body := by
  let proxy := TCPProxy.new originAddr proxyAddr
  have hloop := passedOn_iff.mp hpassed
  have hend := hloop [] true
  rcases h.framed with hframed | ⟨framed, rfl⟩
  · cases hframed with
    | length plain length => exact .length plain length
    | chunked coded chunked =>
      cases hlarge : (block.head t).bodyTooLarge with
      | false =>
        have hselects : (block.head t).selectsRewrite = true :=
          Head.selectsRewrite_iff.mpr ⟨HeaderBlock.scanned_of_chunked chunked, h.text, hlarge⟩
        obtain ⟨e, s, hrun⟩ := responseLoop_oversized proxy chunked hselects h.large [] true
        rw [hrun, responseLoop_end] at hend
        cases hend
      | true =>
        rw [responseLoop_end] at hend
        obtain ⟨_, _, _, hreads⟩ :=
          bodyReads_of_responseLoop proxy chunked (congrArg Run.outcome hend)
        rw [ChunkedBody.bytes, List.append_assoc] at hreads
        have sizes := hreads.sizes_fit
        refine .chunked chunked hlarge sizes ?_
        by_cases htrailer : coded.trailer = []
        · exact Or.inl htrailer
        · obtain ⟨left, hleft, _⟩ := coded.exists_trailerRest htrailer
          have hrest := (passedOn_chunked_iff _ chunked hlarge sizes).mp hpassed
          refine Or.inr ⟨left, hleft.symm, left.passesEmpty_of_loop originAddr proxyAddr ?_⟩
          intro rest hincomplete
          rw [← hleft, hrest, responseLoop_incomplete t _ hincomplete, atEnd_true, Run.prepend_mk,
            List.append_nil]
  · by_cases hfit : content.length < 2 ^ t.bits
    · exact .length framed.isChunked (framed.contentLength hfit)
    · -- all that follows is streamed, also the beginning of a header block
      have hbegun := hloop [72] true
      rw [responseLoop_untilClose proxy (framed.closeFramed hfit),
        responseLoop_incomplete t proxy (show Incomplete [72] by decide)] at hbegun
      simpa using congrArg Run.written hbegun

theorem PassesOver.passedOn {content body : List UInt8} (h : PassesOver t block content body)
    (hlarge : maxRewritableBodySize < body.length) :
    PassedOn t (TCPProxy.new originAddr proxyAddr) block content := by
  cases h with
  | length plain length =>
    have hover : (block.head t).bodyTooLarge = true := by
      rw [Head.bodyTooLarge, length, Option.any_some, decide_eq_true_eq]
      exact hlarge
    exact passedOn_iff.mpr (responseLoop_length_passed _ plain length
      (not_selectsRewrite_of_large hover))
  | chunked chunked large sizes left =>
    rw [passedOn_chunked_iff _ chunked large sizes]
    intro rest c
    rcases left with htrailer | ⟨left, hleft, hpasses⟩
    · rw [ChunkedBody.trailerRest_nil _ htrailer, List.nil_append, Run.prepend_nil]
    · rw [← hleft]
      exact hpasses.loop originAddr proxyAddr rest c

end Both

/-- **An oversized response is passed on just where the scan finds its length**, or finds
chunks and beside them a length above the maximum, and nothing is left of a trailer. -/
theorem oversized_passedOn_iff (t : Target) (originAddr proxyAddr : SocketAddr)
    {block : HeaderBlock} {content body : List UInt8} (h : Oversized t block content body) :
    PassedOn t (TCPProxy.new originAddr proxyAddr) block content ↔
      PassesOver t block content body :=
  ⟨passesOver_of_passedOn originAddr proxyAddr h,
    fun hover => hover.passedOn originAddr proxyAddr h.large⟩

/-- A body of one byte more than the maximum size, in one chunk. -/
def bigBody : ChunkedBody where
  chunks := [
    { size := .ofNumber ⟨['a', '0', '0', '0', '0', '1'], [10, 0, 0, 0, 0, 1], by decide, by decide⟩
      data := List.replicate (maxRewritableBodySize + 1) 97
      nonempty := List.cons_ne_nil 97 (List.replicate maxRewritableBodySize 97)
      size_eq := by
        rw [List.length_replicate]
        decide }]
  last := lastChunk
  trailer := []
  last_eq := inOneChunk.last_eq
  trailer_eq := inOneChunk.trailer_eq

theorem bigBody_large : maxRewritableBodySize < bigBody.payload.length := by
  show maxRewritableBodySize < (bigBody.chunks.flatMap (·.data)).length
  rw [bigBody, List.flatMap_singleton, List.length_replicate]
  exact Nat.lt_succ_self _

/-- The header block of a chunked XML answer that also says its length. -/
def bothBlock : HeaderBlock where
  lines := ["HTTP/1.1 200 OK\r", "Content-Type: text/xml\r", "Transfer-Encoding: chunked\r",
    "Content-Length: 10485761\r"].map fun line => asBytes line.toList
  blank := crlf
  feedless := by decide
  nonblank := by decide
  ends := crlf_blank

theorem bothBlock_chunked : (bothBlock.head release64).isChunked = true := by decide +kernel

theorem bothBlock_oversized : Oversized release64 bothBlock bigBody.bytes bigBody.payload where
  text := by decide +kernel
  large := bigBody_large
  framed := Or.inl (.chunked bigBody bothBlock_chunked)

theorem oversized_passedOn_iff_both :
    PassedOn release64 (TCPProxy.new originAddr proxyAddr) bothBlock bigBody.bytes ↔
      PassesOver release64 bothBlock bigBody.bytes bigBody.payload :=
  oversized_passedOn_iff release64 originAddr proxyAddr bothBlock_oversized

example : PassesOver release64 bothBlock bigBody.bytes bigBody.payload :=
  .chunked bothBlock_chunked (by decide +kernel) (List.forall_mem_singleton.mpr (by decide)) (Or.inl rfl)

/-- Without its length the response is lost and the connection with it. -/
theorem oversized_not_passedOn :
    Oversized release64 chunkedBlock bigBody.bytes bigBody.payload ∧
      ¬ PassedOn release64 (TCPProxy.new originAddr proxyAddr) chunkedBlock bigBody.bytes := by
  have hchunked := chunkedBlock_framed.isChunked (t := release64)
  have htext : (chunkedBlock.head release64).needsRewrite = true := by decide +kernel
  refine ⟨⟨htext, bigBody_large, Or.inl (.chunked bigBody hchunked)⟩, fun hpassed => ?_⟩
  obtain ⟨e, s, hrun⟩ := responseLoop_oversized (TCPProxy.new originAddr proxyAddr) hchunked
    (chunkedBlock_framed.selectsRewrite.trans htext) bigBody_large [] true
  have hend := passedOn_iff.mp hpassed [] true
  rw [hrun, responseLoop_end] at hend
  cases hend

end DlnaProxy.TcpProxy
