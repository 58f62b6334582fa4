import DlnaProxy.TcpProxy.ChunkGrammar
import DlnaProxy.TcpProxy.Oversized

/-!
# Pass-through is prompt

On a stream none of whose header blocks selects the rewriting, a run that waits for
the origin has sent on everything that has arrived but a rest that cannot be sent
yet: the lines of a header block that has not ended, the beginning of a chunk size
or trailer line, or one byte of the line end after a chunk. `HeldBack` says where in
the stream the rest stands, so that no byte of a body is in it.
-/
namespace DlnaProxy.TcpProxy

open DlnaProxy.Lib.ByteIo DlnaProxy.Lib.Utf8 DlnaProxy.Net

/-- The part of a chunk that has arrived, and what of it is held back: a line that has
not ended or less than the two bytes after the data, and nothing of the data. -/
inductive InChunk (t : Target) : List UInt8 → List UInt8 → Prop
  | sizeLine {back : List UInt8} (feedless : 10 ∉ back) : InChunk t back back
  | data {data : List UInt8} (size : ReadSize t) (unfinished : data.length < size.value) :
      InChunk t (size.line ++ 10 :: data) []
  | lineEnd {data back : List UInt8} (size : ReadSize t) (size_eq : size.value = data.length)
      (nonempty : data ≠ []) (unfinished : back.length < 2) :
      InChunk t (size.line ++ 10 :: (data ++ back)) back
  | trailer {back : List UInt8} (last : ReadSize t) (zero : last.value = 0) (feedless : 10 ∉ back) :
      InChunk t (last.line ++ 10 :: back) back

/-- The part of a response that has arrived, and what of it is held back: a header block
that has not ended, nothing of a body without chunks, and of one with chunks what is
held back of the chunk that it has come to. -/
inductive InResponse (t : Target) : List UInt8 → List UInt8 → Prop
  | header {back : List UInt8} (incomplete : Incomplete back) : InResponse t back back
  | body {block : HeaderBlock} {content : List UInt8} (plain : (block.head t).isChunked = false)
      (unfinished : ∀ n ∈ (block.head t).contentLength, content.length < n) :
      InResponse t (block.bytes ++ content) []
  | chunked {block : HeaderBlock} {chunks : List (ReadChunk t)} {part back : List UInt8}
      (coded : (block.head t).isChunked = true) (inChunk : InChunk t part back) :
      InResponse t (block.bytes ++ (chunks.flatMap (·.bytes) ++ part)) back

/-- The rest of the stream is held back of the response that the run comes to last. -/
def HeldBack (t : Target) (proxy : TCPProxy) (s : Stream) (back : List UInt8) : Prop :=
  ∃ w s', Reaches (responsePass t proxy) () s w () s' ∧ InResponse t s'.bytes back

/-! ## Reads that wait -/

section Reads

variable {s r : Stream} {w : List UInt8} {n : Nat}

theorem atEnd_pending {α : Type} {c : Bool} {x : Except Halt α}
    (h : atEnd c x = .error .pending) (hx : x ≠ .error .pending) : c = false := by
  cases c with
  | false => rfl
  | true => exact absurd h hx

theorem readLineBytes_pending (h : readLineBytes s = ⟨.error .pending, r, w⟩) :
    10 ∉ s.bytes ∧ s.closed = false ∧ w = [] := by
  obtain ⟨bytes, c⟩ := s
  by_cases hm : (10 : UInt8) ∈ bytes
  · obtain ⟨front, rest, rfl, hfront⟩ := List.eq_append_cons_of_mem hm
    rw [readLineBytes_line front hfront] at h
    cases h
  · have hread := ((readUntil_eq 10 _).trans (lineRun_last hm c)).symm.trans h
    simp only [Run.mk.injEq] at hread
    exact ⟨hm, atEnd_pending hread.1 (by simp), hread.2.2.symm⟩

theorem readExact_pending (h : readExact n s = ⟨.error .pending, r, w⟩) :
    s.bytes.length < n ∧ s.closed = false ∧ w = [] := by
  rw [readExact_eq, exactRun] at h
  split at h
  · cases h
  · next hle =>
    simp only [Run.mk.injEq] at h
    exact ⟨Nat.lt_of_not_le hle, atEnd_pending h.1 (by simp), h.2.2.symm⟩

theorem forward_pending {t : Target} (h : forward t n s = ⟨.error .pending, r, w⟩) :
    s.bytes.length < n ∧ s.closed = false ∧ w = s.bytes := by
  rw [forward_eq, forwardRun] at h
  split at h
  · cases h
  · next hle =>
    simp only [Run.mk.injEq] at h
    exact ⟨Nat.lt_of_not_le hle, atEnd_pending h.1 (by simp), h.2.2.symm⟩

/-- What is forwarded is short only if the stream has ended. -/
theorem forward_short {t : Target} (h : forward t n s = ⟨.ok (), r, w⟩) :
    s = ⟨w ++ r.bytes, r.closed⟩ ∧ (w.length = n ∨ r.closed = true) := by
  obtain ⟨hs, _⟩ := forward_ok t h
  rw [forward_eq, forwardRun] at h
  split at h
  · next hle =>
    cases h
    exact ⟨hs, Or.inl (List.length_take_of_le hle)⟩
  · cases hc : s.closed <;> rw [hc] at h <;> cases h
    exact ⟨hs, Or.inr rfl⟩

theorem ofExcept_not_pending {α : Type} {x : Except IoError α} :
    (ofExcept x : Io Stream α) s ≠ ⟨.error .pending, r, w⟩ := by
  cases x <;> intro h <;> cases h

end Reads

/-! ## Chunked bodies -/

section Chunked

variable {t : Target}

/-- A pass that waits has sent the part of the chunk that it is in, but what cannot be
sent yet. -/
theorem passThroughChunkedPass_pending {s r : Stream} {w : List UInt8}
    (h : passThroughChunkedPass t () s = ⟨.error .pending, r, w⟩) :
    ∃ back, w ++ back = s.bytes ∧ InChunk t s.bytes back := by
  rcases bind_eq_error h with hline | ⟨line, s₁, w₁, w₂, hline, hrest, rfl⟩
  · obtain ⟨hfeed, _, rfl⟩ := readLineBytes_pending hline
    exact ⟨s.bytes, rfl, .sizeLine hfeed⟩
  · obtain ⟨rfl, rfl⟩ := readLineBytes_ok hline
    split at hrest
    · cases hrest
    · rcases bind_eq_error hrest with hwrite | ⟨_, s₂, w₃, w₄, hwrite, hsized, rfl⟩
      · cases hwrite
      cases hwrite
      rcases bind_eq_error hsized with hparse | ⟨n, s₃, w₅, w₆, hparse, hchunk, rfl⟩
      · exact absurd hparse ofExcept_not_pending
      obtain ⟨hsize, rfl, rfl⟩ := ofExcept_ok hparse
      -- the stream is open, so that the line has its feed
      have hopen (hlive : s₃.closed = false) :
          ∃ size : ReadSize t, size.value = n ∧ line = size.line ++ [10] := by
        rcases readLineBytes_cases hline with ⟨front, hfeed, rfl⟩ | ⟨_, rfl⟩
        · obtain ⟨size, rfl, hvalue⟩ := exists_readSize hfeed (Or.inl rfl) hsize
          exact ⟨size, hvalue, rfl⟩
        · cases hlive
      split at hchunk
      · next hzero =>
        rcases bind_eq_error hchunk with htrailer | ⟨_, s₄, w₇, w₈, _, hsent, rfl⟩
        · obtain ⟨hfeed, hlive, rfl⟩ := readLineBytes_pending htrailer
          obtain ⟨last, hvalue, rfl⟩ := hopen hlive
          refine ⟨s₃.bytes, by simp, ?_⟩
          rw [List.append_assoc]
          exact .trailer last (hvalue.trans hzero) hfeed
        · cases hsent
      · next hnz =>
        rcases bind_eq_error hchunk with hdata | ⟨_, s₄, w₇, w₈, hdata, hends, rfl⟩
        · obtain ⟨hshort, hlive, rfl⟩ := forward_pending hdata
          obtain ⟨size, rfl, rfl⟩ := hopen hlive
          refine ⟨[], by simp, ?_⟩
          rw [List.append_assoc]
          exact .data size hshort
        · obtain ⟨rfl, hall⟩ := forward_short hdata
          rcases bind_eq_error hends with hcrlf | ⟨_, s₅, w₉, w₁₀, _, hsent, rfl⟩
          · obtain ⟨hshort, hlive, rfl⟩ := readExact_pending hcrlf
            obtain ⟨size, rfl, rfl⟩ := hopen hlive
            have hlength : w₇.length = size.value := hall.resolve_right (by simp [hlive])
            have hne : w₇ ≠ [] := fun hnil => hnz (by rw [← hlength, hnil]; rfl)
            refine ⟨s₄.bytes, by simp, ?_⟩
            rw [List.append_assoc]
            exact .lineEnd size hlength.symm hne hshort
          · cases hsent

/-- The passes before it have sent whole chunks. -/
theorem exists_chunks_of_reaches {u u' : Unit} {s s' : Stream} {w : List UInt8}
    (h : Reaches (passThroughChunkedPass t) u s w u' s') :
    ∃ chunks : List (ReadChunk t), w = chunks.flatMap (·.bytes) ∧ s.bytes = w ++ s'.bytes := by
  induction h with
  | refl _ s => exact ⟨[], rfl, rfl⟩
  | step pass _ ih =>
    obtain ⟨chunks, rfl, hbytes⟩ := ih
    obtain ⟨data, hreads, hnext⟩ := passThroughChunkedPass_ok t pass
    cases data with
    | none => cases hnext
    | some data =>
      obtain ⟨chunk, _, rfl⟩ := hreads.exists_chunk
      refine ⟨chunk :: chunks, rfl, ?_⟩
      rw [hreads.bytes_eq t, hbytes, List.append_assoc]

theorem passThroughChunked_pending {s r : Stream} {w : List UInt8}
    (h : passThroughChunked t s = ⟨.error .pending, r, w⟩) :
    ∃ (chunks : List (ReadChunk t)) (part back : List UInt8), w ++ back = s.bytes ∧
      s.bytes = chunks.flatMap (·.bytes) ++ part ∧ InChunk t part back := by
  have hp := (lineLoop_passThroughChunkedPass (R := Stream) t).progress
  obtain ⟨_, _, s', _, v, hreach, hpass, hrun⟩ :=
    Reaches.of_loop_error hp () s (congrArg Run.outcome h)
  obtain ⟨chunks, rfl, hbytes⟩ := exists_chunks_of_reaches hreach
  obtain ⟨back, hback, hin⟩ := passThroughChunkedPass_pending hpass
  have hw : w = chunks.flatMap (·.bytes) ++ v := congrArg Run.written (h.symm.trans hrun)
  refine ⟨chunks, s'.bytes, back, ?_, hbytes, hin⟩
  rw [hw, List.append_assoc, hback, hbytes]

end Chunked

/-! ## Responses -/

section Run

variable {t : Target} {proxy : TCPProxy}

theorem passThrough_pending {block : HeaderBlock} {s r : Stream} {w : List UInt8}
    (h : passThrough t (block.head t) s = ⟨.error .pending, r, w⟩) :
    ∃ back, w ++ back = block.bytes ++ s.bytes ∧ InResponse t (block.bytes ++ s.bytes) back := by
  rcases bind_eq_error h with hwrite | ⟨_, s₁, w₁, w₂, hwrite, hrest, rfl⟩
  · cases hwrite
  cases hwrite
  rw [block.headerBuf_head]
  rcases bind_eq_error hrest with hbody | ⟨_, s₂, w₃, w₄, _, hdone, rfl⟩
  · rw [passThroughBody] at hbody
    cases hchunked : (block.head t).isChunked with
    | true =>
      rw [hchunked, if_pos rfl] at hbody
      obtain ⟨chunks, part, back, hback, hbytes, hin⟩ := passThroughChunked_pending hbody
      refine ⟨back, by rw [List.append_assoc, hback], ?_⟩
      rw [hbytes]
      exact .chunked hchunked hin
    | false =>
      cases hlength : (block.head t).contentLength with
      | none =>
        rw [hchunked, hlength] at hbody
        cases hbody
      | some len =>
        rw [hchunked, hlength] at hbody
        obtain ⟨hshort, _, rfl⟩ := forward_pending hbody
        refine ⟨[], List.append_nil _, .body hchunked ?_⟩
        rw [hlength]
        intro n hn
        obtain rfl := Option.some.inj hn
        exact hshort
  · cases hdone

/-- A pass that waits in a header block holds back the block, and one that waits in a
body what cannot be sent of it. -/
theorem responsePass_pending {s r : Stream} {w : List UInt8} (h : PassesThrough t proxy s)
    (hpending : responsePass t proxy () s = ⟨.error .pending, r, w⟩) :
    ∃ back, w ++ back = s.bytes ∧ InResponse t s.bytes back := by
  obtain ⟨bytes, c⟩ := s
  rcases HeaderBlock.exists_or_incomplete bytes with ⟨block, rest, rfl⟩ | hincomplete
  · rw [responsePass_block] at hpending
    cases hframed : ((block.head t).isChunked || (block.head t).contentLength.isSome) with
    | true =>
      rw [respond_unselected proxy hframed h.head] at hpending
      exact passThrough_pending hpending
    | false =>
      obtain ⟨hplain, hlength⟩ := Bool.or_eq_false_iff.mp hframed
      rw [Option.isSome_eq_false_iff] at hlength
      have hnone : (block.head t).contentLength = none := Option.isNone_iff_eq_none.mp hlength
      have hstreamed : respond t proxy (block.head t) (Stream.mk rest c) =
          streamUntilClose (block.head t) ⟨rest, c⟩ := by
        rw [respond, head_not_empty, hplain, hnone]
        rfl
      rw [hstreamed] at hpending
      refine ⟨[], (List.append_nil _).trans ?_, .body hplain ?_⟩
      · rw [streamUntilClose, block.headerBuf_head, writeAll_bind_apply, flush_bind_apply, bind_apply,
          copy_eq, copyRun] at hpending
        cases c <;> cases hpending
        rfl
      · rw [hnone]
        intro n hn
        cases hn
  · rw [responsePass_incomplete t proxy hincomplete] at hpending
    exact ⟨bytes, congrArg (· ++ bytes) (congrArg Run.written hpending).symm, .header hincomplete⟩

/-- The passes before the one that waits have sent all they read. -/
theorem PassesThrough.reaches {u u' : Unit} {s s' : Stream} {w : List UInt8}
    (h : PassesThrough t proxy s) (hreach : Reaches (responsePass t proxy) u s w u' s') :
    PassesThrough t proxy s' ∧ w ++ s'.bytes = s.bytes := by
  induction hreach with
  | refl _ s => exact ⟨h, rfl⟩
  | step pass _ ih =>
    obtain ⟨_, hnext, _⟩ := responsePass_lossless h pass
    obtain ⟨hpasses, hbytes⟩ := ih (h.next pass)
    refine ⟨hpasses, ?_⟩
    rw [List.append_assoc, hbytes]
    exact hnext rfl

theorem responseLoop_prompt {s : Stream} (h : PassesThrough t proxy s)
    (hpending : (responseLoop t proxy s).outcome = .error .pending) :
    ∃ back, (responseLoop t proxy s).written ++ back = s.bytes ∧ HeldBack t proxy s back := by
  have hp := responsePass_progress (R := Stream) t proxy
  obtain ⟨w, _, s', _, v, hreach, hpass, hrun⟩ := Reaches.of_loop_error hp () s hpending
  obtain ⟨hpasses, hbytes⟩ := h.reaches hreach
  obtain ⟨back, hback, hin⟩ := responsePass_pending hpasses hpass
  have hw : (responseLoop t proxy s).written = w ++ v := congrArg Run.written hrun
  refine ⟨back, ?_, w, s', hreach, hin⟩
  rw [hw, List.append_assoc, hback, hbytes]

end Run

/-- **Pass-through is prompt on every stream.** If no header block that has arrived
selects the rewriting and the proxy waits for the origin, then it has written all
that has arrived but a rest that it cannot send yet, and no byte of a body is in it. -/
theorem proxyResponseWithRewrite_prompt (t : Target) (proxy : TCPProxy) {arrivals : List Piece}
    (h : PassesThrough t proxy ⟨BufReader.joined arrivals, false⟩)
    (hwaits : (proxyResponseWithRewrite t proxy ⟨arrivals, false⟩).outcome = .error .pending) :
    ∃ back, (proxyResponseWithRewrite t proxy ⟨arrivals, false⟩).written ++ back =
      BufReader.joined arrivals ∧ HeldBack t proxy ⟨BufReader.joined arrivals, false⟩ back := by
  rw [proxyResponseWithRewrite_outcome] at hwaits
  rw [proxyResponseWithRewrite_written]
  exact responseLoop_prompt h hwaits

theorem video_waits (proxy : TCPProxy) :
    (proxyResponseWithRewrite release64 proxy ⟨videoArrivals, false⟩).outcome =
      .error .pending := by
  have hincomplete : Incomplete [72] := by decide
  have hbytes : BufReader.joined videoArrivals = videoResponse.bytes ++ [72] :=
    BufReader.joined_onePiece _
  rw [proxyResponseWithRewrite_outcome, OwnedReadHalf.bytes, hbytes,
    responseLoop_passedThrough proxy videoResponse_not_rewritable,
    responseLoop_incomplete release64 proxy hincomplete]
  rfl

theorem proxyResponseWithRewrite_prompt_video :
    let proxy := TCPProxy.new originAddr proxyAddr
    let run := proxyResponseWithRewrite release64 proxy ⟨videoArrivals, false⟩
    ∃ back, run.written ++ back = BufReader.joined videoArrivals ∧
      HeldBack release64 proxy ⟨BufReader.joined videoArrivals, false⟩ back := by
  have hincomplete : Incomplete [72] := by decide
  have hbytes : BufReader.joined videoArrivals = videoResponse.bytes ++ [72] :=
    BufReader.joined_onePiece _
  have hpasses : PassesThrough release64 (TCPProxy.new originAddr proxyAddr)
      ⟨BufReader.joined videoArrivals, false⟩ := by
    rw [hbytes]
    exact PassesThrough.cons videoResponse_not_rewritable
      (PassesThrough.of_incomplete hincomplete false)
  exact proxyResponseWithRewrite_prompt release64 _ hpasses (video_waits _)

end DlnaProxy.TcpProxy
