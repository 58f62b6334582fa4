import DlnaProxy.TcpProxy.ChunkCut
import DlnaProxy.TcpProxy.Delivery

/-!
# Truncation

What the proxy makes of responses that the origin did not finish. Only the buffering
loop takes a cut for the end of a body, and then it sends what it has as a complete
one; elsewhere the client never counts more responses than the origin has sent, and
what goes out for an unfinished response is not one.
-/
namespace DlnaProxy.TcpProxy

open DlnaProxy.Lib.ByteIo DlnaProxy.Lib.Growth DlnaProxy.Lib.Utf8 DlnaProxy.Net

/-! ## Responses that are cut -/

/-- The cut falls where the buffering loop takes it for the end of the body. -/
inductive Response.CutShort (t : Target) : Response → List UInt8 → Prop
  | mk {block : HeaderBlock} {body : List UInt8} (framed : block.ChunkFramed)
      {coded : ChunkedBody} (payload_eq : coded.payload = body)
      (text : (block.head t).needsRewrite = true) {arrived : List UInt8}
      (cut : arrived <+: coded.bytes) (short : arrived.length < coded.bytes.length)
      {chunks : List Chunk} (ends : coded.EndsAfter chunks arrived)
      (small : (chunks.flatMap (·.data)).length ≤ maxRewritableBodySize) :
      CutShort t ⟨block, body, .chunked framed coded payload_eq⟩ (block.bytes ++ arrived)

theorem Response.CutShort.length_lt {t : Target} {r : Response} {arrived : List UInt8}
    (h : r.CutShort t arrived) : arrived.length < r.bytes.length := by
  cases h with
  | mk framed payload_eq text cut short ends small =>
    rw [Response.bytes, List.length_append, List.length_append]
    exact Nat.add_lt_add_left short _

section Cut

variable {t : Target}

/-- Where the buffering loop returns on a body that is cut. -/
theorem readChunkedBody_cut_iff {coded : ChunkedBody} {arrived : List UInt8}
    (hcut : arrived <+: coded.bytes) (hlt : arrived.length < coded.bytes.length) :
    (∃ body s', readChunkedBody t maxRewritableBodySize (Stream.mk arrived true) =
        ⟨.ok body, s', []⟩) ↔
      ∃ chunks, coded.EndsAfter chunks arrived ∧
        (chunks.flatMap (·.data)).length ≤ maxRewritableBodySize := by
  constructor
  · rintro ⟨body, s', hread⟩
    obtain ⟨datas, consumed, hreads, rfl, hfits, _⟩ := (readChunkedBody_eq_ok_iff t).mp hread
    obtain ⟨_, chunks, hends, rfl⟩ := hreads.of_cut hcut hlt
    refine ⟨chunks, hends, ?_⟩
    rw [List.flatMap_def, List.length_flatten]
    exact hfits.1
  · rintro ⟨chunks, hends, hle⟩
    have hfit := Nat.lt_of_le_of_lt hle t.max_lt_isize
    have hsizes : ∀ chunk ∈ chunks, chunk.size.value < 2 ^ t.bits := fun chunk hchunk =>
      Nat.lt_of_le_of_lt (Chunk.size_le chunk hchunk) (Nat.lt_trans hfit (two_pow_isize_lt t))
    obtain ⟨consumed, s', hreads⟩ := hends.bodyReads hcut hlt hsizes
    rw [List.flatMap_def, List.length_flatten] at hle
    exact ⟨_, s', (readChunkedBody_eq_ok_iff t).mpr ⟨_, consumed, hreads, rfl,
      sizesFit_of_le hle t.max_le_quarter, rfl⟩⟩

theorem silent_ofExcept {α : Type} (x : Except IoError α) : Silent (ofExcept x : Io Stream α) := by
  cases x with
  | ok a => exact Silent.pure a
  | error e => exact Silent.halt (.error e)

theorem silent_readChunkedBodyPass (maxSize : Nat) (body : Vec UInt8) :
    Silent (readChunkedBodyPass t maxSize body : Io Stream _) := by
  apply Silent.bind (Silent.readUntil 10)
  intro sizeLine
  apply Silent.ite _ (Silent.pure _)
  apply Silent.bind (silent_ofExcept _)
  intro chunkSize
  apply Silent.ite
  · exact Silent.bind (Silent.readUntil 10) fun _ => Silent.pure _
  · apply Silent.bind
    · exact Silent.ite _ (Silent.pure _) (Silent.ite _ (Silent.halt .panic) (Silent.pure _))
    · intro size
      apply Silent.ite _ (Silent.halt _)
      apply Silent.bind (Silent.ite _ (Silent.pure _) (Silent.halt .panic))
      intro _
      apply Silent.bind (Silent.readExact _)
      intro chunk
      apply Silent.bind (Silent.ite _ (Silent.pure _) (Silent.halt .panic))
      intro body
      exact Silent.bind (Silent.readExact 2) fun _ => Silent.pure _

theorem silent_readChunkedBody (maxSize : Nat) :
    Silent (readChunkedBody t maxSize : Io Stream _) :=
  Silent.loop (lineLoop_readChunkedBodyPass (R := Stream) t maxSize).progress
    (silent_readChunkedBodyPass maxSize) .new

/-- Of a body that the buffering loop does not return nothing is sent. -/
theorem written_of_unread (proxy : TCPProxy) {block : HeaderBlock} (framed : block.ChunkFramed)
    (text : (block.head t).needsRewrite = true) {arrived : List UInt8}
    (hnot : ¬ ∃ body s', readChunkedBody t maxRewritableBodySize (Stream.mk arrived true) =
      ⟨.ok body, s', []⟩) :
    (responseLoop t proxy (Stream.mk (block.bytes ++ arrived) true)).written = [] := by
  have hsilent := silent_readChunkedBody (t := t) maxRewritableBodySize (Stream.mk arrived true)
  rcases hread : readChunkedBody t maxRewritableBodySize (Stream.mk arrived true) with
    ⟨h | body, s', w⟩ <;> rw [hread] at hsilent
  · obtain rfl : w = [] := hsilent
    rw [responseLoop, loop_eq (responsePass_progress t proxy), responsePass_block,
      respond_chunked proxy framed text, rewrite, framed.isChunked, if_pos rfl, bind_halt hread]
    rfl
  · obtain rfl : w = [] := hsilent
    exact absurd ⟨body, s', hread⟩ hnot

/-- **What is sent for a response that is cut short is a complete one.** -/
theorem Response.CutShort.complete (proxy : TCPProxy) {r : Response} {stream : List UInt8}
    (h : r.CutShort t stream) (hwf : r.WellFormed) :
    CompleteMessages 1 (responseLoop t proxy (Stream.mk stream true)).written := by
  cases h with
  | @mk block body framed coded payload_eq text arrived cut short chunks ends small =>
    obtain ⟨received, s', hread⟩ := (readChunkedBody_cut_iff cut short).mpr ⟨chunks, ends, small⟩
    obtain ⟨m, hpayload, htrailer, hencode⟩ := exists_encodeChunked (rewriteBody proxy received)
    let sent : Response := ⟨block.lossy, rewriteBody proxy received, .chunked framed.lossy m hpayload⟩
    have hsent : sent.WellFormed := by
      refine ⟨hwf.http.lossy, ?_⟩
      show ∀ line ∈ m.trailer, TrailerField line
      rw [htrailer]
      exact List.forall_mem_nil _
    have hwritten : sent.bytes <+:
        (responseLoop t proxy (Stream.mk (block.bytes ++ arrived) true)).written := by
      rw [responseLoop, loop_eq (responsePass_progress t proxy),
        responsePass_chunked_read proxy framed text hread, hencode]
      show block.lossy.bytes ++ m.bytes <+: _ ++ _
      simp
    have hone : CompleteMessages 1 sent.bytes :=
      ⟨sent, [], hsent, (List.append_nil _).symm, trivial⟩
    exact hone.mono hwritten

theorem Response.CutShort.prefix_bytes {r : Response} {stream : List UInt8}
    (h : r.CutShort t stream) : stream <+: r.bytes := by
  cases h with
  | mk framed payload_eq text cut short ends small => exact (List.prefix_append_right_inj _).mpr cut

theorem Response.CutShort.not_noMoreMessages (proxy : TCPProxy) {r : Response}
    {stream : List UInt8} (h : r.CutShort t stream) (hwf : r.WellFormed) :
    ¬ NoMoreMessages (responseLoop t proxy (Stream.mk stream true)).written stream :=
  fun hno => CompleteMessages.not_of_cut h.prefix_bytes h.length_lt (hno 1 (h.complete proxy hwf))

/-- Of a length-framed response that is cut no more than has come is sent. -/
theorem written_prefix_of_length_cut (proxy : TCPProxy) {block : HeaderBlock} {n : Nat}
    (framed : block.LengthFramed n) {arrived : List UInt8} (hlt : arrived.length < n) :
    (responseLoop t proxy (Stream.mk (block.bytes ++ arrived) true)).written <+:
      block.bytes ++ arrived := by
  by_cases hfit : n < 2 ^ t.bits
  · have hlength := framed.contentLength hfit
    have hscan : ((block.head t).isChunked || (block.head t).contentLength.isSome) = true := by
      rw [hlength, Option.isSome_some, Bool.or_true]
    cases hselects : (block.head t).selectsRewrite with
    | false =>
      apply written_prefix_of_passed proxy hselects
      intro x s' w hrun
      rw [respond_unselected proxy hscan hselects] at hrun
      obtain ⟨sent, hbody⟩ := passThrough_ok hrun
      rw [passThroughBody, framed.isChunked, hlength] at hbody
      obtain ⟨hbytes, hsent | hnil⟩ := forward_ok t hbody
      · have hlen := congrArg (fun s => s.bytes.length) hbytes
        simp only [List.length_append] at hlen
        omega
      · rw [hnil]
        exact incomplete_nil
    | true =>
      obtain ⟨e, s', hpass⟩ := responsePass_length_short proxy framed.isChunked hlength hselects hlt
      rw [responseLoop, loop_eq (responsePass_progress t proxy), hpass]
      exact List.nil_prefix
  · rw [responseLoop_untilClose proxy (framed.closeFramed hfit)]

/-- Of a response that is cut, but not cut short, no more than has come is sent. -/
theorem written_prefix_of_cut (proxy : TCPProxy) {r : Response} {stream : List UInt8}
    (hcut : stream <+: r.bytes) (hlt : stream.length < r.bytes.length)
    (hnot : ¬ r.CutShort t stream) :
    (responseLoop t proxy (Stream.mk stream true)).written <+: stream := by
  rcases Nat.lt_or_ge stream.length r.block.bytes.length with hshort | hlong
  · have hblock := List.prefix_of_prefix_length_le hcut (List.prefix_append _ _) (Nat.le_of_lt hshort)
    rw [responseLoop_incomplete t proxy (HeaderBlock.incomplete_of_cut hblock hshort)]
    exact List.nil_prefix
  · obtain ⟨arrived, rfl⟩ := List.prefix_of_prefix_length_le (List.prefix_append _ _) hcut hlong
    rw [Response.bytes, List.length_append, List.length_append] at hlt
    have hlt := Nat.lt_of_add_lt_add_left hlt
    have hcut : arrived <+: r.content := (List.prefix_append_right_inj _).mp hcut
    rcases r with ⟨block, body, framed | ⟨framed, coded, payload_eq⟩⟩
    · exact written_prefix_of_length_cut proxy framed hlt
    · cases htext : (block.head t).needsRewrite with
      | false =>
        apply written_prefix_of_passed proxy (framed.selectsRewrite.trans htext)
        intro x s' w hrun
        rw [respond_unselected proxy (HeaderBlock.scanned_of_chunked framed.isChunked)
          (framed.selectsRewrite.trans htext)] at hrun
        obtain ⟨datas, consumed, hreads⟩ := passThrough_chunked_ok framed.isChunked hrun
        exact (hreads.of_cut hcut hlt).1
      | true =>
        rw [written_of_unread proxy framed htext]
        · exact List.nil_prefix
        · rw [readChunkedBody_cut_iff hcut hlt]
          rintro ⟨chunks, hends, hsmall⟩
          exact hnot (.mk framed payload_eq htext hcut hlt hends hsmall)

/-- **What is sent for a response that is cut is a complete one just where it is cut
short.** -/
theorem complete_of_cut_iff (proxy : TCPProxy) {r : Response} (hwf : r.WellFormed)
    {stream : List UInt8} (hcut : stream <+: r.bytes) (hlt : stream.length < r.bytes.length) :
    CompleteMessages 1 (responseLoop t proxy (Stream.mk stream true)).written ↔
      r.CutShort t stream := by
  constructor
  · intro hone
    by_contra hnot
    exact CompleteMessages.not_of_cut hcut hlt
      (hone.mono (written_prefix_of_cut proxy hcut hlt hnot))
  · exact fun hshort => hshort.complete proxy hwf

end Cut


/-! ## The stream -/

/-- The cut of the stream is hidden: the responses before it are in step, and the one it
falls in is cut short. -/
inductive HidesCut (t : Target) : List Response → List UInt8 → Prop
  | here {r : Response} {more : List Response} {stream : List UInt8}
      (short : r.CutShort t stream) : HidesCut t (r :: more) stream
  | later {r : Response} {more : List Response} {stream : List UInt8} (inStep : r.InStep t)
      (later : HidesCut t more stream) : HidesCut t (r :: more) (r.bytes ++ stream)

theorem HidesCut.length_le {t : Target} {r : Response} {more : List Response} {stream : List UInt8}
    (h : HidesCut t (r :: more) stream) : r.block.bytes.length ≤ stream.length := by
  cases h with
  | here short =>
    cases short with
    | mk =>
      rw [List.length_append]
      exact Nat.le_add_right _ _
  | later inStep later =>
    rw [Response.bytes, List.append_assoc, List.length_append]
    exact Nat.le_add_right _ _

/-- The run comes to the response that the stream is cut in, and what it sends from
there on starts with a complete response. -/
def DeliversUnfinished (t : Target) (proxy : TCPProxy) (responses : List Response)
    (originRead : OwnedReadHalf) : Prop :=
  ∃ (before after : List Response) (r : Response) (part w sent : List UInt8) (reader : BufReader),
    responses = before ++ r :: after ∧ originRead.bytes = before.flatMap (·.bytes) ++ part ∧
    part <+: r.bytes ∧ part.length < r.bytes.length ∧
    ReadsTo t proxy originRead w reader ∧ reader.stream = ⟨part, true⟩ ∧
    (proxyResponseWithRewrite t proxy originRead).written = w ++ sent ∧ CompleteMessages 1 sent

section Streams

variable {t : Target}

variable (proxy : TCPProxy)

/-- Passes lead to the cut just where all the responses before it are in step. -/
theorem reaches_cut_iff {before : List Response} (hwf : ∀ r ∈ before, r.WellFormed)
    (part : List UInt8) :
    (∃ w, Reaches (responsePass t proxy) () (Stream.mk (before.flatMap (·.bytes) ++ part) true) w ()
      ⟨part, true⟩) ↔ ∀ r ∈ before, r.InStep t := by
  induction before with
  | nil => exact iff_of_true ⟨[], Reaches.refl _ _⟩ (List.forall_mem_nil _)
  | cons r before ih =>
    obtain ⟨hr, hbefore⟩ := List.forall_mem_cons.mp hwf
    have hle : part.length ≤ (before.flatMap (·.bytes) ++ part).length := by
      rw [List.length_append]
      exact Nat.le_add_left _ _
    rw [List.flatMap_cons, List.append_assoc, Response.reaches_past_iff proxy hr hle, ih hbefore,
      List.forall_mem_cons]

/-- The cut of a stream is hidden where it falls. -/
theorem hidesCut_iff {responses : List Response} {stream : List UInt8} :
    HidesCut t responses stream ↔ ∃ before after r part, responses = before ++ r :: after ∧
      stream = before.flatMap (·.bytes) ++ part ∧ (∀ r ∈ before, r.InStep t) ∧
      r.CutShort t part := by
  constructor
  · intro h
    induction h with
    | @here r more stream short =>
      exact ⟨[], more, r, stream, rfl, rfl, List.forall_mem_nil _, short⟩
    | @later r more stream inStep later ih =>
      obtain ⟨before, after, r', part, rfl, rfl, hsteps, hshort⟩ := ih
      refine ⟨r :: before, after, r', part, rfl, ?_, ?_, hshort⟩
      · rw [List.flatMap_cons, List.append_assoc]
      · exact List.forall_mem_cons.mpr ⟨inStep, hsteps⟩
  · rintro ⟨before, after, r, part, rfl, rfl, hsteps, hshort⟩
    induction before with
    | nil => exact .here hshort
    | cons r' before ih =>
      obtain ⟨hstep, hsteps⟩ := List.forall_mem_cons.mp hsteps
      rw [List.cons_append, List.flatMap_cons, List.append_assoc]
      exact .later hstep (ih hsteps)

/-- **An unfinished response is delivered as a complete one just where the cut is
hidden.** -/
theorem deliversUnfinished_iff {responses : List Response} (hwf : ∀ r ∈ responses, r.WellFormed)
    {originRead : OwnedReadHalf} (hclosed : originRead.closed = true) :
    DeliversUnfinished t proxy responses originRead ↔ HidesCut t responses originRead.bytes := by
  rw [hidesCut_iff]
  constructor
  · rintro ⟨before, after, r, part, w, sent, reader, rfl, hbytes, hcut, hlt, hreads, hreader, hwritten,
      hone⟩
    have hr : r.WellFormed := hwf r (by simp)
    have hsent : sent = (responseLoop t proxy (Stream.mk part true)).written := by
      have hrun := congrArg Run.written hreads.run
      rw [hreader] at hrun
      exact List.append_cancel_left (hwritten.symm.trans hrun)
    rw [hsent, complete_of_cut_iff proxy hr hcut hlt] at hone
    have hreach := hreads.reaches
    rw [hbytes, hclosed, hreader] at hreach
    have hsteps := (reaches_cut_iff proxy (fun r hr => hwf r (by simp [hr])) part).mp ⟨w, hreach⟩
    exact ⟨before, after, r, part, rfl, hbytes, hsteps, hone⟩
  · rintro ⟨before, after, r, part, rfl, hbytes, hsteps, hshort⟩
    obtain ⟨w, hreach⟩ :=
      (reaches_cut_iff proxy (fun r hr => hwf r (by simp [hr])) part).mpr hsteps
    rw [← hbytes, ← hclosed] at hreach
    obtain ⟨reader, hreads, hreader⟩ := ReadsTo.of_reaches hreach
    rw [hclosed] at hreader
    have hrun := congrArg Run.written hreads.run
    rw [hreader] at hrun
    exact ⟨before, after, r, part, w, _, reader, rfl, hbytes, hshort.prefix_bytes, hshort.length_lt,
      hreads, hreader, hrun, hshort.complete proxy (hwf r (by simp))⟩

variable (originAddr proxyAddr : SocketAddr)

/-- Where no cut is hidden the client counts no more responses than were sent. -/
theorem noMoreMessages_of_not_hidesCut {responses : List Response}
    (hwf : ∀ r ∈ responses, r.WellFormed) {stream : List UInt8}
    (hcut : stream <+: responses.flatMap (·.bytes)) (hnot : ¬ HidesCut t responses stream) :
    NoMoreMessages (responseLoop t (TCPProxy.new originAddr proxyAddr)
      (Stream.mk stream true)).written stream := by
  induction responses generalizing stream with
  | nil =>
    obtain rfl : stream = [] := List.prefix_nil.mp hcut
    rw [responseLoop_end]
    exact .of_beginning List.nil_prefix
  | cons r more ih =>
    obtain ⟨hr, hmore⟩ := List.forall_mem_cons.mp hwf
    rw [List.flatMap_cons] at hcut
    rcases Nat.lt_or_ge stream.length r.bytes.length with hshort | hlong
    · -- the cut is in this response
      have hcut := List.prefix_of_prefix_length_le hcut (List.prefix_append _ _) (Nat.le_of_lt hshort)
      exact .of_beginning (written_prefix_of_cut _ hcut hshort fun h => hnot (.here h))
    · -- it is behind it
      obtain ⟨rest, rfl⟩ := List.prefix_of_prefix_length_le (List.prefix_append _ _) hcut hlong
      have hcut : rest <+: more.flatMap (·.bytes) := (List.prefix_append_right_inj _).mp hcut
      by_cases hdelivered : r.Delivered t
      · obtain ⟨sent, hsent, hloop⟩ := hdelivered.loop originAddr proxyAddr hr rest true
        rw [hloop, Run.prepend_written, NoMoreMessages.cons_iff hsent hr]
        exact ih hmore hcut fun h => hnot (.later hdelivered.inStep h)
      · exact .of_not_delivered originAddr proxyAddr hr hdelivered rest

end Streams

/-- **Truncation stays visible exactly where no cut is hidden.** -/
theorem proxyResponseWithRewrite_truncation_iff (t : Target) (originAddr proxyAddr : SocketAddr)
    {responses : List Response} (hwf : ∀ r ∈ responses, r.WellFormed) {originRead : OwnedReadHalf}
    (hclosed : originRead.closed = true)
    (hcut : originRead.bytes <+: responses.flatMap (·.bytes)) :
    let proxy := TCPProxy.new originAddr proxyAddr
    (NoMoreMessages (proxyResponseWithRewrite t proxy originRead).written originRead.bytes ∧
        ¬ DeliversUnfinished t proxy responses originRead) ↔
      ¬ HidesCut t responses originRead.bytes := by
  intro proxy
  rw [deliversUnfinished_iff proxy hwf hclosed, and_iff_right_iff_imp,
    proxyResponseWithRewrite_written, hclosed]
  exact noMoreMessages_of_not_hidesCut originAddr proxyAddr hwf hcut

/-! ## A cut between two chunks -/

/-- The first of its two chunks. -/
def firstChunk : List Chunk := inTwoChunks.chunks.take 1

def firstChunkArrived : List UInt8 := chunkedBlock.bytes ++ firstChunk.flatMap (·.bytes)

theorem twoChunksResponse_wellFormed : twoChunksResponse.WellFormed where
  http := ⟨_, _, rfl, by decide⟩
  fields := by
    show ∀ line ∈ [], TrailerField line
    exact List.forall_mem_nil _

theorem firstChunkArrived_prefix : firstChunkArrived <+: twoChunksResponse.bytes := by decide

theorem firstChunk_ends : inTwoChunks.EndsAfter firstChunk (firstChunk.flatMap (·.bytes)) :=
  ⟨_, [], (List.take_append_drop 1 _).symm, (List.append_nil _).symm, Or.inr (List.forall_mem_nil _)⟩

theorem twoChunksResponse_cutShort : twoChunksResponse.CutShort release64 firstChunkArrived :=
  .mk chunkedBlock_framed rfl (by decide +kernel) (by decide) (by decide) firstChunk_ends (by decide)

/-- The client receives the first chunk as the complete body. -/
theorem proxyResponseWithRewrite_truncated :
    let proxy := TCPProxy.new originAddr proxyAddr
    let originRead := OwnedReadHalf.ofBytes firstChunkArrived
    twoChunksResponse.WellFormed ∧ originRead.bytes <+: twoChunksResponse.bytes ∧
      ¬ NoMoreMessages (proxyResponseWithRewrite release64 proxy originRead).written
        originRead.bytes ∧
      DeliversUnfinished release64 proxy [twoChunksResponse] originRead := by
  intro proxy originRead
  have hwf := List.forall_mem_singleton.mpr twoChunksResponse_wellFormed
  refine ⟨twoChunksResponse_wellFormed, ?_, ?_, ?_⟩
  · rw [OwnedReadHalf.bytes_ofBytes]
    exact firstChunkArrived_prefix
  · rw [written_ofBytes, OwnedReadHalf.bytes_ofBytes]
    exact twoChunksResponse_cutShort.not_noMoreMessages proxy twoChunksResponse_wellFormed
  · rw [deliversUnfinished_iff proxy hwf rfl, OwnedReadHalf.bytes_ofBytes]
    exact .here twoChunksResponse_cutShort

/-- The first line of the answer up to the version. -/
def versionArrived : List UInt8 := chunkedBlock.bytes.take 8

theorem versionArrived_not_hidesCut : ¬ HidesCut release64 [twoChunksResponse] versionArrived :=
  fun h => absurd h.length_le (by decide)

/-- The cut behind the first chunk, and one in the header block. -/
theorem proxyResponseWithRewrite_truncation_iff_twoChunks :
    let proxy := TCPProxy.new originAddr proxyAddr
    let visible (bytes : List UInt8) :=
      NoMoreMessages (proxyResponseWithRewrite release64 proxy (.ofBytes bytes)).written
          (OwnedReadHalf.ofBytes bytes).bytes ∧
        ¬ DeliversUnfinished release64 proxy [twoChunksResponse] (.ofBytes bytes)
    (visible firstChunkArrived ↔
        ¬ HidesCut release64 [twoChunksResponse] (OwnedReadHalf.ofBytes firstChunkArrived).bytes) ∧
      visible versionArrived := by
  intro proxy visible
  have hwf := List.forall_mem_singleton.mpr twoChunksResponse_wellFormed
  have hiff {bytes : List UInt8} (hcut : bytes <+: twoChunksResponse.bytes) : visible bytes ↔
      ¬ HidesCut release64 [twoChunksResponse] (OwnedReadHalf.ofBytes bytes).bytes := by
    apply proxyResponseWithRewrite_truncation_iff release64 originAddr proxyAddr hwf rfl
    rw [OwnedReadHalf.bytes_ofBytes, List.flatMap_singleton]
    exact hcut
  refine ⟨hiff firstChunkArrived_prefix, (hiff (by decide)).mpr ?_⟩
  rw [OwnedReadHalf.bytes_ofBytes]
  exact versionArrived_not_hidesCut

end DlnaProxy.TcpProxy
