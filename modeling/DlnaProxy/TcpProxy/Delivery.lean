import DlnaProxy.TcpProxy.Oversized
import DlnaProxy.TcpProxy.PassThrough

/-!
# Responses that arrive whole

A client counts the complete responses at the start of what it receives. `InStep` says
which responses the run takes to their end, and `Delivered` which of these the client
gets as one. Behind a response that is not delivered it never counts more responses
than the origin has sent.
-/
namespace DlnaProxy.TcpProxy

open DlnaProxy.Lib.ByteIo DlnaProxy.Lib.Growth DlnaProxy.Lib.Utf8 DlnaProxy.Net

/-! ## Complete responses -/

/-- A trailer line: a name, which as a token has no slash in it, and a colon. It does
not frame the message. -/
structure TrailerField (line : List UInt8) : Prop where
  named : ∃ name value, line = name ++ 58 :: value ∧ 47 ∉ name
  no_length : ¬ HasField contentLengthField line
  no_encoding : ¬ HasField transferEncodingField line

structure Response.WellFormed (r : Response) : Prop where
  http : r.block.StartsHttp
  fields : ∀ line ∈ r.trailer, TrailerField line

/-- The bytes start with `n` complete responses. -/
def CompleteMessages : Nat → List UInt8 → Prop
  | 0, _ => True
  | n + 1, bytes => ∃ (r : Response) (rest : List UInt8), r.WellFormed ∧ bytes = r.bytes ++ rest ∧
      CompleteMessages n rest

/-- The client counts no more complete responses than the origin has sent. -/
def NoMoreMessages (written bytes : List UInt8) : Prop :=
  ∀ n, CompleteMessages n written → CompleteMessages n bytes

theorem httpVersion_bytes : asBytes httpVersion = [72, 84, 84, 80, 47] := by decide

theorem TrailerField.not_http {line : List UInt8} (h : TrailerField line) (more : List UInt8) :
    ¬ asBytes httpVersion <+: line ++ more := by
  obtain ⟨name, value, rfl, hslash⟩ := h.named
  rw [httpVersion_bytes, List.append_assoc]
  rcases name with _ | ⟨a, _ | ⟨b, _ | ⟨c, _ | ⟨d, _ | ⟨e, name⟩⟩⟩⟩⟩ <;>
    simp_all [List.cons_prefix_cons]

theorem not_hasField_cr {name : Str} (hcr : 13 ∉ asBytes name) {line : List UInt8}
    (h : ¬ HasField name line) : ¬ HasField name (line ++ [13]) := by
  rw [HasField, List.map_append]
  exact mt (prefix_append_singleton_iff hcr).mp h

namespace CompleteMessages

theorem mono {n : Nat} {bytes more : List UInt8} (h : CompleteMessages n bytes)
    (hle : bytes <+: more) : CompleteMessages n more := by
  induction n generalizing bytes more with
  | zero => trivial
  | succ n ih =>
    obtain ⟨r, rest, hr, rfl, hrest⟩ := h
    obtain ⟨tail, rfl⟩ := hle
    exact ⟨r, rest ++ tail, hr, List.append_assoc _ _ _, ih hrest (List.prefix_append _ _)⟩

/-- A response at the start is the first that is counted. -/
theorem tail {n : Nat} {r : Response} {rest : List UInt8}
    (h : CompleteMessages (n + 1) (r.bytes ++ rest)) : CompleteMessages n rest := by
  obtain ⟨r', rest', _, heq, hrest⟩ := h
  rw [(Response.bytes_append_inj heq).2.2.2]
  exact hrest

theorem http {n : Nat} {bytes : List UInt8} (h : CompleteMessages (n + 1) bytes) :
    asBytes httpVersion <+: bytes := by
  obtain ⟨r, rest, hr, rfl, _⟩ := h
  rw [Response.bytes, List.append_assoc]
  exact hr.http.bytes.trans (List.prefix_append _ _)

/-- Of a response that is cut nothing is counted. -/
theorem not_of_cut {n : Nat} {r : Response} {bytes : List UInt8} (hcut : bytes <+: r.bytes)
    (hlt : bytes.length < r.bytes.length) : ¬ CompleteMessages (n + 1) bytes := by
  rintro ⟨r', rest, _, rfl, _⟩
  obtain ⟨more, hmore⟩ := hcut
  rw [List.append_assoc, ← List.append_nil r.bytes] at hmore
  obtain ⟨_, _, hbytes, hnil⟩ := Response.bytes_append_inj hmore
  rw [List.append_eq_nil_iff] at hnil
  rw [hnil.1, List.append_nil, hbytes] at hlt
  exact Nat.lt_irrefl _ hlt

end CompleteMessages

namespace NoMoreMessages

theorem of_beginning {written bytes : List UInt8} (h : written <+: bytes) :
    NoMoreMessages written bytes := fun _ hn => hn.mono h

theorem of_not_http {written bytes : List UInt8} (h : ¬ asBytes httpVersion <+: written) :
    NoMoreMessages written bytes := by
  intro n hn
  cases n with
  | zero => trivial
  | succ n => exact absurd hn.http h

/-- A response for a response leaves the count to what follows. -/
theorem cons_iff {sent r : Response} (hsent : sent.WellFormed) (hr : r.WellFormed)
    {written bytes : List UInt8} :
    NoMoreMessages (sent.bytes ++ written) (r.bytes ++ bytes) ↔ NoMoreMessages written bytes := by
  constructor
  · intro h n hn
    exact (h (n + 1) ⟨sent, written, hsent, rfl, hn⟩).tail
  · intro h n hn
    cases n with
    | zero => trivial
    | succ n => exact ⟨r, bytes, hr, rfl, h n hn.tail⟩

end NoMoreMessages

/-! ## Responses that arrive whole -/

/-- The run sends a response for this one and goes on with what follows it. -/
inductive Response.Delivered (t : Target) : Response → Prop
  | length {block : HeaderBlock} {body : List UInt8} (framed : block.LengthFramed body.length)
      (fits : body.length < 2 ^ t.bits) : Delivered t ⟨block, body, .length framed⟩
  | rewritten {block : HeaderBlock} {body : List UInt8} (framed : block.ChunkFramed)
      {coded : ChunkedBody} (payload_eq : coded.payload = body)
      (text : (block.head t).needsRewrite = true) (trailer : coded.trailer = [])
      (nonempty : body ≠ []) (small : body.length ≤ maxRewritableBodySize) :
      Delivered t ⟨block, body, .chunked framed coded payload_eq⟩
  | passed {block : HeaderBlock} {body : List UInt8} (framed : block.ChunkFramed)
      {coded : ChunkedBody} (payload_eq : coded.payload = body)
      (text : (block.head t).needsRewrite = false) (trailer : coded.trailer = [])
      (sizes : ∀ chunk ∈ coded.chunks, chunk.size.value < 2 ^ t.bits) :
      Delivered t ⟨block, body, .chunked framed coded payload_eq⟩

/-- The run takes the response to its end and goes on with what follows it. Beside the
ones that are delivered these are the empty chunked texts, which are ended twice. -/
inductive Response.InStep (t : Target) : Response → Prop
  | length {block : HeaderBlock} {body : List UInt8} (framed : block.LengthFramed body.length)
      (fits : body.length < 2 ^ t.bits) : InStep t ⟨block, body, .length framed⟩
  | rewritten {block : HeaderBlock} {body : List UInt8} (framed : block.ChunkFramed)
      {coded : ChunkedBody} (payload_eq : coded.payload = body)
      (text : (block.head t).needsRewrite = true) (trailer : coded.trailer = [])
      (small : body.length ≤ maxRewritableBodySize) :
      InStep t ⟨block, body, .chunked framed coded payload_eq⟩
  | passed {block : HeaderBlock} {body : List UInt8} (framed : block.ChunkFramed)
      {coded : ChunkedBody} (payload_eq : coded.payload = body)
      (text : (block.head t).needsRewrite = false) (trailer : coded.trailer = [])
      (sizes : ∀ chunk ∈ coded.chunks, chunk.size.value < 2 ^ t.bits) :
      InStep t ⟨block, body, .chunked framed coded payload_eq⟩

theorem Response.Delivered.inStep {t : Target} {r : Response} (h : r.Delivered t) : r.InStep t := by
  cases h with
  | length framed fits => exact .length framed fits
  | rewritten framed payload_eq text trailer _ small =>
    exact .rewritten framed payload_eq text trailer small
  | passed framed payload_eq text trailer sizes =>
    exact .passed framed payload_eq text trailer sizes

section Whole

variable {t : Target}

theorem Response.Sends.wellFormed {proxy : TCPProxy} {r sent : Response} {written : List UInt8}
    (h : r.Sends proxy sent written) (hr : r.WellFormed) : sent.WellFormed where
  http := h.http hr.http
  fields := by
    rw [h.trailer]
    exact List.forall_mem_nil _

/-- If a pass that returns leaves no header block, no more than the stream is written. -/
theorem written_prefix_of_passed (proxy : TCPProxy) {block : HeaderBlock}
    (hselect : (block.head t).selectsRewrite = false) {rest : List UInt8} {c : Bool}
    (hrest : ∀ x s' w, respond t proxy (block.head t) (Stream.mk rest c) = ⟨.ok x, s', w⟩ →
      Incomplete s'.bytes) :
    (responseLoop t proxy (Stream.mk (block.bytes ++ rest) c)).written <+: block.bytes ++ rest := by
  obtain ⟨hpre, hall⟩ := forwards_respond t proxy hselect (Stream.mk rest c)
  rw [responseLoop, loop_eq (responsePass_progress t proxy), responsePass_block]
  rcases hrun : respond t proxy (block.head t) (Stream.mk rest c) with ⟨h | x, s', w⟩
  · rw [hrun] at hpre
    exact hpre
  · rw [hrun] at hpre
    cases x with
    | done a => exact hpre
    | next a =>
      have hloop := responseLoop_incomplete t proxy (hrest _ _ _ hrun) s'.closed
      rw [resume, ← responseLoop, Run.prepend_written, hloop, List.append_nil]
      exact hpre

variable (originAddr proxyAddr : SocketAddr)

/-- Only an empty chunked body is ended twice. -/
theorem Response.Sends.secondEnd_nil {r sent : Response} {written : List UInt8}
    (h : r.Sends (TCPProxy.new originAddr proxyAddr) sent written) (hne : r.body ≠ []) :
    sent.secondEnd = [] := by
  have hbody : sent.body ≠ [] := by
    rw [h.body]
    exact rewriteBody_ne_nil originAddr proxyAddr hne
  rw [Response.secondEnd, List.isEmpty_eq_false_iff.mpr hbody, Bool.and_false]
  rfl

/-- **A response that is delivered is a response for the client.** -/
theorem Response.Delivered.loop {r : Response} (h : r.Delivered t) (hwf : r.WellFormed)
    (rest : List UInt8) (c : Bool) :
    let proxy := TCPProxy.new originAddr proxyAddr
    ∃ sent : Response, sent.WellFormed ∧ responseLoop t proxy (Stream.mk (r.bytes ++ rest) c) =
      (responseLoop t proxy (Stream.mk rest c)).prepend sent.bytes := by
  intro proxy
  cases h with
  | @length block body framed fits =>
    by_cases hr : Response.Rewritable t ⟨block, body, .length framed⟩
    · obtain ⟨sent, written, hsends, hloop⟩ := hr.loop proxy rest c
      have hend : sent.secondEnd = [] := by
        rw [Response.secondEnd, hsends.isChunked]
        rfl
      rw [hsends.written_eq, hend, List.append_nil] at hloop
      exact ⟨sent, hsends.wellFormed hwf, hloop⟩
    · let r : LengthResponse t := ⟨block, body, framed, fits⟩
      have hnot : ¬ r.Rewritable := fun h => hr ⟨h.1, h.2⟩
      exact ⟨_, hwf, responseLoop_passedThrough proxy hnot rest c⟩
  | @rewritten block body framed coded payload_eq text trailer nonempty small =>
    have hr : Response.Rewritable t ⟨block, body, .chunked framed coded payload_eq⟩ := ⟨text, small⟩
    obtain ⟨sent, written, hsends, hloop⟩ := hr.loop proxy rest c
    have hend := hsends.secondEnd_nil originAddr proxyAddr nonempty
    have hleft : Response.leftover ⟨block, body, .chunked framed coded payload_eq⟩ = [] :=
      coded.trailerRest_nil trailer
    rw [hsends.written_eq, hend, hleft, List.append_nil] at hloop
    exact ⟨sent, hsends.wellFormed hwf, hloop⟩
  | @passed block body framed coded payload_eq text trailer sizes =>
    obtain ⟨consumed, hconsumed, hloop⟩ :=
      responseLoop_chunked_passed proxy framed.isChunked (framed.selectsRewrite.trans text) sizes
        rest c
    rw [coded.trailerRest_nil trailer] at hconsumed hloop
    rw [List.append_nil] at hconsumed
    rw [hconsumed, ← List.append_assoc] at hloop
    exact ⟨_, hwf, hloop⟩

/-- A trailer that is left over does not look like a response. -/
theorem ChunkedBody.exists_closeFramed (t : Target) {coded : ChunkedBody}
    (hne : coded.trailer ≠ []) (hfields : ∀ line ∈ coded.trailer, TrailerField line) :
    ∃ block : HeaderBlock, coded.trailerRest = block.bytes ∧ block.CloseFramed t ∧
      ∀ rest, ¬ asBytes httpVersion <+: block.bytes ++ rest := by
  obtain ⟨block, hbytes, hlines⟩ := coded.exists_trailerRest hne
  refine ⟨block, hbytes, ⟨?_, ?_⟩, ?_⟩
  · apply block.contentLength_none
    intro line hline
    obtain ⟨field, hfield, rfl⟩ := hlines line hline
    exact not_hasField_cr (by decide) (hfields field hfield).no_length
  · apply block.isChunked_false
    intro line hline
    obtain ⟨field, hfield, rfl⟩ := hlines line hline
    exact not_hasField_cr (by decide) (hfields field hfield).no_encoding
  · intro rest
    cases hall : block.lines with
    | nil =>
      rw [HeaderBlock.bytes, hall, httpVersion_bytes]
      rcases block.blank_eq with hblank | hblank <;> rw [hblank] <;>
        simp [crlf, List.cons_prefix_cons]
    | cons line lines =>
      obtain ⟨field, hfield, hline⟩ := hlines line (by simp [hall])
      rw [HeaderBlock.bytes, hall, List.flatMap_cons, hline]
      simp only [List.append_assoc]
      exact (hfields field hfield).not_http _

/-- Chunks that a pass has passed on are of sizes that fit `usize`. -/
theorem ChunkedBody.sizes_fit_of_respond (proxy : TCPProxy) {block : HeaderBlock}
    (framed : block.ChunkFramed) (text : (block.head t).needsRewrite = false) {coded : ChunkedBody}
    {rest w : List UInt8} {c : Bool} {x : Control Unit Unit} {s' : Stream}
    (h : respond t proxy (block.head t) (Stream.mk (coded.bytes ++ rest) c) = ⟨.ok x, s', w⟩) :
    ∀ chunk ∈ coded.chunks, chunk.size.value < 2 ^ t.bits := by
  rw [respond_unselected proxy (HeaderBlock.scanned_of_chunked framed.isChunked)
    (framed.selectsRewrite.trans text)] at h
  obtain ⟨datas, consumed, hreads⟩ := passThrough_chunked_ok framed.isChunked h
  rw [ChunkedBody.bytes, List.append_assoc] at hreads
  exact hreads.sizes_fit

/-- A chunked response that is passed on but not delivered is passed on with all that
follows it, or with nothing of it. -/
theorem written_prefix_of_chunked (proxy : TCPProxy) {block : HeaderBlock}
    (framed : block.ChunkFramed) (text : (block.head t).needsRewrite = false) {coded : ChunkedBody}
    (hfields : ∀ line ∈ coded.trailer, TrailerField line)
    (hnot : ¬ (coded.trailer = [] ∧ ∀ chunk ∈ coded.chunks, chunk.size.value < 2 ^ t.bits))
    (rest : List UInt8) :
    (responseLoop t proxy (Stream.mk (block.bytes ++ (coded.bytes ++ rest)) true)).written <+:
      block.bytes ++ (coded.bytes ++ rest) := by
  by_cases hsizes : ∀ chunk ∈ coded.chunks, chunk.size.value < 2 ^ t.bits
  · have htrailer : coded.trailer ≠ [] := fun h => hnot ⟨h, hsizes⟩
    obtain ⟨consumed, hconsumed, hloop⟩ :=
      responseLoop_chunked_passed proxy framed.isChunked (framed.selectsRewrite.trans text) hsizes
        rest true
    obtain ⟨left, hleft, hclose, _⟩ := coded.exists_closeFramed t htrailer hfields
    rw [hleft, responseLoop_untilClose proxy hclose] at hloop
    rw [hloop, ← hconsumed, hleft]
    show block.bytes ++ consumed ++ (left.bytes ++ rest) <+: _
    simp
  · -- a size that leaves `usize` ends the run
    apply written_prefix_of_passed proxy (framed.selectsRewrite.trans text)
    intro x s' w hrun
    exact absurd (ChunkedBody.sizes_fit_of_respond proxy framed text hrun) hsizes

/-- After a response that is rewritten but not delivered nothing looks like one. -/
theorem NoMoreMessages.of_rewritten {r : Response} (hwf : r.WellFormed) (hr : r.Rewritable t)
    (hnot : ¬ (r.trailer = [] ∧ r.body ≠ [])) (hchunked : r.isChunked = true) (rest : List UInt8) :
    let proxy := TCPProxy.new originAddr proxyAddr
    NoMoreMessages (responseLoop t proxy (Stream.mk (r.bytes ++ rest) true)).written
      (r.bytes ++ rest) := by
  intro proxy
  obtain ⟨sent, written, hsends, hloop⟩ := hr.loop proxy rest true
  rw [hloop, Run.prepend_written, hsends.written_eq, List.append_assoc,
    NoMoreMessages.cons_iff (hsends.wellFormed hwf) hwf]
  apply NoMoreMessages.of_not_http
  by_cases hbody : r.body = []
  · have hend : sent.secondEnd = [48] ++ crlf ++ crlf := by
      rw [Response.secondEnd, hsends.isChunked, hsends.body, hbody, rewriteBody_nil, hchunked]
      rfl
    rw [hend, httpVersion_bytes]
    simp [List.cons_prefix_cons]
  · rw [hsends.secondEnd_nil originAddr proxyAddr hbody, List.nil_append]
    rcases r with ⟨block, body, framed | ⟨framed, coded, payload_eq⟩⟩
    · cases hchunked
    · have htrailer : coded.trailer ≠ [] := fun h => hnot ⟨h, hbody⟩
      obtain ⟨left, hleft, hclose, hhttp⟩ := coded.exists_closeFramed t htrailer hwf.fields
      show ¬ asBytes httpVersion <+:
        (responseLoop t proxy (Stream.mk (coded.trailerRest ++ rest) true)).written
      rw [hleft, responseLoop_untilClose proxy hclose]
      exact hhttp rest

/-- After a response that is not delivered the client counts no more than was sent. -/
theorem NoMoreMessages.of_not_delivered {r : Response} (hwf : r.WellFormed)
    (hnot : ¬ r.Delivered t) (rest : List UInt8) :
    let proxy := TCPProxy.new originAddr proxyAddr
    NoMoreMessages (responseLoop t proxy (Stream.mk (r.bytes ++ rest) true)).written
      (r.bytes ++ rest) := by
  intro proxy
  rcases r with ⟨block, body, framed | ⟨framed, coded, payload_eq⟩⟩
  · have hfit : ¬ body.length < 2 ^ t.bits := fun hfit => hnot (.length framed hfit)
    rw [Response.bytes, List.append_assoc, responseLoop_untilClose proxy (framed.closeFramed hfit)]
    exact .of_beginning List.prefix_rfl
  · cases htext : (block.head t).needsRewrite with
    | false =>
      rw [Response.bytes, List.append_assoc]
      exact .of_beginning (written_prefix_of_chunked proxy framed htext hwf.fields
        (fun h => hnot (.passed framed payload_eq htext h.1 h.2)) rest)
    | true =>
      by_cases hsmall : body.length ≤ maxRewritableBodySize
      · exact .of_rewritten originAddr proxyAddr hwf ⟨htext, hsmall⟩
          (fun h => hnot (.rewritten framed payload_eq htext h.1 h.2 hsmall)) rfl rest
      · have hlarge : maxRewritableBodySize < coded.payload.length := by
          rw [payload_eq]
          exact Nat.lt_of_not_le hsmall
        obtain ⟨h, s, hloop⟩ := responseLoop_oversized proxy framed.isChunked
          (framed.selectsRewrite.trans htext) hlarge rest true
        rw [Response.bytes, List.append_assoc]
        apply NoMoreMessages.of_beginning
        show (responseLoop t proxy
          (Stream.mk (block.bytes ++ (coded.bytes ++ rest)) true)).written <+: _
        rw [hloop]
        exact List.nil_prefix

/-- A response that is in step takes one pass. -/
theorem Response.InStep.pass (proxy : TCPProxy) {r : Response} (h : r.InStep t)
    (rest : List UInt8) (c : Bool) :
    ∃ w, responsePass t proxy () (Stream.mk (r.bytes ++ rest) c) = ⟨.ok (.next ()), ⟨rest, c⟩, w⟩ := by
  cases h with
  | @length block body framed fits =>
    let r : LengthResponse t := ⟨block, body, framed, fits⟩
    exact ⟨_, r.responsePass_run proxy rest c⟩
  | @rewritten block body framed coded payload_eq text trailer small =>
    have hr : Response.Rewritable t ⟨block, body, .chunked framed coded payload_eq⟩ := ⟨text, small⟩
    obtain ⟨sent, written, _, hpass⟩ := hr.run proxy rest c
    have hleft : Response.leftover ⟨block, body, .chunked framed coded payload_eq⟩ = [] :=
      coded.trailerRest_nil trailer
    rw [hleft] at hpass
    exact ⟨written, hpass⟩
  | @passed block body framed coded payload_eq text trailer sizes =>
    obtain ⟨consumed, _, hpass⟩ := responsePass_chunked_passed proxy framed.isChunked
      (framed.selectsRewrite.trans text) sizes rest c
    rw [coded.trailerRest_nil trailer, ← List.append_assoc] at hpass
    exact ⟨_, hpass⟩

/-- Any other one ends the run, or leaves it at a trailer that it streams to the end. -/
theorem Response.pass_of_not_inStep (proxy : TCPProxy) {r : Response} (hwf : r.WellFormed)
    (hnot : ¬ r.InStep t) {rest : List UInt8} {s' : Stream} {w : List UInt8}
    (hpass : responsePass t proxy () (Stream.mk (r.bytes ++ rest) true) =
      ⟨.ok (.next ()), s', w⟩) :
    ∃ left : HeaderBlock, left.CloseFramed t ∧ s' = ⟨left.bytes ++ rest, true⟩ := by
  rcases r with ⟨block, body, framed | ⟨framed, coded, payload_eq⟩⟩
  · have hfit : ¬ body.length < 2 ^ t.bits := fun hfit => hnot (.length framed hfit)
    rw [Response.bytes, List.append_assoc,
      responsePass_untilClose proxy (framed.closeFramed hfit)] at hpass
    cases hpass
  · have hleft (htrailer : coded.trailer ≠ []) (hs' : s' = ⟨coded.trailerRest ++ rest, true⟩) :
        ∃ left : HeaderBlock, left.CloseFramed t ∧ s' = ⟨left.bytes ++ rest, true⟩ := by
      obtain ⟨left, hbytes, hclose, _⟩ := coded.exists_closeFramed t htrailer hwf.fields
      exact ⟨left, hclose, hbytes ▸ hs'⟩
    cases htext : (block.head t).needsRewrite with
    | false =>
      rw [Response.bytes, List.append_assoc] at hpass
      have hsizes : ∀ chunk ∈ coded.chunks, chunk.size.value < 2 ^ t.bits := by
        rw [responsePass_block] at hpass
        exact ChunkedBody.sizes_fit_of_respond proxy framed htext hpass
      obtain ⟨consumed, _, hpassed⟩ := responsePass_chunked_passed proxy framed.isChunked
        (framed.selectsRewrite.trans htext) hsizes rest true
      have heq := hpass.symm.trans hpassed
      simp only [Run.mk.injEq] at heq
      exact hleft (fun h => hnot (.passed framed payload_eq htext h hsizes)) heq.2.1
    | true =>
      by_cases hsmall : body.length ≤ maxRewritableBodySize
      · have hr : Response.Rewritable t ⟨block, body, .chunked framed coded payload_eq⟩ :=
          ⟨htext, hsmall⟩
        obtain ⟨sent, written, _, hrun⟩ := hr.run proxy rest true
        have heq := hpass.symm.trans hrun
        simp only [Run.mk.injEq] at heq
        exact hleft (fun h => hnot (.rewritten framed payload_eq htext h hsmall)) heq.2.1
      · have hlarge : maxRewritableBodySize < coded.payload.length := by
          rw [payload_eq]
          exact Nat.lt_of_not_le hsmall
        obtain ⟨h, s, hrun⟩ := responsePass_oversized proxy framed.isChunked
          (framed.selectsRewrite.trans htext) hlarge rest true
        rw [Response.bytes, List.append_assoc] at hpass
        cases hpass.symm.trans hrun

/-- Passes that lead past a response take it in step. -/
theorem Response.reaches_past_iff (proxy : TCPProxy) {r : Response} (hwf : r.WellFormed)
    {rest part : List UInt8} (hle : part.length ≤ rest.length) :
    (∃ w, Reaches (responsePass t proxy) () (Stream.mk (r.bytes ++ rest) true) w () ⟨part, true⟩) ↔
      r.InStep t ∧ ∃ w, Reaches (responsePass t proxy) () (Stream.mk rest true) w () ⟨part, true⟩ := by
  have hpos : 0 < r.bytes.length := List.length_pos_of_ne_nil
    (List.append_ne_nil_of_left_ne_nil r.block.bytes_ne_nil _)
  constructor
  · rintro ⟨w, hreach⟩
    cases hreach with
    | refl =>
      rw [List.length_append] at hle
      omega
    | @step _ _ _ _ s' _ v w pass later =>
      by_cases hstep : r.InStep t
      · obtain ⟨w', hpass⟩ := hstep.pass proxy rest true
        cases pass.symm.trans hpass
        exact ⟨hstep, _, later⟩
      · obtain ⟨left, hclose, rfl⟩ := Response.pass_of_not_inStep proxy hwf hstep pass
        cases later with
        | refl =>
          have hleft := List.length_pos_of_ne_nil left.bytes_ne_nil
          rw [List.length_append] at hle
          omega
        | step pass _ => cases pass.symm.trans (responsePass_untilClose proxy hclose rest)
  · rintro ⟨hstep, w, hreach⟩
    obtain ⟨v, hpass⟩ := hstep.pass proxy rest true
    exact ⟨v ++ w, .step hpass hreach⟩

end Whole

/-- An XML answer in two chunks. -/
def twoChunksResponse : Response :=
  ⟨chunkedBlock, inTwoChunks.payload, .chunked chunkedBlock_framed inTwoChunks rfl⟩

end DlnaProxy.TcpProxy
