import DlnaProxy.Lib.Rewriting
import DlnaProxy.TcpProxy.Messages
import DlnaProxy.TcpProxy.OriginUrls

/-!
# Bodies that are rewritten again

What a client can still see of the origin in a rewritten body, whether the body can be
told from it, and what of its markup has changed. From it, that proxies in a row are one:
of what the first sends the others make what a single proxy from the first's origin to the
last address would send.
-/
namespace DlnaProxy.TcpProxy

open DlnaProxy.Lib.ByteIo DlnaProxy.Lib.Utf8 DlnaProxy.Net

section Bodies

variable (o p : SocketAddr) (body : List UInt8)

theorem lossy_rewriteBody : fromUtf8Lossy (rewriteBody (TCPProxy.new o p) body) =
    rewriteText o p (fromUtf8Lossy body) := by
  rw [rewriteBody, fromUtf8Lossy_asBytes]
  rfl

theorem apart_urlBase_iff : Apart (urlBase o) (urlBase p) ↔ Apart (hostPort o) (hostPort p) := by
  rw [Apart, Apart, urlBase_eq, urlBase_eq, List.prefix_append_right_inj,
    List.prefix_append_right_inj]

/-- **No URL base of the origin is left in any body**, whatever the bytes, just where
neither of the two `IP:PORT` starts with the other. -/
theorem rewriteBody_gone_iff :
    (∀ body, ¬ urlBase o <:+: fromUtf8Lossy (rewriteBody (TCPProxy.new o p) body)) ↔
      Apart (hostPort o) (hostPort p) := by
  have hgone := forall_not_infix_replace_iff (urlBase_anchored o).2 (urlBase_anchored p).2
  rw [← (urlBase_anchored o).1, ← (urlBase_anchored p).1, apart_urlBase_iff] at hgone
  rw [← hgone]
  constructor
  · intro hall s
    have hbody := hall (asBytes s)
    rwa [lossy_rewriteBody, fromUtf8Lossy_asBytes] at hbody
  · intro hall body
    rw [lossy_rewriteBody]
    exact hall _

/-- **The way back is the rewriting with the addresses exchanged**, just for the bodies
in which the proxy's URL base did not stand before. -/
theorem rewriteBody_back_iff (h : Apart (hostPort o) (hostPort p)) :
    rewriteBody (TCPProxy.new p o) (rewriteBody (TCPProxy.new o p) body) =
        asBytes (fromUtf8Lossy body) ↔
      ¬ urlBase p <:+: fromUtf8Lossy body := by
  rw [← apart_urlBase_iff, (urlBase_anchored o).1, (urlBase_anchored p).1] at h
  have hback := replace_back_iff (urlBase_anchored o).2 (urlBase_anchored p).2 h (fromUtf8Lossy body)
  rw [← (urlBase_anchored o).1, ← (urlBase_anchored p).1] at hback
  rw [rewriteBody, lossy_rewriteBody, asBytes_injective.eq_iff]
  exact hback

end Bodies

/-- A proxy on port 8080 of the origin's own host is not apart from an origin on port 80. -/
example : ¬ Apart (hostPort origin80.addr) (hostPort ⟨origin80.addr.ip, 8080⟩) := by decide

theorem origin80_apart : Apart (hostPort origin80.addr) (hostPort proxy8100.addr) := by decide

theorem rewriteBody_back_iff_hi :
    rewriteBody (TCPProxy.new proxy8100.addr origin80.addr)
          (rewriteBody (TCPProxy.new origin80.addr proxy8100.addr) xmlResponse.body) =
        asBytes (fromUtf8Lossy xmlResponse.body) ↔
      ¬ urlBase proxy8100.addr <:+: fromUtf8Lossy xmlResponse.body :=
  rewriteBody_back_iff origin80.addr proxy8100.addr xmlResponse.body origin80_apart

/-! ## Markup -/

/-- A character that a URL base can have. -/
def IsBaseChar (c : Char) : Prop := c ∈ "htp:/".toList ∨ AddrChar c

instance (c : Char) : Decidable (IsBaseChar c) := instDecidableOr

theorem urlBase_chars (addr : SocketAddr) : ∀ c ∈ urlBase addr, IsBaseChar c := by
  have hscheme : ∀ c ∈ "http://".toList, IsBaseChar c := by decide
  intro c hc
  rw [urlBase_eq, List.mem_append] at hc
  exact hc.elim (hscheme c) fun hc => Or.inr (hostPort_chars addr c hc)

/-- **The markup stays**: of a text that is divided at characters that no URL base has, the
dividing characters stay as they are, and each piece between them is rewritten apart. -/
theorem rewriteBody_splitOnP (o p : SocketAddr) {delimiter : Char → Bool}
    (h : ∀ c, delimiter c = true → ¬ IsBaseChar c) (body : List UInt8) :
    let text := fromUtf8Lossy body
    let rewritten := fromUtf8Lossy (rewriteBody (TCPProxy.new o p) body)
    rewritten.filter delimiter = text.filter delimiter ∧
      rewritten.splitOnP delimiter = (text.splitOnP delimiter).map (rewriteText o p) := by
  intro text rewritten
  have hbase (addr : SocketAddr) : ∀ c ∈ urlBase addr, delimiter c = false := by
    intro c hc
    rw [Bool.eq_false_iff]
    exact fun hd => h c hd (urlBase_chars addr c hc)
  have htext : rewritten = rewriteText o p text := lossy_rewriteBody o p body
  rw [htext]
  exact ⟨filter_replace (urlBase_ne_nil o) (hbase o) (hbase p) text,
    splitOnP_replace (urlBase_ne_nil o) (hbase o) (hbase p) text⟩

/-- The characters that XML divides a document by. -/
def isMarkup (c : Char) : Bool := c ∈ "<>\"'&= \t\r\n".toList

theorem isMarkup_not_baseChar : ∀ c, isMarkup c = true → ¬ IsBaseChar c := by
  have hall : ∀ c ∈ "<>\"'&= \t\r\n".toList, ¬ IsBaseChar c := by decide
  exact fun c hc => hall c (by simpa [isMarkup] using hc)

theorem rewriteBody_splitOnP_markup :
    let text := fromUtf8Lossy xmlResponse.body
    let rewritten := fromUtf8Lossy (rewriteBody (TCPProxy.new originAddr proxyAddr) xmlResponse.body)
    rewritten.filter isMarkup = text.filter isMarkup ∧
      rewritten.splitOnP isMarkup = (text.splitOnP isMarkup).map (rewriteText originAddr proxyAddr) :=
  rewriteBody_splitOnP originAddr proxyAddr isMarkup_not_baseChar xmlResponse.body

/-! ## Proxies in a row -/

section Chain

variable {o a b : SocketAddr}

/-- What the second proxy makes of a body that the first has rewritten. -/
theorem rewriteBody_rewriteBody {body : List UInt8} (h : ¬ urlBase a <:+: fromUtf8Lossy body) :
    rewriteBody (TCPProxy.new a b) (rewriteBody (TCPProxy.new o a) body) =
      rewriteBody (TCPProxy.new o b) body := by
  rw [rewriteBody, lossy_rewriteBody, rewriteBody]
  apply congrArg asBytes
  show replace (urlBase a) (urlBase b) (replace (urlBase o) (urlBase a) _) =
    replace (urlBase o) (urlBase b) _
  rw [(urlBase_anchored a).1] at h ⊢
  rw [(urlBase_anchored o).1]
  exact replace_replace (urlBase_anchored a).2 (urlBase b) h

/-- No text that is rewritten names the address of the first proxy. -/
def Message.Foreign (a : SocketAddr) (m : Message) : Prop :=
  m.isText = true → m.body.length ≤ maxRewritableBodySize → ¬ urlBase a <:+: fromUtf8Lossy m.body

theorem Message.proxied_proxied {m : Message} (hsmall : m.StaysSmall (TCPProxy.new o a))
    (hforeign : m.Foreign a) : (m.proxied (TCPProxy.new o a)).proxied (TCPProxy.new a b) =
      m.proxied (TCPProxy.new o b) := by
  by_cases h : m.isText = true ∧ m.body.length ≤ maxRewritableBodySize
  · have htext : (m.proxied (TCPProxy.new o a)).isText = true := (m.isText_proxied _).trans h.1
    have hfits := hsmall (fun _ => h.2) htext
    rw [proxied, if_pos ⟨htext, hfits⟩]
    simp only [proxied, if_pos h, List.map_map, Function.comp_def, fromUtf8Lossy_asBytes,
      rewriteBody_rewriteBody (hforeign h.1 h.2)]
  · have hkept (proxy : TCPProxy) : m.proxied proxy = m := by rw [proxied, if_neg h]
    rw [hkept, hkept, hkept]

/-- A message that fits behind a proxy fitted before it. -/
theorem Message.fits_of_proxied {proxy : TCPProxy} {m : Message} (h : (m.proxied proxy).Fits) :
    m.Fits := by
  by_cases hrewritten : m.isText = true ∧ m.body.length ≤ maxRewritableBodySize
  · exact fun _ => hrewritten.2
  · rw [proxied, if_neg hrewritten] at h
    exact h

/-- The message comes through a proxy at that address as one that the next one rewrites. -/
structure Message.Passes (o a : SocketAddr) (m : Message) : Prop where
  small : m.StaysSmall (TCPProxy.new o a)
  foreign : m.Foreign a

/-- Each of `n` proxies behind the first reads what the one before it has written. -/
def InRow (t : Target) (addr : Nat → SocketAddr) (reads : Nat → OwnedReadHalf) (n : Nat) : Prop :=
  ∀ i, i < n → (reads (i + 1)).bytes =
    (proxyResponseWithRewrite t (TCPProxy.new (addr i) (addr (i + 1))) (reads i)).written

/-- What a proxy in the row sends are the messages rewritten from the origin to its own
address, and a further one delivers them if they are small. -/
theorem InRow.sends {t : Target} {addr : Nat → SocketAddr} {reads : Nat → OwnedReadHalf} {n : Nat}
    {responses : List Response} (hrow : InRow t addr reads n) (h : ∀ r ∈ responses, r.Delivered t)
    (hpasses : ∀ i, i < n → ∀ r ∈ responses, r.message.Passes (addr 0) (addr (i + 1)))
    (hfirst : (reads 0).bytes = responses.flatMap (·.bytes)) {k : Nat} (hk : k ≤ n) :
    ∃ sent : List Response,
      (proxyResponseWithRewrite t (TCPProxy.new (addr k) (addr (k + 1))) (reads k)).written =
        sent.flatMap (·.bytes) ∧
      sent.map (·.message) =
        responses.map (fun r => r.message.proxied (TCPProxy.new (addr 0) (addr (k + 1)))) ∧
      ((∀ r ∈ responses, r.message.StaysSmall (TCPProxy.new (addr 0) (addr (k + 1)))) →
        ∀ s ∈ sent, s.Delivered t) := by
  induction k with
  | zero =>
    obtain ⟨sent, hsent, hdelivered, hwritten⟩ :=
      proxyResponseWithRewrite_delivered t (addr 0) (addr 1) h hfirst
    exact ⟨sent, hwritten, hsent, hdelivered⟩
  | succ k ih =>
    obtain ⟨sent, hwritten, hsent, hdelivered⟩ := ih (by omega)
    have hpass := hpasses k (by omega)
    have hread := (hrow k (by omega)).trans hwritten
    obtain ⟨again, hagain, hredelivered, hrewritten⟩ := proxyResponseWithRewrite_delivered t
      (addr (k + 1)) (addr (k + 2)) (hdelivered fun r hr => (hpass r hr).small) hread
    have htwice : ∀ r ∈ responses, (r.message.proxied (TCPProxy.new (addr 0) (addr (k + 1)))).proxied
        (TCPProxy.new (addr (k + 1)) (addr (k + 2))) =
          r.message.proxied (TCPProxy.new (addr 0) (addr (k + 2))) := fun r hr =>
      Message.proxied_proxied (hpass r hr).small (hpass r hr).foreign
    refine ⟨again, hrewritten, ?_, ?_⟩
    · calc again.map (·.message)
          = sent.map fun r => r.message.proxied (TCPProxy.new (addr (k + 1)) (addr (k + 2))) := hagain
        _ = (sent.map (·.message)).map
              (Message.proxied (TCPProxy.new (addr (k + 1)) (addr (k + 2)))) := by
            rw [List.map_map]
            rfl
        _ = responses.map fun r => (r.message.proxied (TCPProxy.new (addr 0) (addr (k + 1)))).proxied
              (TCPProxy.new (addr (k + 1)) (addr (k + 2))) := by
            rw [hsent, List.map_map]
            rfl
        _ = responses.map fun r => r.message.proxied (TCPProxy.new (addr 0) (addr (k + 2))) :=
            List.map_congr_left htwice
    · intro hsmall
      apply hredelivered
      intro s hs hfits
      -- what has been sent is the message of a response, rewritten
      have hmem : s.message ∈ sent.map (·.message) := List.mem_map_of_mem hs
      rw [hsent] at hmem
      obtain ⟨r, hr, hmessage⟩ := List.mem_map.mp hmem
      rw [← hmessage] at hfits ⊢
      rw [htwice r hr]
      exact hsmall r hr (Message.fits_of_proxied hfits)

/-- **Any number of proxies in a row are one.** Where no body names the address of one that
is not the last and none grows past the maximum size in it, the client of the last reads
the messages that a single proxy from the origin to the last address would send. -/
theorem proxyResponseWithRewrite_chain (t : Target) {addr : Nat → SocketAddr}
    {reads : Nat → OwnedReadHalf} {n : Nat} {responses : List Response}
    (h : ∀ r ∈ responses, r.Delivered t) (hrow : InRow t addr reads n)
    (hpasses : ∀ i, i < n → ∀ r ∈ responses, r.message.Passes (addr 0) (addr (i + 1)))
    (hfirst : (reads 0).bytes = responses.flatMap (·.bytes)) :
    let received := responses.map fun r => r.message.proxied (TCPProxy.new (addr 0) (addr (n + 1)))
    Decodes (proxyResponseWithRewrite t (TCPProxy.new (addr n) (addr (n + 1)))
        (reads n)).written received ∧
      Decodes (proxyResponseWithRewrite t (TCPProxy.new (addr 0) (addr (n + 1)))
        (reads 0)).written received := by
  intro received
  obtain ⟨sent, hwritten, hsent, _⟩ := hrow.sends h hpasses hfirst (Nat.le_refl n)
  obtain ⟨direct, hdirect, _, hsends⟩ :=
    proxyResponseWithRewrite_delivered t (addr 0) (addr (n + 1)) h hfirst
  exact ⟨⟨sent, hwritten.symm, hsent⟩, ⟨direct, hsends.symm, hdirect⟩⟩

end Chain

theorem twoAnswers_body : ∀ r ∈ twoAnswers, r.message.body = asBytes "hi".toList := by
  intro r hr
  simp only [twoAnswers, List.mem_cons, List.not_mem_nil, or_false] at hr
  rcases hr with rfl | rfl
  · rfl
  · decide

/-- A proxy of the proxy. -/
def rowAddr : Nat → SocketAddr
  | 0 => origin80.addr
  | 1 => proxy8100.addr
  | _ => ⟨.v4 (.new 192 168 1 53), 8200⟩

theorem twoAnswers_passes : ∀ i, i < 1 → ∀ r ∈ twoAnswers,
    r.message.Passes (rowAddr 0) (rowAddr (i + 1)) := by
  have hkept : (asBytes "hi".toList).length ≤ maxRewritableBodySize := by decide
  have hrewritten : (rewriteBody (TCPProxy.new origin80.addr proxy8100.addr)
      (asBytes "hi".toList)).length ≤ maxRewritableBodySize := by decide
  have hforeign : ¬ urlBase proxy8100.addr <:+: fromUtf8Lossy (asBytes "hi".toList) := by decide
  intro i hi r hr
  obtain rfl : i = 0 := by omega
  constructor
  · intro _ _
    unfold Message.proxied
    split
    · show (rewriteBody _ r.message.body).length ≤ _
      rw [twoAnswers_body r hr]
      exact hrewritten
    · rw [twoAnswers_body r hr]
      exact hkept
  · intro _ _
    rw [twoAnswers_body r hr]
    exact hforeign

/-- What the two proxies read. -/
def rowReads : Nat → OwnedReadHalf
  | 0 => .ofBytes (twoAnswers.flatMap (·.bytes))
  | _ => .ofBytes (proxyResponseWithRewrite release64 (TCPProxy.new origin80.addr proxy8100.addr)
      (.ofBytes (twoAnswers.flatMap (·.bytes)))).written

theorem rowReads_inRow : InRow release64 rowAddr rowReads 1 := by
  intro i hi
  obtain rfl : i = 0 := by omega
  exact OwnedReadHalf.bytes_ofBytes _

theorem proxyResponseWithRewrite_chain_twoAnswers :
    let received := twoAnswers.map fun r =>
      r.message.proxied (TCPProxy.new (rowAddr 0) (rowAddr (1 + 1)))
    Decodes (proxyResponseWithRewrite release64 (TCPProxy.new (rowAddr 1) (rowAddr (1 + 1)))
        (rowReads 1)).written received ∧
      Decodes (proxyResponseWithRewrite release64 (TCPProxy.new (rowAddr 0) (rowAddr (1 + 1)))
        (rowReads 0)).written received :=
  proxyResponseWithRewrite_chain release64 twoAnswers_delivered rowReads_inRow twoAnswers_passes
    (OwnedReadHalf.bytes_ofBytes _)

end DlnaProxy.TcpProxy
