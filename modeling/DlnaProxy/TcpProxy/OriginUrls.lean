import DlnaProxy.Main
import DlnaProxy.TcpProxy.OwnUrls

/-!
# Which URLs of the origin are rewritten

A URL names an address with an IPv6 host in brackets, may leave out port 80 and may
spell its scheme in capitals. The rewriting looks for none of these forms, nor does it
put an IPv6 host in brackets. `Reachable` says where that, and a port that is another
one's beginning, does not matter.
-/
namespace DlnaProxy.TcpProxy

open DlnaProxy.Lib.ByteIo DlnaProxy.Lib.Utf8 DlnaProxy.Net DlnaProxy.Configuration DlnaProxy.Main

/-! ## URLs of an address -/

/-- The authority with the port written out. -/
def explicitPort (addr : SocketAddr) : Str :=
  (Host.ip addr.ip).display ++ ':' :: decimal addr.port.toNat

/-- The authorities of an `http` URL that name an address. -/
def Authority (addr : SocketAddr) (auth : Str) : Prop :=
  auth = explicitPort addr ∨ addr.port = 80 ∧ auth = (Host.ip addr.ip).display

/-- `http` in any case. -/
def IsHttp (scheme : Str) : Prop := scheme.map Char.toLower = "http".toList

instance (scheme : Str) : Decidable (IsHttp scheme) := instDecidableEqList _ _

/-- What continues a host or a port, or makes it user information. -/
def AuthorityChar (c : Char) : Prop := AlphaNum c ∨ c ∈ "-._~%:@".toList

instance (c : Char) : Decidable (AuthorityChar c) := instDecidableOr

def EndsAuthority (after : Str) : Prop := ∀ c ∈ after.head?, ¬ AuthorityChar c

/-- The text from a URL of the address on. -/
structure UrlAt (addr : SocketAddr) (scheme auth after s : Str) : Prop where
  text : s = scheme ++ ("://".toList ++ (auth ++ after))
  http : IsHttp scheme
  authority : Authority addr auth
  ends : EndsAuthority after

def IsIpv4 : IpAddr → Prop
  | .v4 _ => True
  | .v6 _ => False

/-- Every URL of the origin is replaced by one that names the address of the advertised
URL, and the text before and after it is rewritten apart, so that no URL of the
origin is left. -/
structure Reached {Url : Type} (crate : UrlCrate Url) (advertised : Url) (o : SocketAddr)
    (proxy : TCPProxy) (body : Str) : Prop where
  replaced : ∀ before scheme auth after s, UrlAt o scheme auth after s → body = before ++ s →
    ∃ ip port auth', crate.host advertised = some (.ip ip) ∧
      crate.portOrKnownDefault advertised = some port ∧ Authority ⟨ip, port⟩ auth' ∧
      rewriteBody proxy (asBytes body) = rewriteBody proxy (asBytes before) ++
        (asBytes (scheme ++ ("://".toList ++ auth')) ++ rewriteBody proxy (asBytes after))
  none_left : ∀ out, rewriteBody proxy (asBytes body) = asBytes out →
    ¬ ∃ s, s <:+ out ∧ ∃ scheme auth after, UrlAt o scheme auth after s

/-- A URL spelled as the origin's URL base is: in small letters, with an IPv4 host and a
written port. -/
structure AsBase (o : SocketAddr) (scheme auth : Str) : Prop where
  scheme : scheme = "http".toList
  host : IsIpv4 o.ip
  port : auth = explicitPort o

/-- Every URL of the origin is spelled as its URL base is, and the proxy has an IPv4
address as well. No URL on another port of the same host becomes one of the
origin's, by a replacement whose port is the origin's with the digits after it. -/
structure Reachable (o p : SocketAddr) (body : Str) : Prop where
  spelled : ∀ s, s <:+ body → ∀ scheme auth after, UrlAt o scheme auth after s →
    AsBase o scheme auth ∧ IsIpv4 p.ip
  distinct : ∀ ip digits after, o.ip = .v4 ip → p.ip = .v4 ip →
    decimal o.port.toNat = decimal p.port.toNat ++ digits → EndsAuthority after →
    ¬ baseText ip (decimal o.port.toNat ++ digits) ++ after <:+ body

/-! ## Their characters -/

theorem authorityChar_of_addrChar {c : Char} (h : AddrChar c) : AuthorityChar c := by
  rcases h with h | rfl | rfl
  · obtain ⟨d, hd⟩ := Option.isSome_iff_exists.mp h
    exact Or.inl (toDigit_alphaNum hd)
  · decide
  · decide

theorem host_v6 (ip : Ipv6Addr) :
    (Host.ip (.v6 ip)).display = "[".toList ++ ip.serialize ++ "]".toList := rfl

theorem h_not_mem_host (ip : IpAddr) : 'h' ∉ (Host.ip ip).display := by
  cases ip with
  | v4 ip => exact fun hm => (ip.display_chars 'h' hm).elim (absurd · (by decide)) (absurd · (by decide))
  | v6 ip =>
    rw [host_v6, List.mem_append, List.mem_append]
    intro hm
    rcases hm with (hm | hm) | hm
    · exact absurd hm (by decide)
    · exact absurd (ip.serialize_chars 'h' hm) (by decide)
    · exact absurd hm (by decide)

theorem Authority.not_mem {addr : SocketAddr} {auth : Str} (h : Authority addr auth) :
    'h' ∉ auth := by
  rcases h with rfl | ⟨_, rfl⟩
  · rw [explicitPort, List.mem_append, List.mem_cons]
    intro hm
    rcases hm with hm | hm | hm
    · exact h_not_mem_host addr.ip hm
    · exact absurd hm (by decide)
    · exact absurd (decimal_digit _ 'h' hm) (by decide)
  · exact h_not_mem_host addr.ip

theorem toLower_eq_h {c : Char} (h : c.toLower = 'h') : c = 'h' ∨ c = 'H' := by
  unfold Char.toLower at h
  split at h
  · right
    apply Char.ext
    rw [eq_sub_of_add_eq (congrArg Char.val h)]
    rfl
  · exact Or.inl h

/-- No part of the scheme but its beginning starts a URL base. -/
theorem IsHttp.cases {scheme : Str} (h : IsHttp scheme) :
    ∃ c rest, scheme = c :: rest ∧ (c = 'h' ∨ c = 'H') ∧ 'h' ∉ rest := by
  rw [IsHttp] at h
  obtain ⟨c, rest, rfl, hc, hrest⟩ := List.map_eq_cons_iff.mp h
  refine ⟨c, rest, rfl, toLower_eq_h hc, fun hm => ?_⟩
  have hlower : 'h'.toLower ∈ rest.map Char.toLower := List.mem_map_of_mem hm
  rw [hrest] at hlower
  exact absurd hlower (by decide)

theorem IsHttp.eq_of_append {scheme s t : Str} (h : IsHttp scheme)
    (heq : scheme ++ s = "http".toList ++ t) : scheme = "http".toList ∧ s = t := by
  have hlen : scheme.length = "http".toList.length := by
    have hmap := congrArg List.length h
    rwa [List.length_map] at hmap
  exact List.append_inj heq hlen

theorem hostPort_of_isIpv4 {addr : SocketAddr} (h : IsIpv4 addr.ip) :
    hostPort addr = explicitPort addr := by
  rcases addr with ⟨ip | ip, port⟩
  · rw [hostPort_eq, List.append_assoc]
    rfl
  · exact h.elim

/-- No URL base has a host in brackets. -/
theorem Authority.isIpv4 {o p : SocketAddr} {auth s t : Str} (h : Authority o auth)
    (heq : auth ++ s = hostPort p ++ t) : IsIpv4 o.ip := by
  rcases o with ⟨ip | ip, port⟩
  · trivial
  · exfalso
    have hhead : auth.head? = some '[' := by
      rcases h with rfl | ⟨_, rfl⟩ <;> rfl
    obtain ⟨auth', rfl⟩ := List.head?_eq_some_iff.mp hhead
    have hmem : '[' ∈ hostPort p := by
      have hne : hostPort p ≠ [] := by
        rw [hostPort_eq]
        exact List.append_ne_nil_of_right_ne_nil _ (decimal_ne_nil _)
      obtain ⟨c, w, hw⟩ := List.exists_cons_of_ne_nil hne
      rw [hw, List.cons_append, List.cons_append, List.cons.injEq] at heq
      rw [hw, heq.1]
      exact List.mem_cons_self
    exact absurd (hostPort_chars p '[' hmem) (by decide)

/-- An IPv6 host without brackets has a colon of its own. -/
theorem explicitPort_ne_hostPort_v6 (ip : Ipv4Addr) (ip' : Ipv6Addr) (port port' : UInt16)
    (d : Str) : explicitPort ⟨.v4 ip, port⟩ ≠ hostPort ⟨.v6 ip', port'⟩ ++ d := by
  intro heq
  have hcount := congrArg (List.count ':') heq
  have hip : 0 < ip'.display.count ':' := List.count_pos_iff.mpr ip'.colon_mem_display
  have hport : (decimal port.toNat).count ':' = 0 :=
    List.count_eq_zero.mpr fun hm => absurd (decimal_digit _ ':' hm) (by decide)
  have hleft : (explicitPort ⟨.v4 ip, port⟩).count ':' = 1 := by
    show (ip.display ++ ':' :: decimal port.toNat).count ':' = 1
    rw [List.count_append, List.count_eq_zero.mpr (colon_not_mem_display ip),
      List.count_cons_self, hport]
  have hright : (hostPort ⟨.v6 ip', port'⟩).count ':' =
      ip'.display.count ':' + 1 + (decimal port'.toNat).count ':' := by
    rw [hostPort_eq, List.count_append, List.count_append]
    rfl
  rw [hleft, List.count_append, hright] at hcount
  omega

/-- The authority of a URL base with more digits, if it is another IPv4 address. -/
theorem Authority.eq_hostPort_append {o p : SocketAddr} {auth d : Str} (h : Authority o auth)
    (heq : auth = hostPort p ++ d) : ∃ ip, o.ip = .v4 ip ∧ p.ip = .v4 ip ∧
      decimal o.port.toNat = decimal p.port.toNat ++ d := by
  have hv4 := h.isIpv4 ((List.append_nil auth).trans heq)
  rcases o with ⟨ip | ip, port⟩
  swap
  · exact hv4.elim
  have hcolon : ':' ∈ hostPort p := by
    rw [hostPort_eq]
    exact List.mem_append_left _ (List.mem_append_right _ List.mem_cons_self)
  rcases h with rfl | ⟨_, rfl⟩
  · rcases p with ⟨ip' | ip', port'⟩
    · have hbase : baseText ip (decimal port.toNat) ++ [] =
          baseText ip' (decimal port'.toNat) ++ d := by
        rw [baseText_append, baseText_append, List.append_nil]
        apply congrArg ("http://".toList ++ ·)
        show explicitPort ⟨.v4 ip, port⟩ = _
        rw [heq, hostPort_eq, List.append_assoc, List.append_assoc]
        rfl
      obtain ⟨rfl, hport⟩ := baseText_inj hbase
      exact ⟨ip, rfl, rfl, (List.append_nil _).symm.trans hport⟩
    · exact absurd heq (explicitPort_ne_hostPort_v6 ip ip' port port' d)
  · have hm : ':' ∈ ip.display := by
      show ':' ∈ (Host.ip (.v4 ip)).display
      rw [heq]
      exact List.mem_append_left d hcolon
    exact absurd hm (colon_not_mem_display ip)

theorem EndsAuthority.append_authorityChar {w after : Str} (hw : ∀ c ∈ w, AddrChar c)
    (h : EndsAuthority (w ++ after)) : w = [] := by
  cases w with
  | nil => rfl
  | cons c w => exact absurd (authorityChar_of_addrChar (hw c List.mem_cons_self)) (h c rfl)

section

variable {o p : SocketAddr}

/-! ## Which of them are replaced -/

theorem urlBase_append (s : Str) :
    urlBase o ++ s = "http".toList ++ ("://".toList ++ (hostPort o ++ s)) := by
  rw [urlBase_eq, List.append_assoc]
  rfl

/-- What starts a URL is none of the later characters of a URL base. -/
theorem UrlAt.head {scheme auth after s : Str} (h : UrlAt o scheme auth after s) :
    ∀ c ∈ s.head?, c ∉ "ttp://".toList ++ hostPort p := by
  obtain ⟨c, rest, rfl, hc, _⟩ := h.http.cases
  rw [h.text]
  intro c' hhead hm
  obtain rfl := Option.some.inj hhead
  rcases hc with rfl | rfl
  · exact (urlBase_anchored p).2 hm
  · rcases List.mem_append.mp hm with hm | hm
    · exact absurd hm (by decide)
    · exact absurd (hostPort_chars p 'H' hm) (by decide)

/-- A URL of the origin starts with the origin's URL base just when it is spelled so. -/
theorem UrlAt.prefix_iff {scheme auth after s : Str} (h : UrlAt o scheme auth after s) :
    urlBase o <+: s ↔ AsBase o scheme auth := by
  obtain ⟨rfl, hhttp, hauth, hends⟩ := h
  constructor
  · intro hprefix
    obtain ⟨s, hs⟩ := hprefix
    rw [urlBase_append] at hs
    obtain ⟨hscheme, hrest⟩ := hhttp.eq_of_append hs.symm
    have hs := List.append_cancel_left hrest
    have hv4 := hauth.isIpv4 hs
    refine ⟨hscheme, hv4, ?_⟩
    rcases hauth with hexplicit | ⟨_, rfl⟩
    · exact hexplicit
    · -- the port would follow the host
      exfalso
      rw [hostPort_of_isIpv4 hv4, explicitPort, List.append_assoc, List.append_cancel_left_eq] at hs
      exact hends ':' (by rw [hs]; rfl) (by decide)
  · rintro ⟨rfl, hv4, rfl⟩
    refine ⟨after, ?_⟩
    rw [urlBase_append, hostPort_of_isIpv4 hv4]

/-- What the rewriting makes of a text. -/
def rewriteText (o p : SocketAddr) (s : Str) : Str := replace (urlBase o) (urlBase p) s

theorem rewriteText_match (s : Str) :
    rewriteText o p (urlBase o ++ s) = urlBase p ++ rewriteText o p s :=
  replace_match (urlBase_ne_nil o) _ _

theorem rewriteText_anchored (s : Str) : rewriteText o p s =
    replace ('h' :: ("ttp://".toList ++ hostPort o)) ('h' :: ("ttp://".toList ++ hostPort p)) s := by
  rw [rewriteText, (urlBase_anchored o).1, (urlBase_anchored p).1]

theorem endsAuthority_rewriteText (s : Str) :
    EndsAuthority (rewriteText o p s) ↔ EndsAuthority s := by
  unfold EndsAuthority
  rw [rewriteText_anchored, head?_replace]

theorem rewriteText_append_of_not_mem {w : Str} (hw : 'h' ∉ w) (s : Str) :
    rewriteText o p (w ++ s) = w ++ rewriteText o p s := by
  rw [rewriteText, (urlBase_anchored o).1]
  exact replace_append_of_not_mem _ hw s

theorem exists_of_rewriteText_eq_append {w s out : Str} (hw : 'h' ∉ w)
    (h : rewriteText o p s = w ++ out) : ∃ s', s = w ++ s' ∧ rewriteText o p s' = out := by
  rw [rewriteText_anchored] at h
  obtain ⟨s', hs, hout⟩ := exists_of_replace_eq_append _ _ hw h
  exact ⟨s', hs, rewriteText_anchored s' ▸ hout⟩

/-- What is before a URL is rewritten apart. -/
theorem rewriteText_append (before s : Str) : rewriteText o p (before ++ 'h' :: s) =
    rewriteText o p before ++ rewriteText o p ('h' :: s) := by
  rw [rewriteText_anchored, rewriteText_anchored, rewriteText_anchored]
  exact replace_append_anchor (urlBase_anchored o).2 _ _ _

/-- Elsewhere than at the origin's URL base a URL of the origin is kept, and is none that
was not there. -/
theorem urlAt_rewriteText_iff {s : Str} (hm : ¬ urlBase o <+: s) :
    (∃ scheme auth after, UrlAt o scheme auth after (rewriteText o p s)) ↔
      ∃ scheme auth after, UrlAt o scheme auth after s := by
  have hskip {c : Char} (s : Str) (hm : ¬ urlBase o <+: c :: s) :
      rewriteText o p (c :: s) = c :: rewriteText o p s := replace_skip (urlBase_ne_nil o) _ hm
  have hkept {rest auth : Str} (hrest : 'h' ∉ rest) (hauth : Authority o auth) :
      'h' ∉ rest ++ ("://".toList ++ auth) := by
    rw [List.mem_append, List.mem_append, not_or, not_or]
    exact ⟨hrest, by decide, hauth.not_mem⟩
  constructor
  · intro hurl
    obtain ⟨_, auth, after, htext, hhttp, hauth, hends⟩ := hurl
    obtain ⟨c, rest, rfl, _, hrest⟩ := hhttp.cases
    have hhead : s.head? = some c := by
      rw [← head?_replace ("ttp://".toList ++ hostPort o) ("ttp://".toList ++ hostPort p) s,
        ← rewriteText_anchored, htext]
      rfl
    obtain ⟨t, rfl⟩ := List.head?_eq_some_iff.mp hhead
    have htail : rewriteText o p t = rest ++ ("://".toList ++ auth) ++ after := by
      rw [hskip t hm] at htext
      rw [List.append_assoc, List.append_assoc]
      exact List.tail_eq_of_cons_eq htext
    obtain ⟨t', rfl, rfl⟩ := exists_of_rewriteText_eq_append (hkept hrest hauth) htail
    rw [endsAuthority_rewriteText] at hends
    refine ⟨c :: rest, auth, t', ?_, hhttp, hauth, hends⟩
    rw [List.append_assoc, List.append_assoc]
    rfl
  · intro hurl
    obtain ⟨_, auth, after, rfl, hhttp, hauth, hends⟩ := hurl
    obtain ⟨c, rest, rfl, _, hrest⟩ := hhttp.cases
    refine ⟨c :: rest, auth, rewriteText o p after, ?_, hhttp, hauth,
      (endsAuthority_rewriteText after).mpr hends⟩
    have heq (s : Str) : c :: rest ++ ("://".toList ++ (auth ++ s)) =
        c :: (rest ++ ("://".toList ++ auth) ++ s) := by
      rw [List.append_assoc, List.append_assoc]
      rfl
    rw [heq] at hm ⊢
    rw [heq, hskip _ hm, rewriteText_append_of_not_mem (hkept hrest hauth)]

theorem not_mem_of_decimal_eq {n m : Nat} {digits : Str} (h : decimal n = decimal m ++ digits) :
    'h' ∉ digits := fun hm =>
  absurd (decimal_digit n 'h' (h ▸ List.mem_append_right _ hm)) (by decide)

/-- The proxy's URL base with what follows it is a URL of the origin just when digits follow
that make the proxy's port the origin's. -/
theorem urlAt_replaced_iff {s : Str} :
    (∃ scheme auth after, UrlAt o scheme auth after (urlBase p ++ rewriteText o p s)) ↔
      ∃ ip digits after, o.ip = .v4 ip ∧ p.ip = .v4 ip ∧
        decimal o.port.toNat = decimal p.port.toNat ++ digits ∧ EndsAuthority after ∧
        s = digits ++ after := by
  constructor
  · intro hurl
    obtain ⟨scheme, auth, after, htext, hhttp, hauth, hends⟩ := hurl
    rw [urlBase_append] at htext
    have htext := (List.append_cancel_left (hhttp.eq_of_append htext.symm).2).symm
    have hsplit : ∃ digits, auth = hostPort p ++ digits ∧ rewriteText o p s = digits ++ after := by
      rcases List.append_eq_append_iff.mp htext with ⟨digits, hd, hs⟩ | ⟨w, hw, hafter⟩
      · exact ⟨digits, hd, hs⟩
      · have hchars : ∀ c ∈ w, AddrChar c := fun c hc =>
          hostPort_chars p c (hw ▸ List.mem_append_right auth hc)
        rw [hafter] at hends
        obtain rfl := hends.append_authorityChar hchars
        exact ⟨[], (hw.trans (List.append_nil _)).symm.trans (List.append_nil _).symm, hafter.symm⟩
    obtain ⟨digits, hd, hs⟩ := hsplit
    obtain ⟨ip, hoip, hpip, hport⟩ := hauth.eq_hostPort_append hd
    obtain ⟨s', rfl, rfl⟩ := exists_of_rewriteText_eq_append (not_mem_of_decimal_eq hport) hs
    rw [endsAuthority_rewriteText] at hends
    exact ⟨ip, digits, s', hoip, hpip, hport, hends, rfl⟩
  · intro hdigits
    obtain ⟨ip, digits, after, hoip, hpip, hport, hends, rfl⟩ := hdigits
    refine ⟨"http".toList, explicitPort o, rewriteText o p after, ?_, by decide, Or.inl rfl,
      (endsAuthority_rewriteText after).mpr hends⟩
    have hpv4 : IsIpv4 p.ip := by
      rw [hpip]
      trivial
    rw [rewriteText_append_of_not_mem (not_mem_of_decimal_eq hport), urlBase_append,
      hostPort_of_isIpv4 hpv4, explicitPort, explicitPort, hoip, hpip, hport]
    simp only [List.append_assoc, List.cons_append]

theorem UrlAt.eq_urlBase_append {scheme auth after s : Str} (h : UrlAt o scheme auth after s)
    (hbase : AsBase o scheme auth) : s = urlBase o ++ after := by
  rw [h.text, hbase.scheme, hbase.port, urlBase_append, hostPort_of_isIpv4 hbase.host]

/-- When no URL of the origin is left. -/
theorem none_left_iff {body : Str} :
    (¬ ∃ s, s <:+ rewriteText o p body ∧ ∃ scheme auth after, UrlAt o scheme auth after s) ↔
      (∀ s, s <:+ body → ∀ scheme auth after, UrlAt o scheme auth after s →
        AsBase o scheme auth) ∧
      ∀ ip digits after, o.ip = .v4 ip → p.ip = .v4 ip →
        decimal o.port.toNat = decimal p.port.toNat ++ digits → EndsAuthority after →
        ¬ baseText ip (decimal o.port.toNat ++ digits) ++ after <:+ body := by
  have hbase (ip : Ipv4Addr) (hip : o.ip = .v4 ip) (digits after : Str) :
      baseText ip (decimal o.port.toNat ++ digits) ++ after = urlBase o ++ (digits ++ after) := by
    have hv4 : urlBase o = baseText ip (decimal o.port.toNat) := by
      rw [baseText_eq_urlBase ⟨ip, o.port⟩]
      exact congrArg (fun addr => urlBase ⟨addr, o.port⟩) hip
    rw [hv4, baseText_append, baseText_append, List.append_assoc]
  have hsuffix :
      (∃ s, s <:+ rewriteText o p body ∧ ∃ scheme auth after, UrlAt o scheme auth after s) ↔
        ∃ t, t <:+ body ∧ ∃ scheme auth after, UrlAt o scheme auth after (rewriteText o p t) := by
    simp only [rewriteText_anchored]
    refine exists_suffix_replace _ _ ?_ body
    intro t ⟨scheme, auth, after, hurl⟩ c hc
    exact ⟨hurl.head c hc, hurl.head c hc⟩
  rw [hsuffix]
  constructor
  · intro hnone
    refine ⟨fun s hs scheme auth after hurl => ?_, fun ip digits after hoip hpip hport hends hs => ?_⟩
    · rw [← hurl.prefix_iff]
      by_contra hm
      exact hnone ⟨s, hs, (urlAt_rewriteText_iff hm).mpr ⟨scheme, auth, after, hurl⟩⟩
    · refine hnone ⟨_, hs, ?_⟩
      rw [hbase ip hoip, rewriteText_match, urlAt_replaced_iff]
      exact ⟨ip, digits, after, hoip, hpip, hport, hends, rfl⟩
  · rintro ⟨hspelled, hdistinct⟩ ⟨t, ht, hurl⟩
    by_cases hm : urlBase o <+: t
    · obtain ⟨r, rfl⟩ := hm
      rw [rewriteText_match, urlAt_replaced_iff] at hurl
      obtain ⟨ip, digits, after, hoip, hpip, hport, hends, rfl⟩ := hurl
      exact hdistinct ip digits after hoip hpip hport hends (hbase ip hoip _ _ ▸ ht)
    · obtain ⟨scheme, auth, after, hurl⟩ := (urlAt_rewriteText_iff hm).mp hurl
      exact hm (hurl.prefix_iff.mpr (hspelled t ht scheme auth after hurl))

/-- A URL of the origin that starts with the origin's URL base gets the proxy's one. -/
theorem rewriteText_url {scheme auth after s : Str} (h : UrlAt o scheme auth after s)
    (hbase : AsBase o scheme auth) (before : Str) : rewriteText o p (before ++ s) =
      rewriteText o p before ++ (urlBase p ++ rewriteText o p after) := by
  have hs := h.eq_urlBase_append hbase
  have hhead : s.head? = some 'h' := by
    rw [h.text, hbase.scheme]
    rfl
  obtain ⟨t, rfl⟩ := List.head?_eq_some_iff.mp hhead
  rw [rewriteText_append, hs, rewriteText_match]

end

section

variable {Url : Type} {crate : UrlCrate Url}

/-- **Every URL of the origin is rewritten to the advertised address just where the addresses
are IPv4, the schemes in small letters, the ports written out and no other port is cut to
the origin's.** -/
theorem rewriteBody_reached_iff (hcrate : crate.Lawful) {url advertised : Url} {p : SocketAddr}
    (hadvertise : advertise crate url p = some advertised) (o : SocketAddr) (body : Str) :
    Reached crate advertised o (TCPProxy.new o p) body ↔ Reachable o p body := by
  have hrewrite (s : Str) : rewriteBody (TCPProxy.new o p) (asBytes s) =
      asBytes (rewriteText o p s) := rewriteBody_asBytes o p s
  obtain ⟨hhost, hport⟩ := advertise_names hcrate hadvertise
  have hnone : (∀ out, rewriteBody (TCPProxy.new o p) (asBytes body) = asBytes out →
      ¬ ∃ s, s <:+ out ∧ ∃ scheme auth after, UrlAt o scheme auth after s) ↔
      ¬ ∃ s, s <:+ rewriteText o p body ∧ ∃ scheme auth after, UrlAt o scheme auth after s := by
    rw [hrewrite]
    refine ⟨fun h => h _ rfl, fun h out hout => ?_⟩
    rwa [← asBytes_injective hout]
  constructor
  · intro hreached
    obtain ⟨hreplaced, hleft⟩ := hreached
    obtain ⟨hspelled, hdistinct⟩ := none_left_iff.mp (hnone.mp hleft)
    refine ⟨fun s hs scheme auth after hurl => ?_, hdistinct⟩
    have hbase := hspelled s hs scheme auth after hurl
    refine ⟨hbase, ?_⟩
    -- the proxy's URL base stands where the advertised authority is to stand
    obtain ⟨before, rfl⟩ := hs
    obtain ⟨ip, port, auth', hip, hport', hauth', heq⟩ :=
      hreplaced before scheme auth after s hurl rfl
    rw [hhost, Option.some.injEq, Host.ip.injEq] at hip
    rw [hport, Option.some.injEq] at hport'
    subst hip hport'
    rw [hrewrite, hrewrite, hrewrite, ← asBytes_append, ← asBytes_append,
      asBytes_injective.eq_iff, rewriteText_url hurl hbase, List.append_cancel_left_eq,
      hbase.scheme, urlBase_append, List.append_assoc, List.append_assoc,
      List.append_cancel_left_eq, List.append_cancel_left_eq] at heq
    exact hauth'.isIpv4 heq.symm
  · intro hreachable
    obtain ⟨hspelled, hdistinct⟩ := hreachable
    refine ⟨?_, hnone.mpr (none_left_iff.mpr ⟨fun s hs scheme auth after hurl => ?_, hdistinct⟩)⟩
    · rintro before scheme auth after s hurl rfl
      obtain ⟨hbase, hpv4⟩ := hspelled s (List.suffix_append before s) scheme auth after hurl
      refine ⟨p.ip, p.port, explicitPort p, hhost, hport, Or.inl rfl, ?_⟩
      rw [hrewrite, hrewrite, hrewrite, ← asBytes_append, ← asBytes_append,
        rewriteText_url hurl hbase, hbase.scheme, urlBase_append, hostPort_of_isIpv4 hpv4,
        List.append_assoc, List.append_assoc]
    · exact (hspelled s hs scheme auth after hurl).1

end

/-- An `http` URL. -/
structure HttpUrl where
  host : Host
  port : Option UInt16
  path : Str

/-- It has no port 80, which is its default. -/
def httpUrls : UrlCrate HttpUrl where
  asStr url := "http://".toList ++ url.host.display ++
    (url.port.elim [] fun port => ':' :: decimal port.toNat) ++ url.path
  host url := some url.host
  portOrKnownDefault url := some (url.port.getD 80)
  setIpHost url ip := some { url with host := .ip ip }
  setPort url port := some { url with port := if port = some 80 then none else port }

theorem httpUrls_lawful : httpUrls.Lawful where
  setIpHost_isSome _ _ _ := rfl
  setIpHost_host _ _ _ h := Option.some.inj h ▸ rfl
  setIpHost_port _ _ _ h := Option.some.inj h ▸ rfl
  setPort_isSome _ _ _ _ := rfl
  setPort_host _ _ _ h := Option.some.inj h ▸ rfl
  setPort_port _ port _ h := by
    rw [← Option.some.inj h]
    show some ((if some port = some 80 then none else some port).getD 80) = some port
    by_cases h80 : port = 80
    · rw [h80]
      rfl
    · rw [if_neg (by simpa using h80)]
      rfl

def descriptionUrl : HttpUrl := ⟨.ip origin80.addr.ip, none, "/desc.xml".toList⟩

def advertisedUrl : HttpUrl := ⟨.ip proxy8100.addr.ip, some 8100, "/desc.xml".toList⟩

theorem advertise_description :
    advertise httpUrls descriptionUrl proxy8100.addr = some advertisedUrl := rfl

theorem rewriteBody_reached_iff_icon :
    Reached httpUrls advertisedUrl origin80.addr (TCPProxy.new origin80.addr proxy8100.addr)
      "http://192.168.1.41:80/icon.png".toList ↔
    Reachable origin80.addr proxy8100.addr "http://192.168.1.41:80/icon.png".toList :=
  rewriteBody_reached_iff httpUrls_lawful advertise_description origin80.addr _

/-- `2001:db8::1` with port 8200. -/
def origin6 : SocketAddr := ⟨.v6 ⟨[0x2001, 0xDB8, 0, 0, 0, 0, 0, 1], rfl⟩, 8200⟩

theorem endsAuthority_icon : EndsAuthority "/icon.png".toList := by
  intro c hc
  obtain rfl := Option.some.inj hc
  decide

/-- A URL with a host in brackets stays, and so do one without its port and one in
capitals. -/
theorem not_reached :
    ¬ Reached httpUrls advertisedUrl origin6 (TCPProxy.new origin6 proxy8100.addr)
      "http://[2001:db8::1]:8200/icon.png".toList ∧
    ¬ Reached httpUrls advertisedUrl origin80.addr
      (TCPProxy.new origin80.addr proxy8100.addr) "http://192.168.1.41/icon.png".toList ∧
    ¬ Reached httpUrls advertisedUrl origin80.addr
      (TCPProxy.new origin80.addr proxy8100.addr) "HTTP://192.168.1.41:80/icon.png".toList := by
  refine ⟨fun h => ?_, fun h => ?_, fun h => ?_⟩
  · refine h.none_left "http://[2001:db8::1]:8200/icon.png".toList (by decide +kernel) ?_
    exact ⟨_, List.suffix_rfl, "http".toList, "[2001:db8::1]:8200".toList, "/icon.png".toList,
      by decide, by decide, Or.inl (by decide), endsAuthority_icon⟩
  · refine h.none_left "http://192.168.1.41/icon.png".toList (by decide +kernel) ?_
    exact ⟨_, List.suffix_rfl, "http".toList, "192.168.1.41".toList, "/icon.png".toList,
      by decide, by decide, Or.inr (by decide), endsAuthority_icon⟩
  · refine h.none_left "HTTP://192.168.1.41:80/icon.png".toList (by decide +kernel) ?_
    exact ⟨_, List.suffix_rfl, "HTTP".toList, "192.168.1.41:80".toList, "/icon.png".toList,
      by decide, by decide, Or.inl (by decide), endsAuthority_icon⟩

end DlnaProxy.TcpProxy
