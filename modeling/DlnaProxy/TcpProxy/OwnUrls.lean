import DlnaProxy.Lib.Anchored
import DlnaProxy.TcpProxy.Code

/-!
# What is rewritten besides the origin's URLs

`Delivered` is what rewriting is meant to do with the URL bases of IPv4 addresses in
a text: those of the origin, with their whole port, become the proxy's, and all
other text stays. The rewriting does so exactly on the texts in which no digit follows
the origin's URL base.
-/
namespace DlnaProxy.TcpProxy

open DlnaProxy.Lib.ByteIo DlnaProxy.Lib.Utf8 DlnaProxy.Net

/-! ## URL bases in a text -/

/-- An IPv4 socket address. -/
structure SocketAddrV4 where
  ip : Ipv4Addr
  port : UInt16

def SocketAddrV4.addr (a : SocketAddrV4) : SocketAddr := ⟨.v4 a.ip, a.port⟩

/-- `http://IP:PORT` with the port as it is spelled. -/
def baseText (ip : Ipv4Addr) (run : Str) : Str :=
  "http://".toList ++ (ip.display ++ ':' :: run)

/-- `run` is the whole run of digits before `rest`. -/
structure IsRun (run rest : Str) : Prop where
  nonempty : run ≠ []
  digits : ∀ c ∈ run, IsDigit c
  whole : ∀ c ∈ rest.head?, ¬ IsDigit c

/-- A text and what is delivered of it: a URL base with the origin's IP and its whole
port is replaced, and everything else is kept. -/
inductive Delivered (o p : SocketAddrV4) : Str → Str → Prop
  | done : Delivered o p [] []
  | own {rest out : Str} : IsRun (decimal o.port.toNat) rest → Delivered o p rest out →
    Delivered o p (baseText o.ip (decimal o.port.toNat) ++ rest) (urlBase p.addr ++ out)
  | foreign {ip : Ipv4Addr} {run rest out : Str} : IsRun run rest →
    ¬ (ip = o.ip ∧ run = decimal o.port.toNat) → Delivered o p rest out →
    Delivered o p (baseText ip run ++ rest) (baseText ip run ++ out)
  | other {c : Char} {s out : Str} :
    (∀ ip run rest, IsRun run rest → c :: s ≠ baseText ip run ++ rest) → Delivered o p s out →
    Delivered o p (c :: s) (c :: out)

/-- A digit follows the URL base at the start of the text. -/
def LongerPort (o : SocketAddrV4) (s : Str) : Prop :=
  ∃ c rest, s = urlBase o.addr ++ c :: rest ∧ IsDigit c

theorem baseText_append (ip : Ipv4Addr) (run rest : Str) :
    baseText ip run ++ rest = "http://".toList ++ (ip.display ++ ':' :: (run ++ rest)) := by
  show "http://".toList ++ (ip.display ++ ':' :: run) ++ rest = _
  rw [List.append_assoc, List.append_assoc, List.cons_append]

theorem baseText_append_ne_nil (ip : Ipv4Addr) (run rest : Str) : baseText ip run ++ rest ≠ [] := by
  have hhttp : "http://".toList ≠ [] := by decide
  rw [baseText_append]
  exact List.append_ne_nil_of_left_ne_nil hhttp _

theorem baseText_eq_urlBase (a : SocketAddrV4) :
    baseText a.ip (decimal a.port.toNat) = urlBase a.addr := by
  rw [urlBase_eq, hostPort_eq, List.append_assoc]
  rfl

theorem colon_not_mem_display (ip : Ipv4Addr) : ':' ∉ ip.display :=
  fun hm => (ip.display_chars ':' hm).elim (absurd · (by decide)) (absurd · (by decide))

/-- The IP of a URL base can be read off. -/
theorem baseText_inj {ip ip' : Ipv4Addr} {run run' rest rest' : Str}
    (h : baseText ip run ++ rest = baseText ip' run' ++ rest') :
    ip = ip' ∧ run ++ rest = run' ++ rest' := by
  rw [baseText_append, baseText_append] at h
  have htail := List.append_cancel_left h
  have hpre : ip.display ++ [':'] <+: ip'.display ++ ':' :: (run' ++ rest') := by
    rw [← htail]
    exact ⟨run ++ rest, by simp⟩
  have hip := (prefix_separator_iff (colon_not_mem_display ip) (colon_not_mem_display ip') _).mp hpre
  rw [hip, List.append_cancel_left_eq, List.cons.injEq] at htail
  exact ⟨Ipv4Addr.display_injective hip, htail.2⟩

/-- And its whole run of digits. -/
theorem IsRun.takeWhile {run rest : Str} (h : IsRun run rest) :
    (run ++ rest).takeWhile (fun c => decide (IsDigit c)) = run := by
  have hrest : rest.takeWhile (fun c => decide (IsDigit c)) = [] := by
    cases rest with
    | nil => rfl
    | cons c rest => exact List.takeWhile_cons_of_neg (by simpa using h.whole c rfl)
  rw [List.takeWhile_append_of_pos fun c hc => decide_eq_true (h.digits c hc), hrest,
    List.append_nil]

/-- Digits in front of a text are followed by a whole run. -/
theorem exists_isRun {digits : Str} (hne : digits ≠ []) (hdigits : ∀ c ∈ digits, IsDigit c)
    (s : Str) : ∃ more rest, s = more ++ rest ∧ IsRun (digits ++ more) rest := by
  refine ⟨s.takeWhile fun c => decide (IsDigit c), s.dropWhile fun c => decide (IsDigit c),
    List.takeWhile_append_dropWhile.symm, ?_, ?_, ?_⟩
  · exact List.append_ne_nil_of_left_ne_nil hne _
  · intro c hc
    rcases List.mem_append.mp hc with hc | hc
    · exact hdigits c hc
    · simpa using List.mem_takeWhile_imp hc
  · intro c hc
    have hnot := List.head?_dropWhile_not (fun c => decide (IsDigit c)) s
    rw [Option.mem_def] at hc
    rw [hc] at hnot
    simpa using hnot

theorem decimal_ne_nil (n : Nat) : decimal n ≠ [] := Nat.toDigits_ne_nil

section

variable {o p : SocketAddrV4}

/-- The origin's URL base at the start of a URL base in the text. -/
theorem prefix_baseText_iff {ip : Ipv4Addr} {run rest : Str} (hrun : IsRun run rest) :
    urlBase o.addr <+: baseText ip run ++ rest ↔
      ip = o.ip ∧ ∃ more, run = decimal o.port.toNat ++ more := by
  rw [← baseText_eq_urlBase]
  constructor
  · intro hprefix
    obtain ⟨s, hs⟩ := hprefix
    obtain ⟨hip, htail⟩ := baseText_inj hs
    obtain ⟨more, rest', rfl, hrun'⟩ :=
      exists_isRun (decimal_ne_nil o.port.toNat) (decimal_digit o.port.toNat) s
    refine ⟨hip.symm, more, ?_⟩
    rw [← hrun.takeWhile, ← htail, ← List.append_assoc, hrun'.takeWhile]
  · intro hlonger
    obtain ⟨rfl, more, rfl⟩ := hlonger
    refine ⟨more ++ rest, ?_⟩
    rw [baseText_append, baseText_append, List.append_assoc]

/-- It is part of a URL base with a whole port. -/
theorem exists_isRun_urlBase (s : Str) : ∃ more rest, s = more ++ rest ∧
    IsRun (decimal o.port.toNat ++ more) rest ∧
    urlBase o.addr ++ s = baseText o.ip (decimal o.port.toNat ++ more) ++ rest := by
  obtain ⟨more, rest, rfl, hrun⟩ :=
    exists_isRun (decimal_ne_nil o.port.toNat) (decimal_digit o.port.toNat) s
  refine ⟨more, rest, rfl, hrun, ?_⟩
  rw [← baseText_eq_urlBase, baseText_append, baseText_append, List.append_assoc]

theorem longerPort_head (s : Str) (h : LongerPort o s) : s.head? = some 'h' := by
  obtain ⟨c, rest, rfl, _⟩ := h
  rw [(urlBase_anchored o.addr).1]
  rfl

/-- A digit follows where the port in the text is longer than the origin's. -/
theorem longerPort_baseText_iff {ip : Ipv4Addr} {run rest : Str} (hrun : IsRun run rest) :
    LongerPort o (baseText ip run ++ rest) ↔
      ip = o.ip ∧ ∃ c more, run = decimal o.port.toNat ++ c :: more := by
  constructor
  · intro hlong
    obtain ⟨c, rest', hs, hc⟩ := hlong
    obtain ⟨rfl, more, rfl⟩ := (prefix_baseText_iff hrun).mp ⟨_, hs.symm⟩
    refine ⟨rfl, ?_⟩
    rw [← baseText_eq_urlBase, baseText_append, baseText_append] at hs
    cases more with
    | nil =>
      have hrest : rest = c :: rest' := by simpa using hs
      exact absurd hc (hrun.whole c (by rw [hrest]; rfl))
    | cons d more => exact ⟨d, more, rfl⟩
  · intro hlong
    obtain ⟨rfl, c, more, rfl⟩ := hlong
    refine ⟨c, more ++ rest, ?_, hrun.digits c (by simp)⟩
    rw [← baseText_eq_urlBase, baseText_append, baseText_append, List.append_assoc]
    rfl

theorem baseText_anchored (ip : Ipv4Addr) {run : Str} (hrun : ∀ c ∈ run, IsDigit c) :
    ∃ tail, baseText ip run = 'h' :: tail ∧ 'h' ∉ tail := by
  refine ⟨"ttp://".toList ++ (ip.display ++ ':' :: run), rfl, ?_⟩
  rw [List.mem_append, List.mem_append, List.mem_cons]
  intro hm
  rcases hm with hm | hm | hm | hm
  · exact absurd hm (by decide)
  · exact (ip.display_chars 'h' hm).elim (absurd · (by decide)) (absurd · (by decide))
  · exact absurd hm (by decide)
  · exact absurd (hrun 'h' hm) (by decide)

/-- After a URL base the text is searched apart. -/
theorem exists_longerPort_baseText (ip : Ipv4Addr) {run : Str} (hrun : ∀ c ∈ run, IsDigit c)
    (s : Str) : (∃ t, t <:+ baseText ip run ++ s ∧ LongerPort o t) ↔
      LongerPort o (baseText ip run ++ s) ∨ ∃ t, t <:+ s ∧ LongerPort o t := by
  obtain ⟨tail, hbase, hanchor⟩ := baseText_anchored ip hrun
  have hhead (t : Str) (h : LongerPort o t) : ∀ c ∈ t.head?, c ∉ tail := by
    rw [longerPort_head t h]
    exact fun c hc => Option.some.inj hc ▸ hanchor
  rw [hbase, List.cons_append, exists_suffix_cons, exists_suffix_append hhead]

/-- Of another URL base nothing is replaced: the origin's is left there, or is not there. -/
theorem partly_baseText {ip : Ipv4Addr} {run rest out : Str} {k : Nat} (hrun : IsRun run rest)
    (hne : ¬ (ip = o.ip ∧ run = decimal o.port.toNat))
    (h : Partly (urlBase o.addr) (urlBase p.addr) k rest out) :
    ∃ k', Partly (urlBase o.addr) (urlBase p.addr) k' (baseText ip run ++ rest)
        (baseText ip run ++ out) ∧
      (k' = 0 ↔ ¬ LongerPort o (baseText ip run ++ rest) ∧ k = 0) := by
  obtain ⟨hbase, _⟩ := urlBase_anchored o.addr
  rw [longerPort_baseText_iff hrun]
  by_cases hlong : ip = o.ip ∧ ∃ c more, run = decimal o.port.toNat ++ c :: more
  · refine ⟨k + 1, ?_, iff_of_false (Nat.succ_ne_zero k) fun hnone => hnone.1 hlong⟩
    obtain ⟨rfl, c, more, rfl⟩ := hlong
    have hmore : 'h' ∉ c :: more := fun hm =>
      absurd (hrun.digits 'h' (List.mem_append_right _ hm)) (by decide)
    have hleft (s : Str) : baseText o.ip (decimal o.port.toNat ++ c :: more) ++ s =
        urlBase o.addr ++ (c :: more ++ s) := by
      rw [← baseText_eq_urlBase, baseText_append, baseText_append, List.append_assoc]
    rw [hleft, hleft]
    rw [hbase] at h ⊢
    exact .left (h.append_of_not_mem hmore)
  · refine ⟨k, ?_, by rw [and_iff_right hlong]⟩
    have hnone : ¬ urlBase o.addr <+: baseText ip run ++ rest := by
      rw [prefix_baseText_iff hrun]
      intro hprefix
      obtain ⟨rfl, more, rfl⟩ := hprefix
      cases more with
      | nil => exact hne ⟨rfl, List.append_nil _⟩
      | cons c more => exact hlong ⟨rfl, c, more, rfl⟩
    obtain ⟨tail, htail, hfree⟩ := baseText_anchored ip hrun.digits
    rw [htail, List.cons_append] at hnone ⊢
    rw [hbase] at h hnone ⊢
    exact .kept hnone (h.append_of_not_mem hfree)

/-- What is delivered is the text with some occurrences of the origin's URL base
replaced, and those that are left are followed by a digit. -/
theorem Delivered.partly {s out : Str} (h : Delivered o p s out) :
    ∃ k, Partly (urlBase o.addr) (urlBase p.addr) k s out ∧
      (k = 0 ↔ ¬ ∃ t, t <:+ s ∧ LongerPort o t) := by
  induction h with
  | done =>
    refine ⟨0, .nil, iff_of_true rfl ?_⟩
    intro hsome
    obtain ⟨t, ht, hlong⟩ := hsome
    rw [List.suffix_nil.mp ht] at hlong
    exact absurd (longerPort_head _ hlong) nofun
  | @own rest out hrun _ ih =>
    obtain ⟨k, hpartly, hk⟩ := ih
    refine ⟨k, ?_, ?_⟩
    · rw [baseText_eq_urlBase]
      exact .replaced hpartly
    · have hshort : ¬ LongerPort o (baseText o.ip (decimal o.port.toNat) ++ rest) := by
        rw [longerPort_baseText_iff hrun]
        intro hlonger
        obtain ⟨_, c, more, hlen⟩ := hlonger
        simp at hlen
      rw [exists_longerPort_baseText _ hrun.digits, or_iff_right hshort, hk]
  | foreign hrun hne _ ih =>
    obtain ⟨k, hpartly, hk⟩ := ih
    obtain ⟨k', hpartly', hk'⟩ := partly_baseText hrun hne hpartly
    refine ⟨k', hpartly', ?_⟩
    rw [hk', hk, exists_longerPort_baseText _ hrun.digits, not_or]
  | @other c s out hnone _ ih =>
    obtain ⟨k, hpartly, hk⟩ := ih
    have hm : ¬ urlBase o.addr <+: c :: s := by
      intro hprefix
      obtain ⟨s', hs'⟩ := hprefix
      obtain ⟨more, rest, _, hrun, heq⟩ := exists_isRun_urlBase (o := o) s'
      exact hnone _ _ _ hrun (hs'.symm.trans heq)
    have hshort : ¬ LongerPort o (c :: s) := fun ⟨d, rest, heq, _⟩ => hm ⟨_, heq.symm⟩
    exact ⟨k, .kept hm hpartly, by rw [exists_suffix_cons, or_iff_right hshort, hk]⟩

/-- Every text is delivered somehow. -/
theorem Delivered.exists (o p : SocketAddrV4) (s : Str) : ∃ out, Delivered o p s out := by
  match s with
  | [] => exact ⟨[], .done⟩
  | c :: s =>
    by_cases hbase : ∃ ip run rest, IsRun run rest ∧ c :: s = baseText ip run ++ rest
    · obtain ⟨ip, run, rest, hrun, heq⟩ := hbase
      obtain ⟨tail, htail, _⟩ := baseText_anchored ip hrun.digits
      have hle : rest.length ≤ s.length := by
        have hlen := congrArg List.length heq
        rw [htail, List.length_append, List.length_cons, List.length_cons] at hlen
        omega
      obtain ⟨out, hout⟩ := Delivered.exists o p rest
      by_cases hown : ip = o.ip ∧ run = decimal o.port.toNat
      · obtain ⟨rfl, rfl⟩ := hown
        exact heq ▸ ⟨_, .own hrun hout⟩
      · exact heq ▸ ⟨_, .foreign hrun hown hout⟩
    · obtain ⟨out, hout⟩ := Delivered.exists o p s
      exact ⟨_, .other (fun ip run rest hrun heq => hbase ⟨ip, run, rest, hrun, heq⟩) hout⟩
termination_by s.length

theorem IsRun.unique {ip ip' : Ipv4Addr} {run run' rest rest' : Str} (h : IsRun run rest)
    (h' : IsRun run' rest') (heq : baseText ip run ++ rest = baseText ip' run' ++ rest') :
    ip = ip' ∧ run = run' ∧ rest = rest' := by
  obtain ⟨hip, htail⟩ := baseText_inj heq
  have hrun : run = run' := by rw [← h.takeWhile, htail, h'.takeWhile]
  rw [hrun, List.append_cancel_left_eq] at htail
  exact ⟨hip, hrun, htail⟩

/-- What is delivered of a URL base in front. -/
theorem Delivered.baseText_cases {ip : Ipv4Addr} {run rest s out : Str} (h : Delivered o p s out)
    (hrun : IsRun run rest) (hs : s = baseText ip run ++ rest) :
    ∃ out', Delivered o p rest out' ∧
      ((ip = o.ip ∧ run = decimal o.port.toNat) ∧ out = urlBase p.addr ++ out' ∨
        ¬ (ip = o.ip ∧ run = decimal o.port.toNat) ∧ out = baseText ip run ++ out') := by
  cases h with
  | done => exact absurd hs.symm (baseText_append_ne_nil ip run rest)
  | own hrun' h' =>
    obtain ⟨rfl, rfl, rfl⟩ := hrun'.unique hrun hs
    exact ⟨_, h', Or.inl ⟨⟨rfl, rfl⟩, rfl⟩⟩
  | foreign hrun' hne h' =>
    obtain ⟨rfl, rfl, rfl⟩ := hrun'.unique hrun hs
    exact ⟨_, h', Or.inr ⟨hne, rfl⟩⟩
  | other hnone _ => exact absurd hs (hnone _ _ _ hrun)

/-- And of any other character. -/
theorem Delivered.other_cases {c : Char} {s s' out : Str} (h : Delivered o p s' out)
    (hnone : ∀ ip run rest, IsRun run rest → c :: s ≠ baseText ip run ++ rest) (hs : s' = c :: s) :
    ∃ out', Delivered o p s out' ∧ out = c :: out' := by
  cases h with
  | done => cases hs
  | own hrun _ => exact absurd hs.symm (hnone _ _ _ hrun)
  | foreign hrun _ _ => exact absurd hs.symm (hnone _ _ _ hrun)
  | other _ h' =>
    cases hs
    exact ⟨_, h', rfl⟩

/-- Only one text is delivered of each. -/
theorem Delivered.unique {s out out' : Str} (h : Delivered o p s out)
    (h' : Delivered o p s out') : out = out' := by
  induction h generalizing out' with
  | done =>
    generalize hs : ([] : Str) = s at h'
    cases h' with
    | done => rfl
    | own _ _ => exact absurd hs.symm (baseText_append_ne_nil _ _ _)
    | foreign _ _ _ => exact absurd hs.symm (baseText_append_ne_nil _ _ _)
    | other _ _ => cases hs
  | own hrun _ ih =>
    obtain ⟨out₂, h₂, ⟨_, rfl⟩ | ⟨hne, _⟩⟩ := h'.baseText_cases hrun rfl
    · rw [ih h₂]
    · exact absurd ⟨rfl, rfl⟩ hne
  | foreign hrun hne _ ih =>
    obtain ⟨out₂, h₂, ⟨heq, _⟩ | ⟨_, rfl⟩⟩ := h'.baseText_cases hrun rfl
    · exact absurd heq hne
    · rw [ih h₂]
  | other hnone _ ih =>
    obtain ⟨out₂, h₂, rfl⟩ := h'.other_cases hnone rfl
    rw [ih h₂]

theorem urlBase_addr_inj : urlBase o.addr = urlBase p.addr ↔ o = p := by
  refine ⟨fun h => ?_, fun h => h ▸ rfl⟩
  rw [← baseText_eq_urlBase, ← baseText_eq_urlBase, ← List.append_nil (baseText _ _),
    ← List.append_nil (baseText p.ip _)] at h
  obtain ⟨hip, hport⟩ := baseText_inj h
  rw [List.append_nil, List.append_nil] at hport
  have hport' : o.port = p.port := UInt16.toNat_inj.mp (decimal_injective hport)
  cases o
  cases p
  exact congr (congrArg SocketAddrV4.mk hip) hport'

theorem rewriteBody_asBytes (o p : SocketAddr) (s : Str) :
    rewriteBody (TCPProxy.new o p) (asBytes s) =
      asBytes (replace (urlBase o) (urlBase p) s) := by
  rw [rewriteBody, fromUtf8Lossy_asBytes]
  rfl

/-- Rewriting gives what is to be delivered, if no digit follows the origin's URL base. -/
theorem Delivered.rewriteBody_iff {body out : Str} (h : Delivered o p body out) :
    rewriteBody (TCPProxy.new o.addr p.addr) (asBytes body) = asBytes out ↔
      (o = p ∨ ¬ ∃ t, t <:+ body ∧ LongerPort o t) := by
  obtain ⟨k, hpartly, hk⟩ := h.partly
  rw [rewriteBody_asBytes, asBytes_injective.eq_iff,
    hpartly.eq_replace_iff (urlBase_ne_nil o.addr), hk, urlBase_addr_inj, or_comm]

end

/-- **The origin's URLs and no others are rewritten just where no digit follows the
origin's URL base.** With one address for both nothing is rewritten. -/
theorem rewriteBody_delivered_iff (o p : SocketAddrV4) (body : Str) :
    (∃ out, Delivered o p body out ∧
        rewriteBody (TCPProxy.new o.addr p.addr) (asBytes body) = asBytes out) ↔
      (o = p ∨ ¬ ∃ t, t <:+ body ∧ LongerPort o t) := by
  constructor
  · intro hrewrites
    obtain ⟨out, hout, heq⟩ := hrewrites
    exact hout.rewriteBody_iff.mp heq
  · intro h
    obtain ⟨out, hout⟩ := Delivered.exists o p body
    exact ⟨out, hout, hout.rewriteBody_iff.mpr h⟩

def origin80 : SocketAddrV4 := ⟨.new 192 168 1 41, 80⟩

def proxy8100 : SocketAddrV4 := ⟨.new 192 168 1 52, 8100⟩

/-- The base of a URL on another port of the origin's host is cut in its port. -/
theorem not_delivered_longer_port :
    rewriteBody (TCPProxy.new origin80.addr proxy8100.addr)
        (asBytes "http://192.168.1.41:8080/icon.png".toList) =
      asBytes "http://192.168.1.52:810080/icon.png".toList ∧
    ¬ ∃ out, Delivered origin80 proxy8100 "http://192.168.1.41:8080/icon.png".toList out ∧
      rewriteBody (TCPProxy.new origin80.addr proxy8100.addr)
        (asBytes "http://192.168.1.41:8080/icon.png".toList) = asBytes out := by
  refine ⟨by decide +kernel, ?_⟩
  intro hdelivered
  obtain ⟨out, hout, heq⟩ := hdelivered
  rcases hout.rewriteBody_iff.mp heq with hsame | hnone
  · exact absurd (congrArg SocketAddrV4.port hsame) (by decide)
  · exact hnone ⟨_, List.suffix_rfl, '8', "0/icon.png".toList, by decide, by decide⟩

end DlnaProxy.TcpProxy
