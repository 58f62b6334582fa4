import DlnaProxy.Lib.Lossy

/-!
# Socket addresses and their text form

The addresses of the standard library as far as `ip()` and `port()` read them.
An IPv6 address is printed with its longest inner run of zero segments, of two
or more, replaced by `::`, and an IPv4-mapped one in dotted form. The host of a
URL base is this text as it stands, without brackets.
-/
namespace DlnaProxy.Net

open DlnaProxy.Lib.Utf8

structure Ipv4Addr where
  octets : List UInt8
  length_eq : octets.length = 4

def Ipv4Addr.new (a b c d : UInt8) : Ipv4Addr := ⟨[a, b, c, d], rfl⟩

structure Ipv6Addr where
  segments : List UInt16
  length_eq : segments.length = 8

inductive IpAddr where
  | v4 (ip : Ipv4Addr)
  | v6 (ip : Ipv6Addr)

structure SocketAddr where
  ip : IpAddr
  port : UInt16

def Ipv4Addr.display (ip : Ipv4Addr) : Str :=
  ['.'].intercalate (ip.octets.map fun octet => decimal octet.toNat)

/-- A run of zero segments. -/
structure Span where
  start : Nat
  len : Nat
  deriving DecidableEq

/-- The first of the longest runs of zeros, from segment `i` on, where `current`
is the run that ends there. -/
def longestZeroes (longest current : Span) (i : Nat) : List UInt16 → Span
  | [] => longest
  | segment :: segments =>
    if segment = 0 then
      let current := ⟨if current.len = 0 then i else current.start, current.len + 1⟩
      longestZeroes (if longest.len < current.len then current else longest) current (i + 1) segments
    else longestZeroes longest ⟨0, 0⟩ (i + 1) segments

def fmtSubslice (chunk : List UInt16) : Str :=
  [':'].intercalate (chunk.map fun segment => hex segment.toNat)

/-- `to_ipv4_mapped`. -/
def toIpv4Mapped (segments : List UInt16) : Option Ipv4Addr :=
  match segments with
  | [0, 0, 0, 0, 0, 0xFFFF, ab, cd] =>
    some ⟨[(ab >>> 8).toUInt8, ab.toUInt8, (cd >>> 8).toUInt8, cd.toUInt8], rfl⟩
  | _ => none

/-- The text form in a URL, which is never dotted. -/
def Ipv6Addr.serialize (ip : Ipv6Addr) : Str :=
  let zeroes := longestZeroes ⟨0, 0⟩ ⟨0, 0⟩ 0 ip.segments
  if 1 < zeroes.len then
    fmtSubslice (ip.segments.take zeroes.start) ++ "::".toList ++
      fmtSubslice (ip.segments.drop (zeroes.start + zeroes.len))
  else fmtSubslice ip.segments

def Ipv6Addr.display (ip : Ipv6Addr) : Str :=
  match toIpv4Mapped ip.segments with
  | some ipv4 => "::ffff:".toList ++ ipv4.display
  | none =>
    let zeroes := longestZeroes ⟨0, 0⟩ ⟨0, 0⟩ 0 ip.segments
    if 1 < zeroes.len then
      fmtSubslice (ip.segments.take zeroes.start) ++ "::".toList ++
        fmtSubslice (ip.segments.drop (zeroes.start + zeroes.len))
    else fmtSubslice ip.segments

def IpAddr.display : IpAddr → Str
  | .v4 ip => ip.display
  | .v6 ip => ip.display

/-- `http://{ip}:{port}`, the text the rewriting looks for and puts in its place. -/
def urlBase (addr : SocketAddr) : Str :=
  "http://".toList ++ addr.ip.display ++ ":".toList ++ decimal addr.port.toNat

/-! ## The shape of a URL base -/

theorem decimal_ascii (n : Nat) : AllAscii (decimal n) :=
  fun c hc => (toDigits_alphaNum (by decide) (by decide) n c hc).ascii

theorem hex_ascii (n : Nat) : AllAscii (hex n) :=
  fun c hc => (toDigits_alphaNum (by decide) (by decide) n c hc).ascii

theorem fmtSubslice_ascii (chunk : List UInt16) : AllAscii (fmtSubslice chunk) := by
  apply allAscii_intercalate (by decide)
  intro x hx
  obtain ⟨segment, _, rfl⟩ := List.mem_map.mp hx
  exact hex_ascii _

theorem fmtSubslice_length_le (chunk : List UInt16) :
    (fmtSubslice chunk).length ≤ 5 * chunk.length := by
  have h : (fmtSubslice chunk).length ≤ 5 * (chunk.map fun segment => hex segment.toNat).length := by
    apply length_intercalate_le
    intro x hx
    obtain ⟨segment, _, rfl⟩ := List.mem_map.mp hx
    exact (Nat.length_toDigits_le_iff (by decide) (by decide)).mpr segment.toNat_lt
  rwa [List.length_map] at h

theorem Ipv4Addr.display_ascii (ip : Ipv4Addr) : AllAscii ip.display := by
  apply allAscii_intercalate (by decide)
  intro x hx
  obtain ⟨octet, _, rfl⟩ := List.mem_map.mp hx
  exact decimal_ascii _

theorem Ipv4Addr.display_length_le (ip : Ipv4Addr) : ip.display.length ≤ 16 := by
  have h : ip.display.length ≤ 4 * (ip.octets.map fun octet => decimal octet.toNat).length := by
    apply length_intercalate_le
    intro x hx
    obtain ⟨octet, _, rfl⟩ := List.mem_map.mp hx
    have hlt := octet.toNat_lt
    exact (Nat.length_toDigits_le_iff (by decide) (by decide)).mpr (by omega)
  rw [List.length_map, ip.length_eq] at h
  exact h

theorem Ipv6Addr.display_ascii (ip : Ipv6Addr) : AllAscii ip.display := by
  unfold Ipv6Addr.display
  split
  · exact allAscii_append (by decide) (Ipv4Addr.display_ascii _)
  · dsimp only
    split
    · exact allAscii_append (allAscii_append (fmtSubslice_ascii _) (by decide)) (fmtSubslice_ascii _)
    · exact fmtSubslice_ascii _

theorem Ipv6Addr.display_length_le (ip : Ipv6Addr) : ip.display.length ≤ 42 := by
  have h8 := ip.length_eq
  unfold Ipv6Addr.display
  split
  · next ipv4 _ =>
    have h := ipv4.display_length_le
    simp
    omega
  · dsimp only
    generalize longestZeroes ⟨0, 0⟩ ⟨0, 0⟩ 0 ip.segments = zeroes
    split
    · have ht := fmtSubslice_length_le (ip.segments.take zeroes.start)
      have hd := fmtSubslice_length_le (ip.segments.drop (zeroes.start + zeroes.len))
      simp only [List.length_take, List.length_drop] at ht hd
      simp
      omega
    · have h := fmtSubslice_length_le ip.segments
      omega

theorem IpAddr.display_ascii (ip : IpAddr) : AllAscii ip.display := by
  cases ip with
  | v4 ip => exact ip.display_ascii
  | v6 ip => exact ip.display_ascii

theorem IpAddr.display_length_le (ip : IpAddr) : ip.display.length ≤ 42 := by
  cases ip with
  | v4 ip => exact ip.display_length_le.trans (by decide)
  | v6 ip => exact ip.display_length_le

theorem urlBase_ascii (addr : SocketAddr) : AllAscii (urlBase addr) :=
  allAscii_append (allAscii_append (allAscii_append (by decide) addr.ip.display_ascii) (by decide))
    (decimal_ascii _)

theorem urlBase_ne_nil (addr : SocketAddr) : urlBase addr ≠ [] := by
  have hhttp : "http://".toList ≠ [] := by decide
  unfold urlBase
  rw [List.append_assoc, List.append_assoc]
  exact List.append_ne_nil_of_left_ne_nil hhttp _

theorem urlBase_length_le (addr : SocketAddr) : (urlBase addr).length ≤ 55 := by
  have hip := addr.ip.display_length_le
  have hport : (decimal addr.port.toNat).length ≤ 5 := by
    have hlt := addr.port.toNat_lt
    exact (Nat.length_toDigits_le_iff (by decide) (by decide)).mpr (by omega)
  have hhttp : "http://".toList.length = 7 := by decide
  have hcolon : ":".toList.length = 1 := by decide
  unfold urlBase
  rw [List.length_append, List.length_append, List.length_append, hhttp, hcolon]
  omega

/-! ## The characters of a text form -/

/-- A decimal digit. -/
def IsDigit (c : Char) : Prop := 0x30 ≤ c.toNat ∧ c.toNat ≤ 0x39

instance (c : Char) : Decidable (IsDigit c) := instDecidableAnd

theorem toDigit_ten_isSome_iff {c : Char} : (toDigit 10 c).isSome ↔ IsDigit c := by
  unfold toDigit IsDigit
  simp only
  split
  · next h => exact iff_of_true (by rw [if_pos (by omega)]; rfl) h
  · next h =>
    refine iff_of_false ?_ h
    split
    · rw [if_neg (by omega)]
      exact Bool.false_ne_true
    · split
      · rw [if_neg (by omega)]
        exact Bool.false_ne_true
      · exact Bool.false_ne_true

theorem decimal_digit (n : Nat) : ∀ c ∈ decimal n, IsDigit c :=
  fun c hc => toDigit_ten_isSome_iff.mp (toDigits_digit (by decide) (by decide) n c hc)

theorem decimal_injective : Function.Injective decimal := toDigits_injective (by decide) (by decide)

/-- What an address is written with. -/
def AddrChar (c : Char) : Prop := (toDigit 16 c).isSome ∨ c = '.' ∨ c = ':'

instance (c : Char) : Decidable (AddrChar c) := instDecidableOr

theorem IsDigit.addrChar {c : Char} (h : IsDigit c) : AddrChar c := by
  left
  unfold IsDigit at h
  unfold toDigit
  simp only [if_pos h]
  rw [if_pos (by omega)]
  rfl

theorem Ipv4Addr.display_chars (ip : Ipv4Addr) : ∀ c ∈ ip.display, IsDigit c ∨ c = '.' := by
  apply forall_mem_intercalate
  · exact fun c hc => Or.inr (List.mem_singleton.mp hc)
  · intro x hx
    obtain ⟨octet, _, rfl⟩ := List.mem_map.mp hx
    exact fun c hc => Or.inl (decimal_digit _ c hc)

theorem fmtSubslice_chars (chunk : List UInt16) : ∀ c ∈ fmtSubslice chunk, AddrChar c := by
  apply forall_mem_intercalate
  · exact fun c hc => Or.inr (Or.inr (List.mem_singleton.mp hc))
  · intro x hx
    obtain ⟨segment, _, rfl⟩ := List.mem_map.mp hx
    exact fun c hc => Or.inl (toDigits_digit (by decide) (by decide) _ c hc)

theorem Ipv4Addr.display_injective : Function.Injective Ipv4Addr.display := by
  intro a b hab
  have hparts (ip : Ipv4Addr) : ip.display.splitOn '.' =
      ip.octets.map fun octet => decimal octet.toNat := by
    apply List.splitOn_intercalate
    · intro x hx hm
      obtain ⟨octet, _, rfl⟩ := List.mem_map.mp hx
      exact absurd (decimal_digit _ _ hm) (by decide)
    · intro hnil
      have hlen := ip.length_eq
      rw [List.map_eq_nil_iff.mp hnil] at hlen
      cases hlen
  have hinj : Function.Injective fun octet : UInt8 => decimal octet.toNat :=
    fun x y hxy => UInt8.toNat_inj.mp (decimal_injective hxy)
  have hoctets : a.octets = b.octets := by
    apply List.map_injective_iff.mpr hinj
    rw [← hparts a, hab, hparts b]
  cases a
  cases b
  cases hoctets
  rfl

theorem Ipv6Addr.serialize_chars (ip : Ipv6Addr) : ∀ c ∈ ip.serialize, AddrChar c := by
  have hcolons : ∀ c ∈ "::".toList, AddrChar c := by decide
  unfold Ipv6Addr.serialize
  dsimp only
  split
  · intro c hc
    rw [List.mem_append, List.mem_append, or_assoc] at hc
    exact hc.elim (fmtSubslice_chars _ c) fun hc => hc.elim (hcolons c) (fmtSubslice_chars _ c)
  · exact fmtSubslice_chars _

/-- Out of a URL the text form differs for an IPv4-mapped address only. -/
theorem Ipv6Addr.display_eq (ip : Ipv6Addr) : ip.display =
    ((toIpv4Mapped ip.segments).map fun ipv4 => "::ffff:".toList ++ ipv4.display).getD
      ip.serialize := by
  unfold Ipv6Addr.display
  split
  · next hmap => rw [hmap]; rfl
  · next hmap => rw [hmap]; rfl

theorem Ipv6Addr.display_chars (ip : Ipv6Addr) : ∀ c ∈ ip.display, AddrChar c := by
  have hmapped : ∀ c ∈ "::ffff:".toList, AddrChar c := by decide
  rw [Ipv6Addr.display_eq]
  cases toIpv4Mapped ip.segments with
  | none => exact ip.serialize_chars
  | some ipv4 =>
    intro c hc
    rcases List.mem_append.mp hc with hc | hc
    · exact hmapped c hc
    · exact (ipv4.display_chars c hc).elim IsDigit.addrChar fun he => Or.inr (Or.inl he)

theorem colon_mem_fmtSubslice {chunk : List UInt16} (h : 1 < chunk.length) :
    ':' ∈ fmtSubslice chunk := by
  match chunk with
  | a :: b :: chunk =>
    rw [fmtSubslice, List.map_cons, List.map_cons, List.intercalate_cons_cons]
    simp

theorem Ipv6Addr.colon_mem_display (ip : Ipv6Addr) : ':' ∈ ip.display := by
  have hmapped : ':' ∈ "::ffff:".toList := by decide
  have hcolons : ':' ∈ "::".toList := by decide
  rw [Ipv6Addr.display_eq]
  cases toIpv4Mapped ip.segments with
  | some ipv4 => exact List.mem_append_left _ hmapped
  | none =>
    show ':' ∈ ip.serialize
    unfold Ipv6Addr.serialize
    dsimp only
    split
    · exact List.mem_append_left _ (List.mem_append_right _ hcolons)
    · exact colon_mem_fmtSubslice (by rw [ip.length_eq]; decide)

theorem IpAddr.display_chars (ip : IpAddr) : ∀ c ∈ ip.display, AddrChar c := by
  cases ip with
  | v4 ip =>
    exact fun c hc => (ip.display_chars c hc).elim IsDigit.addrChar fun he => Or.inr (Or.inl he)
  | v6 ip => exact ip.display_chars

/-- What follows the scheme in a URL base. -/
def hostPort (addr : SocketAddr) : Str := addr.ip.display ++ ":".toList ++ decimal addr.port.toNat

theorem hostPort_eq (addr : SocketAddr) :
    hostPort addr = addr.ip.display ++ ":".toList ++ decimal addr.port.toNat := rfl

theorem urlBase_eq (addr : SocketAddr) : urlBase addr = "http://".toList ++ hostPort addr := by
  rw [hostPort_eq, ← List.append_assoc, ← List.append_assoc]
  rfl

theorem hostPort_chars (addr : SocketAddr) : ∀ c ∈ hostPort addr, AddrChar c := by
  intro c hc
  rw [hostPort_eq, List.mem_append, List.mem_append, or_assoc] at hc
  rcases hc with hc | hc | hc
  · exact addr.ip.display_chars c hc
  · exact Or.inr (Or.inr (List.mem_singleton.mp hc))
  · exact (decimal_digit _ c hc).addrChar

/-- A URL base has its first character only once. -/
theorem urlBase_anchored (addr : SocketAddr) :
    urlBase addr = 'h' :: ("ttp://".toList ++ hostPort addr) ∧
      'h' ∉ "ttp://".toList ++ hostPort addr := by
  refine ⟨urlBase_eq addr, ?_⟩
  rw [List.mem_append, not_or]
  exact ⟨by decide, fun hm => absurd (hostPort_chars addr 'h' hm) (by decide)⟩

example : urlBase ⟨.v4 ⟨[192, 168, 1, 41], rfl⟩, 55555⟩ = "http://192.168.1.41:55555".toList := by
  decide

end DlnaProxy.Net
