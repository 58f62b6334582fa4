import DlnaProxy.Lib.Lowercase
import DlnaProxy.Lib.Number

/-!
# ASCII inside bytes that need not be text

What a lossy text says about ASCII, the bytes themselves say: prefixes, line
feeds and the occurrences of a pattern are the same in both. `valid_replace_iff`
adds that replacing ASCII by ASCII keeps bytes a text, or no text.
-/
namespace DlnaProxy.Lib.Utf8

def AllAscii (s : Str) : Prop := ∀ c ∈ s, Ascii c

instance (s : Str) : Decidable (AllAscii s) := inferInstanceAs (Decidable (∀ c ∈ s, Ascii c))

theorem allAscii_append {s t : Str} (hs : AllAscii s) (ht : AllAscii t) : AllAscii (s ++ t) := by
  intro c hc
  rcases List.mem_append.mp hc with hc | hc
  · exact hs c hc
  · exact ht c hc

theorem forall_mem_intercalate {α : Type} {P : α → Prop} {sep : List α} (hsep : ∀ c ∈ sep, P c)
    {xs : List (List α)} (h : ∀ x ∈ xs, ∀ c ∈ x, P c) : ∀ c ∈ sep.intercalate xs, P c := by
  induction xs with
  | nil => exact fun c hc => absurd hc List.not_mem_nil
  | cons x xs ih =>
    have hx := h x List.mem_cons_self
    have hxs := ih fun y hy => h y (List.mem_cons_of_mem x hy)
    cases xs with
    | nil => simpa [List.intercalate] using hx
    | cons y ys =>
      rw [List.intercalate_cons_cons]
      intro c hc
      rcases List.mem_append.mp hc with hc | hc
      · exact (List.mem_append.mp hc).elim (hx c) (hsep c)
      · exact hxs c hc

theorem allAscii_intercalate {sep : Str} (hsep : AllAscii sep) {xs : List Str}
    (h : ∀ x ∈ xs, AllAscii x) : AllAscii (sep.intercalate xs) := forall_mem_intercalate hsep h

theorem length_intercalate_le {sep : Char} {k : Nat} {xs : List Str} (h : ∀ x ∈ xs, x.length ≤ k) :
    ([sep].intercalate xs).length ≤ (k + 1) * xs.length := by
  induction xs with
  | nil => simp [List.intercalate]
  | cons x xs ih =>
    have hx := h x (by simp)
    have hxs := ih fun y hy => h y (by simp [hy])
    rw [List.length_cons, Nat.mul_succ]
    cases xs with
    | nil =>
      simp only [List.intercalate, List.intersperse, List.flatten_cons, List.flatten_nil,
        List.append_nil]
      omega
    | cons y ys =>
      rw [List.intercalate_cons_cons]
      simp only [List.length_append, List.length_singleton]
      omega

theorem toUInt8_le {c : Char} (h : Ascii c) : c.toUInt8 ≤ 0x7F := by
  have hc : c.toUInt8.toNat = c.toNat % 256 := rfl
  have hlt : c.toNat < 128 := h
  rw [UInt8.le_iff_toNat_le, hc]
  simp
  omega

theorem charOf_toUInt8 {c : Char} (h : Ascii c) : charOf c.toUInt8.toNat = c := by
  have hc : c.toUInt8.toNat = c.toNat % 256 := rfl
  have hlt : c.toNat < 128 := h
  rw [hc, Nat.mod_eq_of_lt (by omega), charOf_toNat]

theorem asBytes_ascii {s : Str} (h : AllAscii s) : asBytes s = s.map Char.toUInt8 := by
  induction s with
  | nil => rfl
  | cons c s ih =>
    rw [asBytes_cons, encodeChar_ascii (h c (by simp)), ih fun x hx => h x (by simp [hx])]
    rfl

theorem asBytes_ascii_le {s : Str} (h : AllAscii s) : ∀ b ∈ asBytes s, b ≤ 0x7F := by
  rw [asBytes_ascii h]
  intro b hb
  obtain ⟨c, hc, rfl⟩ := List.mem_map.mp hb
  exact toUInt8_le (h c hc)

theorem asBytes_ne_nil {s : Str} (h : s ≠ []) : asBytes s ≠ [] := by
  obtain ⟨c, s, rfl⟩ := List.exists_cons_of_ne_nil h
  simp

/-- An ASCII text is a prefix of a lossy text just where its bytes are one. -/
theorem prefix_lossy_iff {p : Str} (hp : AllAscii p) (bytes : List UInt8) :
    p <+: fromUtf8Lossy bytes ↔ asBytes p <+: bytes := by
  induction p generalizing bytes with
  | nil => simp
  | cons c p ih =>
    have hc := hp c (by simp)
    rw [asBytes_cons, encodeChar_ascii hc, List.singleton_append]
    cases bytes with
    | nil => simp
    | cons b bytes =>
      by_cases hb : b ≤ 0x7F
      · rw [fromUtf8Lossy_cons hb, List.cons_prefix_cons, List.cons_prefix_cons,
          ih fun x hx => hp x (by simp [hx])]
        refine and_congr_left fun _ => ⟨?_, ?_⟩
        · rintro rfl
          exact (charOf_ascii hb).2
        · rintro rfl
          exact (charOf_toUInt8 hc).symm
      · obtain ⟨d, s, hd, hda⟩ := fromUtf8Lossy_wide hb bytes
        rw [hd, List.cons_prefix_cons, List.cons_prefix_cons]
        refine iff_of_false ?_ ?_
        · rintro ⟨rfl, _⟩
          exact hda hc
        · rintro ⟨rfl, _⟩
          exact hb (toUInt8_le hc)

/-- `u8::to_ascii_lowercase`. -/
def asciiLower (b : UInt8) : UInt8 := if 0x41 ≤ b ∧ b ≤ 0x5A then b + 0x20 else b

theorem toLower_charOf {b : UInt8} (h : b ≤ 0x7F) :
    (charOf b.toNat).toLower = charOf (asciiLower b).toNat ∧ asciiLower b ≤ 0x7F := by
  have table : ∀ n < 256, UInt8.ofNat n ≤ 0x7F →
      (charOf n).toLower = charOf (asciiLower (UInt8.ofNat n)).toNat ∧
        asciiLower (UInt8.ofNat n) ≤ 0x7F := by decide +kernel
  have hb := table b.toNat b.toNat_lt
  rw [UInt8.ofNat_toNat] at hb
  exact hb h

theorem asciiLower_wide {b : UInt8} (h : ¬ b ≤ 0x7F) : ¬ asciiLower b ≤ 0x7F := by
  have table : ∀ n < 256, ¬ UInt8.ofNat n ≤ 0x7F → ¬ asciiLower (UInt8.ofNat n) ≤ 0x7F := by
    decide +kernel
  have hb := table b.toNat b.toNat_lt
  rw [UInt8.ofNat_toNat] at hb
  exact hb h

/-- The same for lower-case text, where case is ignored. -/
theorem prefix_lower_lossy_iff {p : Str} (hp : AllAscii p) (bytes : List UInt8) :
    p <+: (fromUtf8Lossy bytes).map Char.toLower ↔ asBytes p <+: bytes.map asciiLower := by
  induction p generalizing bytes with
  | nil => simp
  | cons c p ih =>
    have hc := hp c (by simp)
    rw [asBytes_cons, encodeChar_ascii hc, List.singleton_append]
    cases bytes with
    | nil => simp
    | cons b bytes =>
      by_cases hb : b ≤ 0x7F
      · obtain ⟨hlower, hb'⟩ := toLower_charOf hb
        rw [fromUtf8Lossy_cons hb, List.map_cons, List.map_cons, List.cons_prefix_cons,
          List.cons_prefix_cons, ih fun x hx => hp x (by simp [hx]), hlower]
        refine and_congr_left fun _ => ⟨?_, ?_⟩
        · rintro rfl
          exact (charOf_ascii hb').2
        · rintro hu
          rw [← hu]
          exact (charOf_toUInt8 hc).symm
      · obtain ⟨d, s, hd, hda⟩ := fromUtf8Lossy_wide hb bytes
        rw [hd, List.map_cons, List.map_cons, List.cons_prefix_cons, List.cons_prefix_cons,
          toLower_wide hda]
        refine iff_of_false ?_ ?_
        · rintro ⟨rfl, _⟩
          exact hda hc
        · rintro ⟨hu, _⟩
          exact asciiLower_wide hb (hu ▸ toUInt8_le hc)

theorem asBytes_prefix_iff {p : Str} (hp : AllAscii p) (s : Str) :
    asBytes p <+: asBytes s ↔ p <+: s := by
  rw [← prefix_lossy_iff hp, fromUtf8Lossy_asBytes]

theorem not_prefix_wide {p : Str} (hp : AllAscii p) (hne : p ≠ []) {b : UInt8} (hb : 0x80 ≤ b)
    (rest : List UInt8) : ¬ asBytes p <+: b :: rest := by
  obtain ⟨c, p, rfl⟩ := List.exists_cons_of_ne_nil hne
  have hc := hp c (by simp)
  rw [asBytes_cons, encodeChar_ascii hc, List.singleton_append, List.cons_prefix_cons]
  rintro ⟨rfl, _⟩
  have hle := toUInt8_le hc
  rw [UInt8.le_iff_toNat_le] at hb hle
  simp at hb hle
  omega

theorem replace_wide {p : Str} (hp : AllAscii p) (hne : p ≠ []) (repl : List UInt8)
    {bytes : List UInt8} (hb : ∀ b ∈ bytes, 0x80 ≤ b) (rest : List UInt8) :
    replace (asBytes p) repl (bytes ++ rest) = bytes ++ replace (asBytes p) repl rest := by
  induction bytes with
  | nil => rfl
  | cons b bytes ih =>
    rw [List.cons_append, replace_skip (asBytes_ne_nil hne) repl
      (not_prefix_wide hp hne (hb b (by simp)) _), ih fun x hx => hb x (by simp [hx])]
    rfl

/-- Replacing an ASCII pattern in a text replaces its bytes in the bytes. -/
theorem asBytes_replace {p : Str} (hp : AllAscii p) (hne : p ≠ []) (repl s : Str) :
    asBytes (replace p repl s) = replace (asBytes p) (asBytes repl) (asBytes s) := by
  have hne' := asBytes_ne_nil hne
  refine replace_induction hne (P := fun s =>
    asBytes (replace p repl s) = replace (asBytes p) (asBytes repl) (asBytes s)) ?_ ?_ ?_ s
  · simp [hne, hne']
  · intro s ih
    rw [replace_match hne, asBytes_append, asBytes_append, replace_match hne', ih]
  · intro c s hm ih
    rw [replace_skip hne repl hm, asBytes_cons, asBytes_cons, ih]
    by_cases hc : Ascii c
    · have hm' : ¬ asBytes p <+: c.toUInt8 :: asBytes s := by
        rw [← List.singleton_append, ← encodeChar_ascii hc, ← asBytes_cons, asBytes_prefix_iff hp]
        exact hm
      rw [encodeChar_ascii hc, List.singleton_append, List.singleton_append,
        replace_skip hne' _ hm']
    · rw [replace_wide hp hne _ (encodeChar_wide hc)]

/-- Bytes of a text around an ASCII byte are those of the texts on its two sides. -/
theorem asBytes_split {s : Str} {b : UInt8} (hb : b ≤ 0x7F) {bytes rest : List UInt8}
    (h : asBytes s = bytes ++ b :: rest) :
    ∃ s₁ s₂, asBytes s₁ = bytes ∧ asBytes s₂ = rest := by
  induction s generalizing bytes with
  | nil => simp at h
  | cons c s ih =>
    rw [asBytes_cons, List.append_eq_append_iff] at h
    rcases h with ⟨t, ht, hs⟩ | ⟨t, ht, hs⟩
    · obtain ⟨s₁, s₂, h₁, h₂⟩ := ih hs
      exact ⟨c :: s₁, s₂, by rw [asBytes_cons, h₁, ht], h₂⟩
    · cases t with
      | nil =>
        rw [List.nil_append] at hs
        obtain ⟨s₁, s₂, h₁, h₂⟩ := @ih [] hs.symm
        exact ⟨c :: s₁, s₂, by simpa [h₁] using ht, h₂⟩
      | cons x t =>
        obtain ⟨rfl, hs⟩ := List.cons.inj hs
        by_cases hc : Ascii c
        · rw [encodeChar_ascii hc] at ht
          have hlen := congrArg List.length ht
          simp only [List.length_append, List.length_cons, List.length_nil] at hlen
          have hbytes : bytes = [] := List.length_eq_zero_iff.mp (by omega)
          have ht' : t = [] := List.length_eq_zero_iff.mp (by omega)
          subst hbytes ht'
          exact ⟨[], s, rfl, (List.cons.inj hs).2.symm⟩
        · have hx := encodeChar_wide hc b (by simp [ht])
          rw [UInt8.le_iff_toNat_le] at hb hx
          simp at hb hx
          omega

theorem valid_append_cons_iff {bytes : List UInt8} {b : UInt8} (hb : b ≤ 0x7F)
    (rest : List UInt8) : Valid (bytes ++ b :: rest) ↔ Valid bytes ∧ Valid rest := by
  simp only [valid_iff]
  constructor
  · rintro ⟨s, hs⟩
    obtain ⟨s₁, s₂, h₁, h₂⟩ := asBytes_split hb hs
    exact ⟨⟨s₁, h₁⟩, ⟨s₂, h₂⟩⟩
  · rintro ⟨⟨s₁, rfl⟩, ⟨s₂, rfl⟩⟩
    obtain ⟨ha, hu⟩ := charOf_ascii hb
    exact ⟨s₁ ++ charOf b.toNat :: s₂, by simp [encodeChar_ascii ha, hu]⟩

theorem valid_ascii_append_iff {p : List UInt8} (hp : ∀ b ∈ p, b ≤ 0x7F) (rest : List UInt8) :
    Valid (p ++ rest) ↔ Valid rest := by
  induction p with
  | nil => rfl
  | cons b p ih =>
    have hnil : Valid [] := rfl
    have h := @valid_append_cons_iff [] b (hp b (by simp)) (p ++ rest)
    rw [List.nil_append] at h
    rw [List.cons_append, h, ih fun x hx => hp x (by simp [hx])]
    exact and_iff_right hnil

theorem valid_append_ascii_iff {p : List UInt8} (hp : ∀ b ∈ p, b ≤ 0x7F) (hne : p ≠ [])
    (bytes rest : List UInt8) : Valid (bytes ++ (p ++ rest)) ↔ Valid bytes ∧ Valid rest := by
  obtain ⟨b, p, rfl⟩ := List.exists_cons_of_ne_nil hne
  rw [List.cons_append, valid_append_cons_iff (hp b (by simp)),
    valid_ascii_append_iff fun x hx => hp x (by simp [hx])]

/-- Replacing ASCII by ASCII makes no invalid bytes valid, and no valid ones invalid. -/
theorem valid_replace_iff {pat repl : List UInt8} (hpat : ∀ b ∈ pat, b ≤ 0x7F) (hne : pat ≠ [])
    (hrepl : ∀ b ∈ repl, b ≤ 0x7F) (hne' : repl ≠ []) (bytes : List UInt8) :
    Valid (replace pat repl bytes) ↔ Valid bytes := by
  induction hn : bytes.length using Nat.strongRecOn generalizing bytes with
  | ind n ih =>
    rcases replace_first hne repl bytes with h | ⟨kept, rest, hb, h⟩
    · rw [replace_of_absent hne repl h]
    · have hpos := List.length_pos_iff.mpr hne
      have hlen : rest.length < n := by
        rw [← hn, hb, List.length_append, List.length_append]
        omega
      rw [h, hb, valid_append_ascii_iff hrepl hne', valid_append_ascii_iff hpat hne,
        ih _ hlen rest rfl]

theorem finish_not_ascii (d : Decoder) : ∀ c ∈ finish d, ¬ Ascii c := by
  cases d with
  | start => simp [finish]
  | inside =>
    intro c hc
    rw [List.mem_singleton.mp hc]
    decide

theorem first_not_ascii {b : UInt8} (hb : ¬ b ≤ 0x7F) : ∀ c ∈ (first b).1, ¬ Ascii c := by
  have hrepl : ¬ Ascii replacement := by decide
  simp only [first, if_neg hb]
  repeat' split
  all_goals simp [hrepl]

theorem step_not_ascii {d : Decoder} (hd : d.Wide) {b : UInt8} (hb : ¬ b ≤ 0x7F) :
    ∀ c ∈ (step d b).1, ¬ Ascii c := by
  cases d with
  | start => exact first_not_ascii hb
  | inside more low high value =>
    obtain ⟨hlow, hhigh, hval⟩ := hd
    simp only [step]
    split
    · next hin =>
      cases more with
      | zero =>
        have hbits := low_bits_le hlow hin.1 (UInt8.le_trans hin.2 hhigh)
        have hwide := charOf_not_ascii (n := value * 64 + b.toNat % 64) (by simp at hval; omega)
        simp [hwide]
      | succ more => simp
    · intro c hc
      rcases List.mem_cons.mp hc with rfl | hc
      · decide
      · exact first_not_ascii hb c hc

/-- The ASCII characters of a lossy text are the ASCII bytes read. -/
theorem mem_decode_ascii {c : Char} (hc : Ascii c) {d : Decoder} (hd : d.Wide)
    {bytes : List UInt8} (h : c ∈ decode d bytes) : c.toUInt8 ∈ bytes := by
  have hfin : ∀ d, c ∉ finish d := fun d hm => finish_not_ascii d c hm hc
  induction bytes generalizing d with
  | nil => exact absurd h (hfin d)
  | cons b bytes ih =>
    rw [decode, List.mem_append] at h
    rcases h with h | h
    · by_cases hb : b ≤ 0x7F
      · rw [step_ascii hd hb, List.mem_append, List.mem_singleton] at h
        rcases h with h | rfl
        · exact absurd h (hfin d)
        · exact List.mem_cons.mpr (Or.inl (charOf_ascii hb).2)
      · exact absurd hc (step_not_ascii hd hb c h)
    · exact List.mem_cons_of_mem b (ih (step_wide hd b) h)

theorem mem_lossy_iff {b : UInt8} (hb : b ≤ 0x7F) (bytes : List UInt8) :
    charOf b.toNat ∈ fromUtf8Lossy bytes ↔ b ∈ bytes := by
  obtain ⟨ha, hu⟩ := charOf_ascii hb
  constructor
  · intro h
    exact hu ▸ mem_decode_ascii ha (show Decoder.start.Wide from trivial) h
  · intro h
    obtain ⟨l, r, rfl⟩ := List.append_of_mem h
    rw [fromUtf8Lossy_append l hb]
    simp

theorem mem_asBytes_iff {c : Char} (hc : Ascii c) (s : Str) : c.toUInt8 ∈ asBytes s ↔ c ∈ s := by
  rw [← mem_lossy_iff (toUInt8_le hc), charOf_toUInt8 hc, fromUtf8Lossy_asBytes]

theorem fromUtf8Lossy_eq_nil_iff {bytes : List UInt8} : fromUtf8Lossy bytes = [] ↔ bytes = [] := by
  constructor
  · intro h
    cases bytes with
    | nil => rfl
    | cons b bytes =>
      by_cases hb : b ≤ 0x7F
      · rw [fromUtf8Lossy_cons hb] at h
        cases h
      · obtain ⟨c, s, hs, _⟩ := fromUtf8Lossy_wide hb bytes
        rw [hs] at h
        cases h
  · rintro rfl
    rfl

theorem fromUtf8Lossy_eq_singleton {bytes : List UInt8} {c : Char} (hc : Ascii c)
    (h : fromUtf8Lossy bytes = [c]) : bytes = [c.toUInt8] := by
  cases bytes with
  | nil => cases h
  | cons b bytes =>
    by_cases hb : b ≤ 0x7F
    · rw [fromUtf8Lossy_cons hb] at h
      obtain ⟨hc', hs⟩ := List.cons.inj h
      rw [← hc', (charOf_ascii hb).2, fromUtf8Lossy_eq_nil_iff.mp hs]
    · obtain ⟨d, s, hs, hd⟩ := fromUtf8Lossy_wide hb bytes
      rw [hs] at h
      obtain ⟨rfl, _⟩ := List.cons.inj h
      exact absurd hc hd

theorem fromUtf8Lossy_feed (line : List UInt8) :
    fromUtf8Lossy (line ++ [10]) = fromUtf8Lossy line ++ ['\n'] :=
  fromUtf8Lossy_append line (by decide) []

/-- ASCII in the midst of bytes is decoded as it is, and cuts the decoding. -/
theorem fromUtf8Lossy_ascii_append {p : List UInt8} (hp : ∀ b ∈ p, b ≤ 0x7F) (hne : p ≠ [])
    (bytes rest : List UInt8) : fromUtf8Lossy (bytes ++ (p ++ rest)) =
      fromUtf8Lossy bytes ++ (fromUtf8Lossy p ++ fromUtf8Lossy rest) := by
  induction p generalizing bytes with
  | nil => exact absurd rfl hne
  | cons b p ih =>
    have hb := hp b (by simp)
    have hp' : ∀ x ∈ p, x ≤ 0x7F := fun x hx => hp x (by simp [hx])
    rw [List.cons_append, fromUtf8Lossy_append bytes hb, fromUtf8Lossy_cons hb, List.cons_append]
    cases p with
    | nil => rfl
    | cons b' p =>
      have hrest := ih hp' (by simp) []
      rw [List.nil_append, fromUtf8Lossy_nil, List.nil_append] at hrest
      rw [hrest]

theorem lossy_ascii {p : List UInt8} (hp : ∀ b ∈ p, b ≤ 0x7F) : AllAscii (fromUtf8Lossy p) := by
  induction p with
  | nil => exact fun _ hc => nomatch hc
  | cons b p ih =>
    intro c hc
    rw [fromUtf8Lossy_cons (hp b (by simp))] at hc
    rcases List.mem_cons.mp hc with rfl | hc
    · exact (charOf_ascii (hp b (by simp))).1
    · exact ih (fun x hx => hp x (by simp [hx])) c hc

theorem valid_ascii {p : List UInt8} (hp : ∀ b ∈ p, b ≤ 0x7F) : Valid p := by
  have h := (valid_ascii_append_iff hp []).mpr rfl
  rwa [List.append_nil] at h

/-- A lower-case ASCII text that occurs in bytes, where case is ignored, is ASCII
there. -/
theorem infix_lower_split {p : Str} (hp : AllAscii p) {bytes : List UInt8}
    (h : asBytes p <:+: bytes.map asciiLower) : ∃ a q b, bytes = a ++ (q ++ b) ∧
      (∀ x ∈ q, x ≤ 0x7F) ∧ q.map asciiLower = asBytes p := by
  obtain ⟨u, v, huv⟩ := h
  obtain ⟨uq, b, rfl, hleft, rfl⟩ := List.map_eq_append_iff.mp huv.symm
  obtain ⟨a, q, rfl, rfl, hq⟩ := List.map_eq_append_iff.mp hleft
  refine ⟨a, q, b, List.append_assoc a q b, ?_, hq⟩
  intro x hx
  by_contra hw
  have hm := List.mem_map_of_mem (f := asciiLower) hx
  rw [hq] at hm
  exact asciiLower_wide hw (asBytes_ascii_le hp _ hm)

theorem ne_nil_of_map_lower {p : Str} (hne : p ≠ []) {q : List UInt8}
    (hq : q.map asciiLower = asBytes p) : q ≠ [] := by
  rintro rfl
  exact asBytes_ne_nil hne hq.symm

/-- It occurs in the lower case of their lossy text. -/
theorem infix_toLowercase_lossy {p : Str} (hp : AllAscii p) (hne : p ≠ []) {bytes : List UInt8}
    (h : asBytes p <:+: bytes.map asciiLower) : p <:+: toLowercase (fromUtf8Lossy bytes) := by
  obtain ⟨a, q, b, rfl, hascii, hq⟩ := infix_lower_split hp h
  have hmap : toLowercase (fromUtf8Lossy q) = p := by
    rw [toLowercase_ascii (lossy_ascii hascii)]
    have hpre : p <+: (fromUtf8Lossy q).map Char.toLower := by
      rw [prefix_lower_lossy_iff hp, hq]
    apply (hpre.eq_of_length_le ?_).symm
    have hlen := congrArg List.length hq
    rw [asBytes_ascii hp, List.length_map, List.length_map] at hlen
    rw [List.length_map, ← hlen]
    exact fromUtf8Lossy_length_le q
  rw [fromUtf8Lossy_ascii_append hascii (ne_nil_of_map_lower hne hq), toLowercase_append,
    toLowercase_append, hmap, ← List.append_assoc]
  exact List.infix_append _ _ _

/-- And in the bytes of their lossy text. -/
theorem infix_lower_lossy {p : Str} (hp : AllAscii p) (hne : p ≠ []) {bytes : List UInt8}
    (h : asBytes p <:+: bytes.map asciiLower) :
    asBytes p <:+: (asBytes (fromUtf8Lossy bytes)).map asciiLower := by
  obtain ⟨a, q, b, rfl, hascii, hq⟩ := infix_lower_split hp h
  have hvalid : asBytes (fromUtf8Lossy q) = q := valid_ascii hascii
  rw [fromUtf8Lossy_ascii_append hascii (ne_nil_of_map_lower hne hq), asBytes_append,
    asBytes_append, hvalid, List.map_append, List.map_append, hq, ← List.append_assoc]
  exact List.infix_append _ _ _

theorem fromUtf8Lossy_concat {b : UInt8} (hb : b ≤ 0x7F) (bytes : List UInt8) :
    fromUtf8Lossy (bytes ++ [b]) = fromUtf8Lossy bytes ++ [charOf b.toNat] :=
  fromUtf8Lossy_append bytes hb []

theorem first_ends {b : UInt8} (hb : ¬ b ≤ 0x7F) : (first b).1 ++ finish (first b).2 ≠ [] := by
  simp only [first, if_neg hb]
  repeat' split
  all_goals simp [finish]

/-- A byte outside ASCII at the end leaves a character outside ASCII there. -/
theorem decode_concat_wide {b : UInt8} (hb : ¬ b ≤ 0x7F) (bytes : List UInt8) {d : Decoder}
    (hd : d.Wide) : ∃ s c, decode d (bytes ++ [b]) = s ++ [c] ∧ ¬ Ascii c := by
  induction bytes generalizing d with
  | nil =>
    have hne : (step d b).1 ++ finish (step d b).2 ≠ [] := by
      cases d with
      | start => exact first_ends hb
      | inside more low high value =>
        simp only [step]
        split
        · cases more <;> simp [finish]
        · simp
    obtain ⟨s, c, hs⟩ := (List.eq_nil_or_concat _).resolve_left hne
    rw [List.concat_eq_append] at hs
    refine ⟨s, c, hs, ?_⟩
    have hc : c ∈ (step d b).1 ++ finish (step d b).2 := by simp [hs]
    rcases List.mem_append.mp hc with hc | hc
    · exact step_not_ascii hd hb c hc
    · exact finish_not_ascii _ c hc
  | cons x bytes ih =>
    obtain ⟨s, c, hs, hc⟩ := ih (step_wide hd x)
    exact ⟨(step d x).1 ++ s, c, by rw [List.cons_append, decode, hs, List.append_assoc], hc⟩

/-- What is stripped off the end of a lossy text is stripped off its bytes. -/
theorem stripLast_lossy {c : Char} (hc : Ascii c) (bytes : List UInt8) :
    stripLast c (fromUtf8Lossy bytes) = fromUtf8Lossy (stripLast c.toUInt8 bytes) := by
  rcases List.eq_nil_or_concat bytes with rfl | ⟨front, b, rfl⟩
  · rfl
  · rw [List.concat_eq_append]
    by_cases hb : b ≤ 0x7F
    · obtain ⟨ha, hu⟩ := charOf_ascii hb
      rw [fromUtf8Lossy_concat hb]
      by_cases he : b = c.toUInt8
      · subst he
        rw [charOf_toUInt8 hc, stripLast_concat, stripLast_concat]
      · have hne : charOf b.toNat ≠ c := by
          rintro rfl
          exact he hu.symm
        simp [stripLast, he, hne, fromUtf8Lossy_concat hb]
    · obtain ⟨s, d, hs, hd⟩ := decode_concat_wide hb front (show Decoder.start.Wide from trivial)
      have hs' : fromUtf8Lossy (front ++ [b]) = s ++ [d] := hs
      have hne : d ≠ c := by
        rintro rfl
        exact hd hc
      have hne' : b ≠ c.toUInt8 := by
        rintro rfl
        exact hb (toUInt8_le hc)
      simp [stripLast, hs', hne, hne']

theorem valid_stripLast_iff {b : UInt8} (hb : b ≤ 0x7F) (bytes : List UInt8) :
    Valid (stripLast b bytes) ↔ Valid bytes := by
  rcases stripLast_cases b bytes with h | ⟨h, _⟩
  · have hnil : Valid [] := rfl
    have hiff := @valid_append_cons_iff (stripLast b bytes) b hb []
    rw [← h] at hiff
    exact (hiff.trans (and_iff_left hnil)).symm
  · rw [← h]

theorem stripLast_asBytes {c : Char} (hc : Ascii c) (s : Str) :
    stripLast c.toUInt8 (asBytes s) = asBytes (stripLast c s) := by
  have hvalid : Valid (stripLast c.toUInt8 (asBytes s)) :=
    (valid_stripLast_iff (toUInt8_le hc) _).mpr (valid_iff.mpr ⟨s, rfl⟩)
  rw [← hvalid, ← stripLast_lossy hc, fromUtf8Lossy_asBytes]

/-- The lines of a lossy text are the lossy lines of its bytes. -/
theorem lossy_splitInclusive (bytes : List UInt8) :
    splitInclusive '\n' (fromUtf8Lossy bytes) = (splitInclusive 10 bytes).map fromUtf8Lossy := by
  have hlf : (10 : UInt8) ≤ 0x7F := by decide
  have hchar : charOf (10 : UInt8).toNat = '\n' := by decide
  induction hn : bytes.length using Nat.strongRecOn generalizing bytes with
  | ind n ih =>
    by_cases hmem : (10 : UInt8) ∈ bytes
    · obtain ⟨line, rest, rfl, hline⟩ := List.eq_append_cons_of_mem hmem
      have hline' := (not_congr (mem_lossy_iff hlf line)).mpr hline
      have hnil := fromUtf8Lossy_append line hlf []
      have hlen : rest.length < n := by
        rw [← hn, List.length_append, List.length_cons]
        omega
      rw [hchar] at hline' hnil
      rw [fromUtf8Lossy_append line hlf, hchar, splitInclusive_line hline', splitInclusive_line hline,
        ih _ hlen rest rfl, List.map_cons, hnil]
      rfl
    · have hmem' := (not_congr (mem_lossy_iff hlf bytes)).mpr hmem
      rw [hchar] at hmem'
      by_cases hnil : bytes = []
      · subst hnil
        rfl
      · rw [splitInclusive_last hmem hnil, splitInclusive_last hmem' ?_]
        · rfl
        · obtain ⟨b, rest, rfl⟩ := List.exists_cons_of_ne_nil hnil
          by_cases hb : b ≤ 0x7F
          · rw [fromUtf8Lossy_cons hb]
            simp
          · obtain ⟨c, s, hs, _⟩ := fromUtf8Lossy_wide hb rest
            rw [hs]
            simp

end DlnaProxy.Lib.Utf8
