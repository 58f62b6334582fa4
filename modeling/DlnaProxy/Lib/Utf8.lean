import Mathlib

/-!
# UTF-8 text as characters

A string slice is its list of characters and `asBytes` its bytes. The decoder is
the byte machine of the lossy conversion: it keeps the range the next byte must
lie in, and a byte outside it ends the sequence read so far as one replacement
character and begins a new one. An ASCII byte is never inside a sequence, so it
cuts the decoding in two (`fromUtf8Lossy_append`).
-/
namespace DlnaProxy.Lib.Utf8

abbrev Str := List Char

/-- What holds of all bytes or characters of a list is decided along the list, not
over the finite type of all bytes or characters. -/
instance (priority := high) decidableAll {α : Type} (p : α → Prop) [DecidablePred p] (s : List α) :
    Decidable (∀ x ∈ s, p x) := List.decidableBAll p s

def asBytes (s : Str) : List UInt8 := s.flatMap String.utf8EncodeChar

def replacement : Char := '\uFFFD'

/-- The character of a code point. The decoder's ranges admit no surrogate and
nothing above the last plane, so the replacement is for totality only. -/
def charOf (n : Nat) : Char :=
  if h : n.isValidChar then Char.ofNatAux n h else replacement

/-- Between two characters, or inside one: `more + 1` bytes are owed, the next
one between `low` and `high`, and `value` holds the bits read so far. -/
inductive Decoder where
  | start
  | inside (more : Nat) (low high : UInt8) (value : Nat)
  deriving DecidableEq

/-- A byte between two characters. -/
def first (b : UInt8) : List Char × Decoder :=
  if b ≤ 0x7F then ([charOf b.toNat], .start)
  else if 0xC2 ≤ b ∧ b ≤ 0xDF then ([], .inside 0 0x80 0xBF (b.toNat % 32))
  else if b = 0xE0 then ([], .inside 1 0xA0 0xBF 0)
  else if b = 0xED then ([], .inside 1 0x80 0x9F 13)
  else if 0xE1 ≤ b ∧ b ≤ 0xEF then ([], .inside 1 0x80 0xBF (b.toNat % 16))
  else if b = 0xF0 then ([], .inside 2 0x90 0xBF 0)
  else if b = 0xF4 then ([], .inside 2 0x80 0x8F 4)
  else if 0xF1 ≤ b ∧ b ≤ 0xF3 then ([], .inside 2 0x80 0xBF (b.toNat % 8))
  else ([replacement], .start)

def step : Decoder → UInt8 → List Char × Decoder
  | .start, b => first b
  | .inside more low high value, b =>
    if low ≤ b ∧ b ≤ high then
      match more with
      | 0 => ([charOf (value * 64 + b.toNat % 64)], .start)
      | more + 1 => ([], .inside more 0x80 0xBF (value * 64 + b.toNat % 64))
    else (replacement :: (first b).1, (first b).2)

/-- A sequence cut short by the end of the bytes is one replacement character. -/
def finish : Decoder → List Char
  | .start => []
  | .inside .. => [replacement]

def decode : Decoder → List UInt8 → Str
  | d, [] => finish d
  | d, b :: bs => (step d b).1 ++ decode (step d b).2 bs

/-- `String::from_utf8_lossy`. -/
def fromUtf8Lossy (bytes : List UInt8) : Str := decode .start bytes

/-- `str::from_utf8`: the text of which these are the bytes, if there is one. -/
def fromUtf8 (bytes : List UInt8) : Option Str :=
  if asBytes (fromUtf8Lossy bytes) = bytes then some (fromUtf8Lossy bytes) else none

def Ascii (c : Char) : Prop := c.toNat < 128

instance (c : Char) : Decidable (Ascii c) := inferInstanceAs (Decidable (c.toNat < 128))

/-! ## The bytes of a text -/

@[simp] theorem asBytes_nil : asBytes [] = [] := rfl

@[simp] theorem asBytes_cons (c : Char) (s : Str) :
    asBytes (c :: s) = String.utf8EncodeChar c ++ asBytes s := rfl

@[simp] theorem asBytes_append (s t : Str) : asBytes (s ++ t) = asBytes s ++ asBytes t := by
  simp [asBytes]

theorem encodeChar_ascii {c : Char} (h : Ascii c) : String.utf8EncodeChar c = [c.toUInt8] := by
  have hc : c.val.toNat ≤ 127 := Nat.le_of_lt_succ h
  simp only [String.utf8EncodeChar, hc, ↓reduceIte]
  rfl

theorem encodeChar_wide {c : Char} (h : ¬ Ascii c) :
    ∀ b ∈ String.utf8EncodeChar c, 0x80 ≤ b := by
  have hc : ¬ c.val.toNat ≤ 127 := fun hle => h (Nat.lt_succ_of_le hle)
  simp only [String.utf8EncodeChar, hc, ↓reduceIte]
  intro b hb
  rw [UInt8.le_iff_toNat_le]
  split at hb
  · simp only [List.mem_cons, List.not_mem_nil, or_false] at hb
    rcases hb with rfl | rfl <;> simp <;> omega
  split at hb
  · simp only [List.mem_cons, List.not_mem_nil, or_false] at hb
    rcases hb with rfl | rfl | rfl <;> simp <;> omega
  · simp only [List.mem_cons, List.not_mem_nil, or_false] at hb
    rcases hb with rfl | rfl | rfl | rfl <;> simp <;> omega

theorem encodeChar_ne_nil (c : Char) : String.utf8EncodeChar c ≠ [] := by
  rw [ne_eq, ← List.length_eq_zero_iff, String.length_utf8EncodeChar]
  exact Nat.ne_of_gt c.utf8Size_pos

theorem asBytes_length_le (s : Str) : (asBytes s).length ≤ 4 * s.length := by
  induction s with
  | nil => simp
  | cons c s ih =>
    have hc := c.utf8Size_le_four
    simp only [asBytes_cons, List.length_append, String.length_utf8EncodeChar, List.length_cons]
    omega

/-! ## Decoding what was encoded -/

theorem charOf_toNat (c : Char) : charOf c.toNat = c := by
  have h : c.toNat.isValidChar := c.valid
  rw [charOf, dif_pos h]
  exact Char.ext (by simp [Char.ofNatAux]; rfl)

theorem first_ascii {b : UInt8} (h : b ≤ 0x7F) : first b = ([charOf b.toNat], .start) := by
  simp [first, h]

/-- Every sequence expects continuation bytes, and what it stands for is no ASCII
character. -/
def Decoder.Wide : Decoder → Prop
  | .start => True
  | .inside more low high value =>
    0x80 ≤ low ∧ high ≤ 0xBF ∧ 128 ≤ (value * 64 + low.toNat % 64) * 64 ^ more

theorem first_wide (b : UInt8) : (first b).2.Wide := by
  unfold first
  split
  · trivial
  split
  · next h =>
    have h1 := UInt8.le_iff_toNat_le.mp h.1
    have h2 := UInt8.le_iff_toNat_le.mp h.2
    simp at h1 h2
    exact ⟨by decide, by decide, by simp; omega⟩
  split
  · exact ⟨by decide, by decide, by decide⟩
  split
  · exact ⟨by decide, by decide, by decide⟩
  split
  · next h =>
    have h1 := UInt8.le_iff_toNat_le.mp h.1
    have h2 := UInt8.le_iff_toNat_le.mp h.2
    simp at h1 h2
    exact ⟨by decide, by decide, by simp; omega⟩
  split
  · exact ⟨by decide, by decide, by decide⟩
  split
  · exact ⟨by decide, by decide, by decide⟩
  split
  · next h =>
    have h1 := UInt8.le_iff_toNat_le.mp h.1
    have h2 := UInt8.le_iff_toNat_le.mp h.2
    simp at h1 h2
    exact ⟨by decide, by decide, by simp; omega⟩
  · trivial

theorem low_bits_le {low b : UInt8} (h : 0x80 ≤ low) (hb : low ≤ b) (hb' : b ≤ 0xBF) :
    low.toNat % 64 ≤ b.toNat % 64 := by
  rw [UInt8.le_iff_toNat_le] at *
  simp at *
  omega

/-- An ASCII byte ends whatever sequence it meets. -/
theorem step_ascii {d : Decoder} (hd : d.Wide) {b : UInt8} (h : b ≤ 0x7F) :
    step d b = (finish d ++ [charOf b.toNat], .start) := by
  cases d with
  | start => exact first_ascii h
  | inside more low high value =>
    have hlow : ¬ (low ≤ b ∧ b ≤ high) := by
      have hlow := hd.1
      rw [UInt8.le_iff_toNat_le] at *
      simp at *
      omega
    simp [step, hlow, first_ascii h, finish]

theorem step_wide {d : Decoder} (hd : d.Wide) (b : UInt8) : (step d b).2.Wide := by
  cases d with
  | start => exact first_wide b
  | inside more low high value =>
    obtain ⟨hlow, hhigh, hval⟩ := hd
    simp only [step]
    split
    · next hb =>
      cases more with
      | zero => trivial
      | succ more =>
        refine ⟨by decide, by decide, ?_⟩
        have hbits := low_bits_le hlow hb.1 (UInt8.le_trans hb.2 hhigh)
        calc 128 ≤ (value * 64 + low.toNat % 64) * 64 ^ (more + 1) := hval
          _ ≤ (value * 64 + b.toNat % 64) * 64 ^ (more + 1) :=
            Nat.mul_le_mul_right _ (Nat.add_le_add_left hbits _)
          _ = ((value * 64 + b.toNat % 64) * 64 + (0x80 : UInt8).toNat % 64) * 64 ^ more := by
            rw [Nat.pow_succ]
            simp [Nat.mul_assoc, Nat.mul_comm 64]
    · exact first_wide b

/-- **An ASCII byte cuts the decoding in two.** -/
theorem decode_append {d : Decoder} (hd : d.Wide) (bytes : List UInt8) {b : UInt8} (h : b ≤ 0x7F)
    (rest : List UInt8) :
    decode d (bytes ++ b :: rest) = decode d bytes ++ charOf b.toNat :: decode .start rest := by
  induction bytes generalizing d with
  | nil => simp [decode, step_ascii hd h]
  | cons x bytes ih => simp [decode, ih (step_wide hd x)]

theorem fromUtf8Lossy_append (bytes : List UInt8) {b : UInt8} (h : b ≤ 0x7F) (rest : List UInt8) :
    fromUtf8Lossy (bytes ++ b :: rest) =
      fromUtf8Lossy bytes ++ charOf b.toNat :: fromUtf8Lossy rest :=
  decode_append (show Decoder.start.Wide from trivial) bytes h rest

@[simp] theorem fromUtf8Lossy_nil : fromUtf8Lossy [] = [] := rfl

theorem fromUtf8Lossy_cons {b : UInt8} (h : b ≤ 0x7F) (rest : List UInt8) :
    fromUtf8Lossy (b :: rest) = charOf b.toNat :: fromUtf8Lossy rest :=
  fromUtf8Lossy_append [] h rest

theorem charOf_not_ascii {n : Nat} (h : 128 ≤ n) : ¬ Ascii (charOf n) := by
  unfold charOf
  split
  · next hv =>
    have : (Char.ofNatAux n hv).toNat = n := by
      simp [Char.ofNatAux, Char.toNat]
    unfold Ascii
    omega
  · decide

theorem charOf_ascii {b : UInt8} (h : b ≤ 0x7F) : Ascii (charOf b.toNat) ∧
    (charOf b.toNat).toUInt8 = b := by
  have hb := UInt8.le_iff_toNat_le.mp h
  simp at hb
  have hv : b.toNat.isValidChar := Or.inl (by omega)
  have hn : (charOf b.toNat).toNat = b.toNat := by
    rw [charOf, dif_pos hv]
    simp [Char.ofNatAux, Char.toNat]
  refine ⟨by unfold Ascii; omega, ?_⟩
  apply UInt8.toNat_inj.mp
  have h8 : (charOf b.toNat).toUInt8.toNat = (charOf b.toNat).toNat % 256 := rfl
  omega

/-- A sequence of several bytes decodes to no ASCII character first. -/
theorem decode_inside_wide {more : Nat} {low high : UInt8} {value : Nat}
    (hd : (Decoder.inside more low high value).Wide) (bytes : List UInt8) :
    ∃ c s, decode (.inside more low high value) bytes = c :: s ∧ ¬ Ascii c := by
  induction bytes generalizing more low high value with
  | nil => exact ⟨replacement, [], rfl, by decide⟩
  | cons b bytes ih =>
    have hw := step_wide hd b
    obtain ⟨hlow, hhigh, hval⟩ := hd
    simp only [decode, step] at hw ⊢
    split
    · next hb =>
      rw [if_pos hb] at hw
      cases more with
      | zero =>
        have hbits := low_bits_le hlow hb.1 (UInt8.le_trans hb.2 hhigh)
        exact ⟨_, _, rfl, charOf_not_ascii (by simp at hval; omega)⟩
      | succ more => exact ih hw
    · exact ⟨replacement, _, rfl, by decide⟩

theorem fromUtf8Lossy_wide {b : UInt8} (h : ¬ b ≤ 0x7F) (rest : List UInt8) :
    ∃ c s, fromUtf8Lossy (b :: rest) = c :: s ∧ ¬ Ascii c := by
  have hw := first_wide b
  have hfirst : (∃ s, (first b).1 = replacement :: s) ∨
      ∃ more low high value, first b = ([], .inside more low high value) := by
    simp only [first, if_neg h]
    repeat' split
    all_goals first
      | exact Or.inr ⟨_, _, _, _, rfl⟩
      | exact Or.inl ⟨[], rfl⟩
  rcases hfirst with ⟨s, hs⟩ | ⟨more, low, high, value, hs⟩
  · refine ⟨replacement, s ++ decode (first b).2 rest, ?_, by decide⟩
    simp [fromUtf8Lossy, decode, step, hs]
  · rw [hs] at hw
    simpa [fromUtf8Lossy, decode, step, hs] using decode_inside_wide hw rest

theorem first_two : ∀ k < 32, 2 ≤ k →
    first (UInt8.ofNat (k + 192)) = ([], .inside 0 0x80 0xBF k) := by decide

theorem first_three : ∀ k < 16, first (UInt8.ofNat (k + 224)) =
    ([], .inside 1 (if k = 0 then 0xA0 else 0x80) (if k = 13 then 0x9F else 0xBF) k) := by decide

theorem first_four : ∀ k < 5, first (UInt8.ofNat (k + 240)) =
    ([], .inside 2 (if k = 0 then 0x90 else 0x80) (if k = 4 then 0x8F else 0xBF) k) := by decide

theorem step_inside (more : Nat) {low high : UInt8} (value : Nat) {m : Nat} (hm : m < 64)
    (hlow : low.toNat ≤ m + 128) (hhigh : m + 128 ≤ high.toNat) :
    step (.inside more low high value) (UInt8.ofNat (m + 128)) =
      match more with
      | 0 => ([charOf (value * 64 + m)], .start)
      | more + 1 => ([], .inside more 0x80 0xBF (value * 64 + m)) := by
  have hb : (UInt8.ofNat (m + 128)).toNat = m + 128 := by simp; omega
  have hbits : (m + 128) % 64 = m := by omega
  have hin : low ≤ UInt8.ofNat (m + 128) ∧ UInt8.ofNat (m + 128) ≤ high := by
    rw [UInt8.le_iff_toNat_le, UInt8.le_iff_toNat_le, hb]
    exact ⟨hlow, hhigh⟩
  cases more <;> simp only [step, if_pos hin, hb, hbits]

theorem step_tail (more : Nat) (value : Nat) {m : Nat} (hm : m < 64) :
    step (.inside more 0x80 0xBF value) (UInt8.ofNat (m + 128)) =
      match more with
      | 0 => ([charOf (value * 64 + m)], .start)
      | more + 1 => ([], .inside more 0x80 0xBF (value * 64 + m)) :=
  step_inside more value hm (by simp) (by simp; omega)

/-- An encoded character decodes to itself, whatever follows. -/
theorem decode_encodeChar (c : Char) (rest : List UInt8) :
    decode .start (String.utf8EncodeChar c ++ rest) = c :: decode .start rest := by
  have hv : c.toNat.isValidChar := c.valid
  have hchar := charOf_toNat c
  simp only [String.utf8EncodeChar, Char.toNat_val]
  generalize c.toNat = n at *
  by_cases h1 : n ≤ 127
  · have hn : (UInt8.ofNat n).toNat = n := by simp; omega
    have hb : UInt8.ofNat n ≤ 0x7F := by rw [UInt8.le_iff_toNat_le, hn]; exact h1
    simp [h1, decode, step, first_ascii hb, hn, hchar]
  by_cases h2 : n ≤ 2047
  · have hf := first_two (n / 64 % 32) (by omega) (by omega)
    have hn : n / 64 % 32 * 64 + n % 64 = n := by omega
    simp only [h1, h2, ↓reduceIte, List.cons_append, List.nil_append, decode]
    rw [step, hf, step_tail 0 _ (Nat.mod_lt _ (by decide))]
    simp [hn, hchar]
  by_cases h3 : n ≤ 65535
  · have hf := first_three (n / 4096 % 16) (by omega)
    have hn : (n / 4096 % 16 * 64 + n / 64 % 64) * 64 + n % 64 = n := by omega
    have hlow : (if n / 4096 % 16 = 0 then (0xA0 : UInt8) else 0x80).toNat ≤ n / 64 % 64 + 128 := by
      split
      · simp; omega
      · simp
    have hhigh : n / 64 % 64 + 128 ≤ (if n / 4096 % 16 = 13 then (0x9F : UInt8) else 0xBF).toNat := by
      rcases hv with hv | hv <;> split <;> simp <;> omega
    simp only [h1, h2, h3, ↓reduceIte, List.cons_append, List.nil_append, decode]
    rw [step, hf, step_inside 1 _ (Nat.mod_lt _ (by decide)) hlow hhigh,
      step_tail 0 _ (Nat.mod_lt _ (by decide))]
    simp [hn, hchar]
  · have hlt : n < 0x110000 := by rcases hv with hv | hv <;> omega
    have hf := first_four (n / 262144 % 8) (by omega)
    have hn : ((n / 262144 % 8 * 64 + n / 4096 % 64) * 64 + n / 64 % 64) * 64 + n % 64 = n := by omega
    have hlow : (if n / 262144 % 8 = 0 then (0x90 : UInt8) else 0x80).toNat ≤
        n / 4096 % 64 + 128 := by
      split
      · simp; omega
      · simp
    have hhigh : n / 4096 % 64 + 128 ≤
        (if n / 262144 % 8 = 4 then (0x8F : UInt8) else 0xBF).toNat := by
      split
      · simp; omega
      · simp; omega
    simp only [h1, h2, h3, ↓reduceIte, List.cons_append, List.nil_append, decode]
    rw [step, hf, step_inside 2 _ (Nat.mod_lt _ (by decide)) hlow hhigh,
      step_tail 1 _ (Nat.mod_lt _ (by decide)), step_tail 0 _ (Nat.mod_lt _ (by decide))]
    simp [hn, hchar]

theorem fromUtf8Lossy_encode_append (s : Str) (rest : List UInt8) :
    fromUtf8Lossy (asBytes s ++ rest) = s ++ fromUtf8Lossy rest := by
  induction s with
  | nil => rfl
  | cons c s ih =>
    rw [asBytes_cons, List.append_assoc, fromUtf8Lossy, decode_encodeChar]
    exact congrArg (c :: ·) ih

@[simp] theorem fromUtf8Lossy_asBytes (s : Str) : fromUtf8Lossy (asBytes s) = s := by
  simpa using fromUtf8Lossy_encode_append s []

theorem asBytes_injective : Function.Injective asBytes := fun s t h => by
  rw [← fromUtf8Lossy_asBytes s, h, fromUtf8Lossy_asBytes]

/-- The bytes that are a text. -/
def Valid (bytes : List UInt8) : Prop := asBytes (fromUtf8Lossy bytes) = bytes

instance (bytes : List UInt8) : Decidable (Valid bytes) :=
  inferInstanceAs (Decidable (asBytes (fromUtf8Lossy bytes) = bytes))

theorem valid_iff {bytes : List UInt8} : Valid bytes ↔ ∃ s, asBytes s = bytes :=
  ⟨fun h => ⟨_, h⟩, fun ⟨s, hs⟩ => by rw [← hs, Valid, fromUtf8Lossy_asBytes]⟩

theorem fromUtf8_eq_some {bytes : List UInt8} {s : Str} :
    fromUtf8 bytes = some s ↔ asBytes s = bytes := by
  unfold fromUtf8
  split
  · next h =>
    rw [Option.some.injEq]
    exact ⟨fun hs => hs ▸ h, fun hs => by rw [← hs, fromUtf8Lossy_asBytes]⟩
  · next h =>
    exact ⟨fun hs => (nomatch hs), fun hs => absurd (valid_iff.mpr ⟨s, hs⟩) h⟩

theorem first_length (b : UInt8) : (first b).1.length + (finish (first b).2).length ≤ 1 := by
  unfold first
  repeat' split
  all_goals simp [finish]

theorem step_length (d : Decoder) (b : UInt8) :
    (step d b).1.length + (finish (step d b).2).length ≤ 1 + (finish d).length := by
  have hf := first_length b
  cases d with
  | start => exact hf
  | inside more low high value =>
    simp only [step]
    split
    · cases more <;> simp [finish]
    · have hi : (finish (.inside more low high value)).length = 1 := rfl
      simp only [List.length_cons, hi]
      omega

theorem decode_length_le (d : Decoder) (bytes : List UInt8) :
    (decode d bytes).length ≤ bytes.length + (finish d).length := by
  induction bytes generalizing d with
  | nil => simp [decode]
  | cons b bytes ih =>
    have hs := step_length d b
    have ht := ih (step d b).2
    simp only [decode, List.length_append, List.length_cons]
    omega

/-- Each character of a lossy text stands for at least one byte. -/
theorem fromUtf8Lossy_length_le (bytes : List UInt8) :
    (fromUtf8Lossy bytes).length ≤ bytes.length :=
  decode_length_le .start bytes

end DlnaProxy.Lib.Utf8
