import DlnaProxy.Lib.Text

/-!
# Numbers in text

Reading an unsigned integer as the standard library does, digit by digit, and
printing one. A `Numeral` is a non-empty text of digits with the number it spells;
reading succeeds on it just where that number fits.
-/
namespace DlnaProxy.Lib.Utf8

/-- `char::to_digit`. -/
def toDigit (radix : Nat) (c : Char) : Option Nat :=
  let n := c.toNat
  let digit :=
    if 0x30 ≤ n ∧ n ≤ 0x39 then n - 0x30
    else if 0x61 ≤ n ∧ n ≤ 0x7A then n - 0x61 + 10
    else if 0x41 ≤ n ∧ n ≤ 0x5A then n - 0x41 + 10
    else radix
  if digit < radix then some digit else none

inductive IntErrorKind where
  | empty
  | invalidDigit
  | posOverflow
  deriving DecidableEq, Repr

def IntErrorKind.display : IntErrorKind → Str
  | .empty => "cannot parse integer from empty string".toList
  | .invalidDigit => "invalid digit found in string".toList
  | .posOverflow => "number too large to fit in target type".toList

/-- Reads digits after the value `n` read so far. -/
def readDigits (bits radix : Nat) : Nat → Str → Except IntErrorKind Nat
  | n, [] => .ok n
  | n, c :: s =>
    match toDigit radix c with
    | none => .error .invalidDigit
    | some d =>
      if n * radix + d < 2 ^ bits then readDigits bits radix (n * radix + d) s
      else .error .posOverflow

/-- `from_str_radix` of an unsigned integer of `bits` bits. A sign alone is no
number, and a minus sign is no digit. -/
def fromStrRadix (bits radix : Nat) : Str → Except IntErrorKind Nat
  | [] => .error .empty
  | ['+'] => .error .invalidDigit
  | '+' :: s => readDigits bits radix 0 s
  | s => readDigits bits radix 0 s

/-- The number a list of digits spells after `n`. -/
def ofDigits (radix n : Nat) (ds : List Nat) : Nat := ds.foldl (fun n d => n * radix + d) n

/-- `{}` of an unsigned integer. -/
def decimal (n : Nat) : Str := Nat.toDigits 10 n

/-- `{:x}` of an unsigned integer. -/
def hex (n : Nat) : Str := Nat.toDigits 16 n

theorem toDigit_digitChar : ∀ radix ≤ 16, ∀ n < radix, toDigit radix n.digitChar = some n := by
  decide

theorem ofDigits_ge {radix : Nat} (h : 0 < radix) (n : Nat) (ds : List Nat) :
    n ≤ ofDigits radix n ds := by
  induction ds generalizing n with
  | nil => exact Nat.le_refl n
  | cons d ds ih =>
    calc n ≤ n * radix := Nat.le_mul_of_pos_right n h
      _ ≤ n * radix + d := Nat.le_add_right _ _
      _ ≤ ofDigits radix n (d :: ds) := ih _

/-- Digits are read as the number they spell, if it fits. -/
theorem readDigits_eq_ok_iff {bits radix : Nat} (h : 0 < radix) {n : Nat} (hn : n < 2 ^ bits)
    {s : Str} {v : Nat} : readDigits bits radix n s = .ok v ↔
      ∃ ds, s.mapM (toDigit radix) = some ds ∧ ofDigits radix n ds = v ∧ v < 2 ^ bits := by
  induction s generalizing n with
  | nil =>
    simp only [readDigits, List.mapM_nil, Except.ok.injEq]
    constructor
    · rintro rfl
      exact ⟨[], rfl, rfl, hn⟩
    · rintro ⟨ds, hds, hv, _⟩
      cases hds
      exact hv
  | cons c s ih =>
    simp only [readDigits, List.mapM_cons]
    cases hc : toDigit radix c with
    | none => simp
    | some d =>
      by_cases hlt : n * radix + d < 2 ^ bits
      · simp only [hlt, ↓reduceIte]
        rw [ih hlt]
        constructor
        · rintro ⟨ds, hds, hv⟩
          exact ⟨d :: ds, by simp [hds], hv⟩
        · rintro ⟨ds, hds, hv⟩
          cases hs : s.mapM (toDigit radix) with
          | none => simp [hs] at hds
          | some ds' =>
            obtain rfl : d :: ds' = ds := by simpa [hs] using hds
            exact ⟨ds', rfl, hv⟩
      · simp only [hlt, ↓reduceIte]
        refine iff_of_false (by simp) ?_
        rintro ⟨ds, hds, hv, hfit⟩
        cases hs : s.mapM (toDigit radix) with
        | none => simp [hs] at hds
        | some ds' =>
          obtain rfl : d :: ds' = ds := by simpa [hs] using hds
          have hge : n * radix + d ≤ ofDigits radix (n * radix + d) ds' := ofDigits_ge h _ ds'
          have hv' : ofDigits radix (n * radix + d) ds' = v := hv
          omega

theorem mapM_toDigit_toDigits {radix : Nat} (h : 1 < radix) (h16 : radix ≤ 16) (n : Nat) :
    ∃ ds, (Nat.toDigits radix n).mapM (toDigit radix) = some ds ∧ ofDigits radix 0 ds = n := by
  induction n using Nat.strongRecOn with
  | ind n ih =>
    rw [Nat.toDigits_eq_if h]
    split
    · next hn => exact ⟨[n], by simp [toDigit_digitChar radix h16 n hn], by simp [ofDigits]⟩
    · next hn =>
      have hpos : 0 < n := by omega
      obtain ⟨ds, hds, hv⟩ := ih (n / radix) (Nat.div_lt_self hpos h)
      have hmod := toDigit_digitChar radix h16 (n % radix) (Nat.mod_lt n (by omega))
      refine ⟨ds ++ [n % radix], ?_, ?_⟩
      · rw [List.mapM_append, hds]
        simp [hmod]
      · have hfold : ofDigits radix 0 (ds ++ [n % radix]) = ofDigits radix 0 ds * radix + n % radix := by
          simp [ofDigits]
        rw [hfold, hv]
        exact Nat.div_add_mod' n radix

/-- An ASCII letter or digit. -/
def AlphaNum (c : Char) : Prop :=
  (0x30 ≤ c.toNat ∧ c.toNat ≤ 0x39) ∨ (0x61 ≤ c.toNat ∧ c.toNat ≤ 0x7A) ∨
    (0x41 ≤ c.toNat ∧ c.toNat ≤ 0x5A)

instance (c : Char) : Decidable (AlphaNum c) :=
  inferInstanceAs (Decidable ((0x30 ≤ c.toNat ∧ c.toNat ≤ 0x39) ∨
    (0x61 ≤ c.toNat ∧ c.toNat ≤ 0x7A) ∨ (0x41 ≤ c.toNat ∧ c.toNat ≤ 0x5A)))

theorem AlphaNum.ascii {c : Char} (h : AlphaNum c) : Ascii c := by
  unfold AlphaNum at h
  unfold Ascii
  omega

theorem AlphaNum.not_whitespace {c : Char} (h : AlphaNum c) : isWhitespace c = false := by
  unfold AlphaNum at h
  simp only [isWhitespace, Bool.or_eq_false_iff, Bool.and_eq_false_iff, decide_eq_false_iff_not,
    beq_eq_false_iff_ne]
  omega

theorem AlphaNum.ne {c d : Char} (h : AlphaNum c) (hd : ¬ AlphaNum d) : c ≠ d :=
  fun he => hd (he ▸ h)

theorem toDigit_alphaNum {radix : Nat} {c : Char} {d : Nat} (h : toDigit radix c = some d) :
    AlphaNum c := by
  by_contra hw
  unfold AlphaNum at hw
  have h9 : ¬ (0x30 ≤ c.toNat ∧ c.toNat ≤ 0x39) := fun hc => hw (Or.inl hc)
  have hz : ¬ (0x61 ≤ c.toNat ∧ c.toNat ≤ 0x7A) := fun hc => hw (Or.inr (Or.inl hc))
  have hZ : ¬ (0x41 ≤ c.toNat ∧ c.toNat ≤ 0x5A) := fun hc => hw (Or.inr (Or.inr hc))
  simp only [toDigit, if_neg h9, if_neg hz, if_neg hZ, Nat.lt_irrefl, ↓reduceIte] at h
  cases h

theorem mapM_toDigit_alphaNum {radix : Nat} {s : Str} {ds : List Nat}
    (h : s.mapM (toDigit radix) = some ds) : ∀ c ∈ s, AlphaNum c := by
  induction s generalizing ds with
  | nil => simp
  | cons c s ih =>
    rw [List.mapM_cons] at h
    cases hc : toDigit radix c with
    | none => simp [hc] at h
    | some d =>
      cases hs : s.mapM (toDigit radix) with
      | none => simp [hc, hs] at h
      | some ds =>
        intro x hx
        rcases List.mem_cons.mp hx with rfl | hx
        · exact toDigit_alphaNum hc
        · exact ih hs x hx

theorem mapM_toDigit_take {radix : Nat} {s : Str} {ds : List Nat}
    (h : s.mapM (toDigit radix) = some ds) (k : Nat) :
    (s.take k).mapM (toDigit radix) = some (ds.take k) := by
  induction s generalizing ds k with
  | nil =>
    obtain rfl : [] = ds := by simpa using h
    simp
  | cons c s ih =>
    rw [List.mapM_cons] at h
    cases hc : toDigit radix c with
    | none => simp [hc] at h
    | some d =>
      cases hs : s.mapM (toDigit radix) with
      | none => simp [hc, hs] at h
      | some ds' =>
        obtain rfl : d :: ds' = ds := by simpa [hc, hs] using h
        cases k with
        | zero => simp
        | succ k => simp [hc, ih hs k]

theorem mapM_toDigit_mem {radix : Nat} {s : Str} {ds : List Nat}
    (h : s.mapM (toDigit radix) = some ds) : ∀ c ∈ s, ∃ d ∈ ds, toDigit radix c = some d := by
  induction s generalizing ds with
  | nil => simp
  | cons c s ih =>
    rw [List.mapM_cons] at h
    cases hc : toDigit radix c with
    | none => simp [hc] at h
    | some d =>
      cases hs : s.mapM (toDigit radix) with
      | none => simp [hc, hs] at h
      | some ds' =>
        obtain rfl : d :: ds' = ds := by simpa [hc, hs] using h
        intro x hx
        rcases List.mem_cons.mp hx with rfl | hx
        · exact ⟨d, by simp, hc⟩
        · obtain ⟨e, he, hxe⟩ := ih hs x hx
          exact ⟨e, by simp [he], hxe⟩

theorem ofDigits_mem_le {radix : Nat} (h : 0 < radix) (n : Nat) {ds : List Nat} {d : Nat}
    (hd : d ∈ ds) : d ≤ ofDigits radix n ds := by
  induction ds generalizing n with
  | nil => cases hd
  | cons e ds ih =>
    rcases List.mem_cons.mp hd with rfl | hd
    · calc d ≤ n * radix + d := Nat.le_add_left _ _
        _ ≤ ofDigits radix n (d :: ds) := ofDigits_ge h _ ds
    · exact ih _ hd

theorem toDigit_eq_zero {radix : Nat} {c : Char} (h : toDigit radix c = some 0) : c = '0' := by
  have hn : c.toNat = 0x30 := by
    simp only [toDigit, Option.ite_none_right_eq_some, Option.some.injEq] at h
    obtain ⟨_, hd⟩ := h
    repeat' split at hd
    all_goals omega
  exact Char.toNat_inj.mp hn

theorem toDigits_alphaNum {radix : Nat} (h : 1 < radix) (h16 : radix ≤ 16) (n : Nat) :
    ∀ c ∈ Nat.toDigits radix n, AlphaNum c := by
  obtain ⟨ds, hds, _⟩ := mapM_toDigit_toDigits h h16 n
  exact mapM_toDigit_alphaNum hds

theorem toDigits_injective {radix : Nat} (h : 1 < radix) (h16 : radix ≤ 16) :
    Function.Injective (Nat.toDigits radix) := by
  intro a b hab
  obtain ⟨ds, hds, ha⟩ := mapM_toDigit_toDigits h h16 a
  obtain ⟨ds', hds', hb⟩ := mapM_toDigit_toDigits h h16 b
  rw [hab, hds', Option.some.injEq] at hds
  rw [← ha, ← hb, hds]

theorem toDigits_digit {radix : Nat} (h : 1 < radix) (h16 : radix ≤ 16) (n : Nat) :
    ∀ c ∈ Nat.toDigits radix n, (toDigit radix c).isSome := by
  obtain ⟨ds, hds, _⟩ := mapM_toDigit_toDigits h h16 n
  intro c hc
  obtain ⟨d, _, hd⟩ := mapM_toDigit_mem hds c hc
  rw [hd]
  rfl

/-- A text that starts with no plus sign is read as its digits. -/
theorem fromStrRadix_eq {bits radix : Nat} {s : Str} (hne : s ≠ []) (hplus : ∀ t, s ≠ '+' :: t) :
    fromStrRadix bits radix s = readDigits bits radix 0 s := by
  unfold fromStrRadix
  split
  · exact absurd rfl hne
  · exact absurd rfl (hplus _)
  · exact absurd rfl (hplus _)
  · rfl

/-- Digits of a radix, as a text. -/
structure Numeral (radix : Nat) where
  text : Str
  digits : List Nat
  nonempty : text ≠ []
  spells : text.mapM (toDigit radix) = some digits

namespace Numeral

variable {radix : Nat} (n : Numeral radix)

def value : Nat := ofDigits radix 0 n.digits

/-- The numeral an unsigned integer is printed as. -/
theorem exists_toDigits (h : 1 < radix) (h16 : radix ≤ 16) (v : Nat) :
    ∃ n : Numeral radix, n.text = Nat.toDigits radix v ∧ n.value = v := by
  obtain ⟨ds, hds, hv⟩ := mapM_toDigit_toDigits h h16 v
  exact ⟨⟨_, ds, Nat.toDigits_ne_nil, hds⟩, rfl, hv⟩

theorem alphaNum : ∀ c ∈ n.text, AlphaNum c := mapM_toDigit_alphaNum n.spells

theorem read_eq_ok_iff (h : 0 < radix) {bits v : Nat} :
    fromStrRadix bits radix n.text = .ok v ↔ n.value = v ∧ n.value < 2 ^ bits := by
  have hplus : ∀ t, n.text ≠ '+' :: t := by
    intro t ht
    exact absurd (n.alphaNum '+' (by simp [ht])) (by decide)
  rw [fromStrRadix_eq n.nonempty hplus, readDigits_eq_ok_iff h (Nat.two_pow_pos bits), n.spells]
  constructor
  · rintro ⟨ds, hds, hv, hfit⟩
    obtain rfl : n.digits = ds := Option.some.inj hds
    exact ⟨hv, lt_of_eq_of_lt hv hfit⟩
  · rintro ⟨hv, hfit⟩
    exact ⟨n.digits, rfl, hv, hv ▸ hfit⟩

end Numeral

/-- A text is read as a number just where it is a numeral that fits, with a plus
sign before it or without. -/
theorem fromStrRadix_eq_ok_iff {bits radix : Nat} (h : 0 < radix) {s : Str} {v : Nat} :
    fromStrRadix bits radix s = .ok v ↔ ∃ (sign : Str) (n : Numeral radix),
      (sign = [] ∨ sign = ['+']) ∧ s = sign ++ n.text ∧ n.value = v ∧ v < 2 ^ bits := by
  constructor
  · intro hread
    have hdigits : ∀ text : Str, text ≠ [] → readDigits bits radix 0 text = .ok v →
        ∃ n : Numeral radix, text = n.text ∧ n.value = v ∧ v < 2 ^ bits := by
      intro text hne hok
      obtain ⟨ds, hds, hv, hfit⟩ := (readDigits_eq_ok_iff h (Nat.two_pow_pos bits)).mp hok
      exact ⟨⟨text, ds, hne, hds⟩, rfl, hv, hfit⟩
    unfold fromStrRadix at hread
    split at hread
    · cases hread
    · cases hread
    · next text hplus =>
      obtain ⟨n, rfl, hv⟩ := hdigits text (fun hnil => hplus (by rw [hnil])) hread
      exact ⟨['+'], n, Or.inr rfl, rfl, hv⟩
    · next hnil _ _ =>
      obtain ⟨n, htext, hv⟩ := hdigits s hnil hread
      exact ⟨[], n, Or.inl rfl, htext, hv⟩
  · rintro ⟨sign, n, hsign, rfl, rfl, hfit⟩
    have hread := (n.read_eq_ok_iff h).mpr ⟨rfl, hfit⟩
    rcases hsign with rfl | rfl
    · exact hread
    · have hplus : ∀ t, n.text ≠ '+' :: t := by
        intro t ht
        exact absurd (n.alphaNum '+' (by simp [ht])) (by decide)
      rw [fromStrRadix_eq n.nonempty hplus] at hread
      obtain ⟨c, text, htext⟩ := List.exists_cons_of_ne_nil n.nonempty
      rw [htext] at hread ⊢
      exact hread

namespace Numeral

variable {radix : Nat} (n : Numeral radix)

/-- The numeral of the first digits. -/
def take (k : Nat) (hk : n.text.take k ≠ []) : Numeral radix :=
  ⟨n.text.take k, n.digits.take k, hk, mapM_toDigit_take n.spells k⟩

/-- A numeral of value zero is spelled with zeros. -/
theorem text_zero (h : 0 < radix) (hv : n.value = 0) : ∀ c ∈ n.text, c = '0' := by
  intro c hc
  obtain ⟨d, hd, hdigit⟩ := mapM_toDigit_mem n.spells c hc
  have hzero : d = 0 := by
    have hle := ofDigits_mem_le h 0 hd
    rw [value] at hv
    omega
  exact toDigit_eq_zero (hzero ▸ hdigit)

/-- Zeros are a numeral of value zero. -/
theorem exists_zeros (h : 0 < radix) (k : Nat) :
    ∃ n : Numeral radix, n.text = List.replicate (k + 1) '0' ∧ n.value = 0 := by
  have hzero : toDigit radix '0' = some 0 := by simp [toDigit, h]
  have hspells : ∀ k, (List.replicate k '0').mapM (toDigit radix) = some (List.replicate k 0) := by
    intro k
    induction k with
    | zero => rfl
    | succ k ih => simp [List.replicate_succ, hzero, ih]
  have hvalue : ∀ k, ofDigits radix 0 (List.replicate k 0) = 0 := by
    intro k
    induction k with
    | zero => rfl
    | succ k ih =>
      rw [List.replicate_succ, ofDigits, List.foldl_cons, Nat.zero_mul]
      exact ih
  exact ⟨⟨_, _, List.cons_ne_nil _ _, hspells (k + 1)⟩, rfl, hvalue (k + 1)⟩

/-- A numeral that fits is read as its value. -/
theorem read (h : 0 < radix) {bits : Nat} (hfit : n.value < 2 ^ bits) :
    fromStrRadix bits radix n.text = .ok n.value :=
  (n.read_eq_ok_iff h).mpr ⟨rfl, hfit⟩

/-- One that does not is refused. -/
theorem read_error (h : 0 < radix) {bits : Nat} (hfit : ¬ n.value < 2 ^ bits) :
    ∃ e, fromStrRadix bits radix n.text = .error e := by
  cases hread : fromStrRadix bits radix n.text with
  | error e => exact ⟨e, rfl⟩
  | ok v => exact absurd ((n.read_eq_ok_iff h).mp hread).2 hfit

end Numeral

end DlnaProxy.Lib.Utf8
