import DlnaProxy.Lib.Utf8

/-!
# String operations

The operations of the standard library on strings that a line-based protocol
uses: lines, fields, blanks and substring replacement. Line splitting and
replacement are stated for lists over any alphabet, so that the same function is
applied to the characters of a text and to its bytes.
-/
namespace DlnaProxy.Lib.Utf8

section Lists

variable {α : Type} [DecidableEq α]

/-- `split_inclusive`: every segment but the last ends with `nl`. -/
def splitInclusive (nl : α) : List α → List (List α)
  | [] => []
  | c :: s =>
    if c = nl then [c] :: splitInclusive nl s
    else match splitInclusive nl s with
      | [] => [[c]]
      | line :: lines => (c :: line) :: lines

/-- `strip_suffix` of one element, the list itself where it does not end so. -/
def stripLast (c : α) (s : List α) : List α := if s.getLast? = some c then s.dropLast else s

/-- Replaces `pat` from the left, the first `skip` elements being the rest of a
match already replaced. -/
def replaceFrom (pat repl : List α) : Nat → List α → List α
  | _, [] => []
  | skip + 1, _ :: s => replaceFrom pat repl skip s
  | 0, c :: s =>
    if pat <+: c :: s then repl ++ replaceFrom pat repl (pat.length - 1) s
    else c :: replaceFrom pat repl 0 s

/-- `str::replace`. An empty pattern matches at every boundary. -/
def replace (pat repl s : List α) : List α :=
  if pat = [] then repl ++ s.flatMap (fun c => c :: repl) else replaceFrom pat repl 0 s

theorem stripLast_concat (c : α) (s : List α) : stripLast c (s ++ [c]) = s := by
  simp [stripLast]

/-- What is stripped is one `c` at the end, or nothing. -/
theorem stripLast_cases (c : α) (s : List α) :
    s = stripLast c s ++ [c] ∨ s = stripLast c s ∧ s.getLast? ≠ some c := by
  unfold stripLast
  split
  · next h =>
    obtain ⟨s, rfl⟩ := List.getLast?_eq_some_iff.mp h
    exact Or.inl (by simp)
  · next h => exact Or.inr ⟨rfl, h⟩

theorem splitInclusive_line {nl : α} {line : List α} (h : nl ∉ line) (rest : List α) :
    splitInclusive nl (line ++ nl :: rest) = (line ++ [nl]) :: splitInclusive nl rest := by
  induction line with
  | nil => simp [splitInclusive]
  | cons c line ih =>
    have hc : c ≠ nl := fun hc => h (by simp [hc])
    rw [List.cons_append, splitInclusive, if_neg hc, ih fun hm => h (by simp [hm])]
    rfl

omit [DecidableEq α] in
theorem prefix_append_singleton_iff {p s : List α} {c : α} (h : c ∉ p) : p <+: s ++ [c] ↔ p <+: s := by
  rw [List.prefix_concat_iff]
  refine ⟨fun hp => hp.resolve_left ?_, Or.inr⟩
  rintro rfl
  exact h (by simp)

theorem splitInclusive_last {nl : α} {line : List α} (h : nl ∉ line) (hne : line ≠ []) :
    splitInclusive nl line = [line] := by
  induction line with
  | nil => exact absurd rfl hne
  | cons c line ih =>
    have hc : c ≠ nl := fun hc => h (by simp [hc])
    rw [splitInclusive, if_neg hc]
    cases line with
    | nil => rfl
    | cons d line => rw [ih (fun hm => h (by simp [hm])) (by simp)]

theorem replaceFrom_eq (pat repl : List α) (skip : Nat) (s : List α) :
    replaceFrom pat repl skip s = replaceFrom pat repl 0 (s.drop skip) := by
  induction s generalizing skip with
  | nil => simp [replaceFrom]
  | cons c s ih =>
    cases skip with
    | zero => rfl
    | succ skip => simpa [replaceFrom] using ih skip

@[simp] theorem replace_nil {pat : List α} (h : pat ≠ []) (repl : List α) : replace pat repl [] = [] := by
  simp [replace, h, replaceFrom]

theorem replace_match {pat : List α} (h : pat ≠ []) (repl s : List α) :
    replace pat repl (pat ++ s) = repl ++ replace pat repl s := by
  obtain ⟨c, pat, rfl⟩ := List.exists_cons_of_ne_nil h
  have hm : (c :: pat) <+: c :: (pat ++ s) := List.prefix_append (c :: pat) s
  simp only [replace, h, ↓reduceIte, List.cons_append, replaceFrom, hm]
  rw [replaceFrom_eq]
  simp

theorem replace_skip {pat : List α} (h : pat ≠ []) (repl : List α) {c : α} {s : List α}
    (hm : ¬ pat <+: c :: s) : replace pat repl (c :: s) = c :: replace pat repl s := by
  simp [replace, h, replaceFrom, hm]

/-- Induction along a replacement: the end, a match, or an element kept. -/
theorem replace_induction {pat : List α} (h : pat ≠ []) {P : List α → Prop} (nil : P [])
    (found : ∀ s, P s → P (pat ++ s)) (kept : ∀ c s, ¬ pat <+: c :: s → P s → P (c :: s)) :
    ∀ s, P s := by
  have main : ∀ n s, s.length = n → P s := by
    intro n
    induction n using Nat.strongRecOn with
    | ind n ih =>
      intro s hn
      cases s with
      | nil => exact nil
      | cons c s =>
        by_cases hm : pat <+: c :: s
        · obtain ⟨t, ht⟩ := hm
          have hlen := congrArg List.length ht
          have hpos := List.length_pos_iff.mpr h
          rw [List.length_append] at hlen
          exact ht ▸ found t (ih _ (by omega) t rfl)
        · exact kept c s hm (ih _ (by simp only [List.length_cons] at hn; omega) s rfl)
  exact fun s => main _ s rfl

theorem replace_ne_nil {pat repl s : List α} (h : pat ≠ []) (ht : repl ≠ []) (hs : s ≠ []) :
    replace pat repl s ≠ [] := by
  obtain ⟨c, s, rfl⟩ := List.exists_cons_of_ne_nil hs
  by_cases hm : pat <+: c :: s
  · obtain ⟨t, ht'⟩ := hm
    rw [← ht', replace_match h]
    simp [ht]
  · rw [replace_skip h repl hm]
    simp

theorem replace_length_le {pat : List α} (h : pat ≠ []) {repl : List α} (ht : repl ≠ []) (s : List α) :
    (replace pat repl s).length ≤ repl.length * s.length := by
  have hp := List.length_pos_iff.mpr h
  have hto := List.length_pos_iff.mpr ht
  refine replace_induction h (P := fun s => (replace pat repl s).length ≤ repl.length * s.length)
    ?_ ?_ ?_ s
  · simp [h]
  · intro s ih
    rw [replace_match h, List.length_append, List.length_append, Nat.mul_add]
    have := Nat.le_mul_of_pos_right repl.length hp
    omega
  · intro c s hm ih
    rw [replace_skip h repl hm, List.length_cons, List.length_cons, Nat.mul_succ]
    omega

/-- Text in which the pattern does not occur is kept. -/
theorem replace_of_absent {pat s : List α} (h : pat ≠ []) (repl : List α) (hs : ¬ pat <:+: s) :
    replace pat repl s = s := by
  induction s with
  | nil => exact replace_nil h repl
  | cons c s ih =>
    have hm : ¬ pat <+: c :: s := fun hm => hs hm.isInfix
    rw [replace_skip h repl hm, ih fun hi => hs (hi.trans (List.suffix_cons c s).isInfix)]

/-- Each of the `k` matches trades the pattern's length for the replacement's. -/
theorem replace_length {pat : List α} (h : pat ≠ []) (repl s : List α) :
    ∃ k, (replace pat repl s).length + k * pat.length = s.length + k * repl.length ∧
      (k = 0 → ¬ pat <:+: s) := by
  refine replace_induction h (P := fun s => ∃ k, (replace pat repl s).length + k * pat.length =
    s.length + k * repl.length ∧ (k = 0 → ¬ pat <:+: s)) ?_ ?_ ?_ s
  · exact ⟨0, by simp [h], fun _ => by simpa using h⟩
  · rintro s ⟨k, hk, _⟩
    refine ⟨k + 1, ?_, fun hz => absurd hz (Nat.succ_ne_zero k)⟩
    rw [replace_match h, List.length_append, List.length_append, Nat.succ_mul, Nat.succ_mul]
    omega
  · rintro c s hm ⟨k, hk, hnone⟩
    refine ⟨k, ?_, fun hz hi => ?_⟩
    · rw [replace_skip h repl hm, List.length_cons, List.length_cons]
      omega
    · rcases List.infix_cons_iff.mp hi with hi | hi
      · exact hm hi
      · exact hnone hz hi

/-- Up to its first match, replacement keeps what it reads. -/
theorem replace_first {pat : List α} (h : pat ≠ []) (repl s : List α) :
    ¬ pat <:+: s ∨ ∃ kept rest, s = kept ++ (pat ++ rest) ∧
      replace pat repl s = kept ++ (repl ++ replace pat repl rest) := by
  induction s with
  | nil => exact Or.inl (by simpa using h)
  | cons c s ih =>
    by_cases hm : pat <+: c :: s
    · obtain ⟨rest, hrest⟩ := hm
      exact Or.inr ⟨[], rest, hrest.symm, by rw [← hrest, replace_match h]; rfl⟩
    · rcases ih with hnone | ⟨kept, rest, hs, hrepl⟩
      · exact Or.inl fun hi => (List.infix_cons_iff.mp hi).elim hm hnone
      · exact Or.inr ⟨c :: kept, rest, by rw [hs]; rfl, by rw [replace_skip h repl hm, hrepl]; rfl⟩

/-- Replacement by something else changes every text the pattern occurs in. -/
theorem replace_eq_self_iff {pat : List α} (h : pat ≠ []) (repl s : List α) :
    replace pat repl s = s ↔ pat = repl ∨ ¬ pat <:+: s := by
  constructor
  · intro hself
    obtain ⟨k, hlen, hzero⟩ := replace_length h repl s
    rw [hself, Nat.add_left_cancel_iff] at hlen
    rcases Nat.eq_zero_or_pos k with hk | hk
    · exact Or.inr (hzero hk)
    · rcases replace_first h repl s with hnone | ⟨kept, rest, hs, hrepl⟩
      · exact Or.inr hnone
      · rw [hself, hs, List.append_right_inj] at hrepl
        exact Or.inl (List.append_inj_left hrepl (Nat.eq_of_mul_eq_mul_left hk hlen))
  · rintro (rfl | hnone)
    · refine replace_induction h (P := fun s => replace pat pat s = s) (replace_nil h pat) ?_ ?_ s
      · intro s ih
        rw [replace_match h, ih]
      · intro c s hm ih
        rw [replace_skip h pat hm, ih]
    · exact replace_of_absent h repl hnone

end Lists

section Strings

/-- `char::is_whitespace`. -/
def isWhitespace (c : Char) : Bool :=
  let n := c.toNat
  (0x09 ≤ n && n ≤ 0x0D) || n == 0x20 || n == 0x85 || n == 0xA0 || n == 0x1680 ||
    (0x2000 ≤ n && n ≤ 0x200A) || n == 0x2028 || n == 0x2029 || n == 0x202F || n == 0x205F ||
    n == 0x3000

/-- `str::trim`. -/
def trim (s : Str) : Str := (s.dropWhile isWhitespace).rdropWhile isWhitespace

/-- `str::lines`: the segments without their line feed and one carriage return
before it. A last segment without a line feed is kept as it is. -/
def lines (s : Str) : List Str :=
  (splitInclusive '\n' s).map fun line =>
    if line.getLast? = some '\n' then stripLast '\r' line.dropLast else line

/-- `str::starts_with`. -/
def startsWith (s pat : Str) : Bool := pat.isPrefixOf s

/-- `str::contains`. -/
def contains (s pat : Str) : Bool := decide (pat <:+: s)

theorem startsWith_iff {s pat : Str} : startsWith s pat = true ↔ pat <+: s := List.isPrefixOf_iff_prefix

theorem contains_iff {s pat : Str} : contains s pat = true ↔ pat <:+: s := decide_eq_true_iff

theorem splitOn_append {a : Str} {sep : Char} (h : sep ∉ a) (b : Str) :
    (a ++ sep :: b).splitOn sep = a :: b.splitOn sep := by
  rw [List.splitOn_eq_splitOnP, List.splitOn_eq_splitOnP]
  have hno : ∀ c ∈ a, (c == sep) = false := by
    intro c hc
    rw [beq_eq_false_iff_ne]
    rintro rfl
    exact h hc
  exact List.splitOnP_append_cons_of_forall_mem hno sep (beq_self_eq_true sep) b

theorem splitOn_of_not_mem {a : Str} {sep : Char} (h : sep ∉ a) : a.splitOn sep = [a] := by
  induction a with
  | nil => rfl
  | cons c a ih =>
    have hc : c ≠ sep := fun hc => h (by simp [hc])
    rw [List.splitOn_cons_eq_if_modifyHead, if_neg (by simpa using hc), ih fun hm => h (by simp [hm])]
    rfl

/-- The list without what is blank at its ends. -/
def trimBy {α : Type} (blank : α → Bool) (s : List α) : List α := (s.dropWhile blank).rdropWhile blank

/-- Nothing is blank at the ends. -/
def Trimmed {α : Type} (blank : α → Bool) (s : List α) : Prop :=
  (∀ c ∈ s.head?, blank c = false) ∧ ∀ c ∈ s.getLast?, blank c = false

instance {α : Type} (blank : α → Bool) (s : List α) : Decidable (Trimmed blank s) := instDecidableAnd

/-- Blanks around a list that is trimmed are trimmed off. -/
theorem trimBy_pad {α : Type} {blank : α → Bool} {a s b : List α} (ha : ∀ c ∈ a, blank c)
    (hb : ∀ c ∈ b, blank c) (hs : Trimmed blank s) : trimBy blank (a ++ (s ++ b)) = s := by
  cases s with
  | nil =>
    have hall : (a ++ ([] ++ b)).dropWhile blank = [] := by
      rw [List.dropWhile_eq_nil_iff]
      intro c hc
      rcases List.mem_append.mp hc with h | h
      · exact ha c h
      · exact hb c h
    rw [trimBy, hall, List.rdropWhile_nil]
  | cons c s =>
    have hstart : (a ++ (c :: s ++ b)).dropWhile blank = c :: s ++ b := by
      rw [List.dropWhile_append_of_pos ha, List.cons_append,
        List.dropWhile_cons_of_neg (by simp [hs.1 c rfl])]
    have hend : (c :: s).rdropWhile blank = c :: s := by
      rw [List.rdropWhile_eq_self_iff]
      intro hne
      rw [hs.2 _ (List.getLast_mem_getLast? hne)]
      exact Bool.false_ne_true
    rw [trimBy, hstart, List.rdropWhile, List.reverse_append,
      List.dropWhile_append_of_pos (by simpa using hb)]
    exact hend

/-- A text is its trimmed text between white space. -/
theorem exists_trim (s : Str) : ∃ a b : Str, (∀ c ∈ a, isWhitespace c) ∧
    (∀ c ∈ b, isWhitespace c) ∧ s = a ++ trim s ++ b := by
  refine ⟨s.takeWhile isWhitespace, (s.dropWhile isWhitespace).rtakeWhile isWhitespace, ?_, ?_, ?_⟩
  · exact fun c hc => List.mem_takeWhile_imp hc
  · exact fun c hc => List.mem_rtakeWhile_imp hc
  · have hend : trim s ++ (s.dropWhile isWhitespace).rtakeWhile isWhitespace =
        s.dropWhile isWhitespace := by
      rw [trim, List.rdropWhile, List.rtakeWhile, ← List.reverse_append,
        List.takeWhile_append_dropWhile, List.reverse_reverse]
    rw [List.append_assoc, hend, List.takeWhile_append_dropWhile]

/-- Blanks around a text without blanks are trimmed off. -/
theorem trim_pad {a s b : Str} (ha : ∀ c ∈ a, isWhitespace c) (hb : ∀ c ∈ b, isWhitespace c)
    (hs : ∀ c ∈ s, isWhitespace c = false) (hne : s ≠ []) : trim (a ++ s ++ b) = s := by
  obtain ⟨c, s', rfl⟩ := List.exists_cons_of_ne_nil hne
  have hstart : (a ++ (c :: s') ++ b).dropWhile isWhitespace = (c :: s') ++ b := by
    rw [List.append_assoc, List.dropWhile_append_of_pos ha, List.cons_append,
      List.dropWhile_cons_of_neg (by simp [hs c (by simp)])]
  have hend : (b.reverse ++ (c :: s').reverse).dropWhile isWhitespace = (c :: s').reverse := by
    rw [List.dropWhile_append_of_pos (by simpa using hb)]
    rw [List.dropWhile_eq_self_iff]
    intro hl
    rw [hs _ (List.mem_reverse.mp (List.getElem_mem hl))]
    exact Bool.false_ne_true
  rw [trim, hstart, List.rdropWhile, List.reverse_append, hend, List.reverse_reverse]

end Strings

end DlnaProxy.Lib.Utf8
