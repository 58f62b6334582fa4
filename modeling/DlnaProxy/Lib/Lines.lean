import DlnaProxy.Lib.Lossy

/-!
# Lines under case mapping and padding

The lower-case mapping keeps the lines of a text apart and each line its own: it
neither makes nor takes a line feed, a carriage return or a colon. What stands at the
ends of a line decides neither whether a pattern occurs in it nor, if it is white
space, what is left when it is trimmed.
-/
namespace DlnaProxy.Lib.Utf8

/-! ## Occurrences of a pattern -/

section Lists

variable {α : Type} {p : List α}

theorem prefix_append_cons_iff {x : α} (h : x ∉ p) (s t : List α) :
    p <+: s ++ x :: t ↔ p <+: s := by
  constructor
  · intro hp
    rcases Nat.le_total p.length s.length with hle | hle
    · exact List.prefix_of_prefix_length_le hp (List.prefix_append _ _) hle
    · obtain ⟨q, rfl⟩ := List.prefix_of_prefix_length_le (List.prefix_append s (x :: t)) hp hle
      have hq : q <+: x :: t := (List.prefix_append_right_inj s).mp hp
      rcases List.prefix_cons_iff.mp hq with rfl | ⟨q', rfl, _⟩
      · rw [List.append_nil]
      · exact absurd (List.mem_append_right s List.mem_cons_self) h
  · intro hp
    exact hp.trans (List.prefix_append _ _)

/-- A pattern does not reach over an element that it does not have. -/
theorem infix_append_cons_iff {x : α} (h : x ∉ p) (s t : List α) :
    p <:+: s ++ x :: t ↔ p <:+: s ∨ p <:+: t := by
  induction s with
  | nil =>
    rw [List.nil_append, List.infix_cons_iff, List.infix_nil]
    refine or_congr_left ⟨fun hp => ?_, fun hp => ?_⟩
    · exact List.prefix_nil.mp ((prefix_append_cons_iff h [] t).mp hp)
    · rw [hp]
      exact List.nil_prefix
  | cons a s ih =>
    rw [List.cons_append, List.infix_cons_iff, List.infix_cons_iff, ih, ← or_assoc,
      ← List.cons_append, prefix_append_cons_iff h]

theorem infix_append_right_iff (hp : p ≠ []) {w : List α} (h : ∀ x ∈ w, x ∉ p) (s : List α) :
    p <:+: s ++ w ↔ p <:+: s := by
  induction w generalizing s with
  | nil => rw [List.append_nil]
  | cons x w ih =>
    have hw : ¬ p <:+: w := fun hin => by
      have hnil := (ih (fun y hy => h y (List.mem_cons_of_mem x hy)) []).mp hin
      exact hp (List.infix_nil.mp hnil)
    rw [infix_append_cons_iff (h x List.mem_cons_self)]
    exact or_iff_left hw

theorem infix_append_left_iff (hp : p ≠ []) {w : List α} (h : ∀ x ∈ w, x ∉ p) (s : List α) :
    p <:+: w ++ s ↔ p <:+: s := by
  induction w with
  | nil => rfl
  | cons x w ih =>
    have hnil : ¬ p <:+: [] := fun hin => hp (List.infix_nil.mp hin)
    have hx := infix_append_cons_iff (h x List.mem_cons_self) [] (w ++ s)
    rw [List.nil_append, or_iff_right hnil] at hx
    rw [List.cons_append, hx]
    exact ih fun y hy => h y (List.mem_cons_of_mem x hy)

end Lists

/-! ## Lines -/

section Split

variable {α : Type} [DecidableEq α] {nl : α}

theorem splitInclusive_append {w : List α} (hw : nl ∉ w) (hne : w ≠ []) (s : List α) :
    splitInclusive nl (w ++ s) = match splitInclusive nl s with
      | [] => [w]
      | line :: lines => (w ++ line) :: lines := by
  induction w with
  | nil => exact absurd rfl hne
  | cons c w ih =>
    have hc : c ≠ nl := fun hc => hw (by simp [hc])
    rw [List.cons_append, splitInclusive, if_neg hc]
    cases w with
    | nil =>
      rw [List.nil_append]
      cases splitInclusive nl s <;> rfl
    | cons d w =>
      rw [ih (fun hm => hw (List.mem_cons_of_mem c hm)) (List.cons_ne_nil d w)]
      cases splitInclusive nl s <;> rfl

/-- The segments are the list again. -/
theorem splitInclusive_flatten (nl : α) (s : List α) : (splitInclusive nl s).flatten = s := by
  induction s with
  | nil => rfl
  | cons c s ih =>
    rw [splitInclusive]
    split
    · rw [List.flatten_cons, ih]
      rfl
    · split
      · next hnil =>
        rw [hnil] at ih
        rw [← ih]
        rfl
      · next line lines hcons =>
        rw [hcons] at ih
        rw [← ih]
        rfl

/-- A mapping that keeps line feeds, and makes none, keeps the segments apart. -/
theorem splitInclusive_flatMap {f : α → List α} (hnl : f nl = [nl])
    (hother : ∀ c, c ≠ nl → f c ≠ [] ∧ nl ∉ f c) (s : List α) :
    splitInclusive nl (s.flatMap f) = (splitInclusive nl s).map fun line => line.flatMap f := by
  induction s with
  | nil => rfl
  | cons c s ih =>
    rw [List.flatMap_cons]
    by_cases hc : c = nl
    · rw [hc, hnl, List.singleton_append, splitInclusive, if_pos rfl, splitInclusive, if_pos rfl,
        ih]
      simp [hnl]
    · obtain ⟨hne, hno⟩ := hother c hc
      rw [splitInclusive_append hno hne, ih, splitInclusive, if_neg hc]
      cases splitInclusive nl s <;> simp

/-- A segment ends in the line feed, or is the last one and has none. -/
theorem splitInclusive_segment {s seg : List α} (h : seg ∈ splitInclusive nl s) :
    nl ∉ seg ∨ ∃ front, nl ∉ front ∧ seg = front ++ [nl] := by
  induction s generalizing seg with
  | nil => cases h
  | cons c s ih =>
    rw [splitInclusive] at h
    split at h
    · next hc =>
      rcases List.mem_cons.mp h with rfl | h
      · exact Or.inr ⟨[], List.not_mem_nil, by rw [hc]; rfl⟩
      · exact ih h
    · next hc =>
      have hcons (line : List α) (hline : nl ∉ line ∨ ∃ front, nl ∉ front ∧ line = front ++ [nl]) :
          nl ∉ c :: line ∨ ∃ front, nl ∉ front ∧ c :: line = front ++ [nl] := by
        rcases hline with hno | ⟨front, hno, rfl⟩
        · exact Or.inl fun hm => (List.mem_cons.mp hm).elim (fun he => hc he.symm) hno
        · refine Or.inr ⟨c :: front, ?_, rfl⟩
          exact fun hm => (List.mem_cons.mp hm).elim (fun he => hc he.symm) hno
      split at h
      · rw [List.mem_singleton.mp h]
        exact hcons [] (Or.inl List.not_mem_nil)
      · next line lines heq =>
        rw [heq] at ih
        rcases List.mem_cons.mp h with rfl | h
        · exact hcons line (ih List.mem_cons_self)
        · exact ih (List.mem_cons_of_mem line h)

end Split

/-! ### Characters that case mapping leaves alone -/

/-- An ASCII character that is no letter. -/
def Caseless (d : Char) : Prop :=
  Ascii d ∧ ¬ ('a'.toNat ≤ d.toNat ∧ d.toNat ≤ 'z'.toNat) ∧
    ¬ ('A'.toNat ≤ d.toNat ∧ d.toNat ≤ 'Z'.toNat)

instance (d : Char) : Decidable (Caseless d) := instDecidableAnd

theorem caseless_feed : Caseless '\n' := by decide

theorem caseless_return : Caseless '\r' := by decide

theorem caseless_colon : Caseless ':' := by decide

theorem toLower_eq_iff {c d : Char} (hc : Ascii c) (hd : Caseless d) : c.toLower = d ↔ c = d := by
  have table : ∀ m < 128, ∀ n < 128, Caseless (charOf n) →
      ((charOf m).toLower = charOf n ↔ charOf m = charOf n) := by
    decide +kernel
  have h := table c.toNat hc d.toNat hd.1
  rw [charOf_toNat, charOf_toNat] at h
  exact h hd

/-- The lower-case mapping neither makes nor takes such a character. -/
theorem mem_lowerChar_iff {c d : Char} (hd : Caseless d) : d ∈ lowerChar c ↔ c = d := by
  by_cases hc : Ascii c
  · rw [lowerChar_ascii hc, List.mem_singleton, eq_comm, toLower_eq_iff hc hd]
  · have hne : c ≠ d := fun he => hc (he ▸ hd.1)
    refine iff_of_false (fun hm => ?_) hne
    by_cases hk : c = '\u212A'
    · rw [hk, lowerChar_kelvin, List.mem_singleton] at hm
      rw [hm] at hd
      exact absurd hd (by decide)
    by_cases hi : c = '\u0130'
    · rw [hi, lowerChar_dotted] at hm
      rcases List.mem_cons.mp hm with rfl | hm
      · exact absurd hd (by decide)
      · rw [List.mem_singleton.mp hm] at hd
        exact absurd hd (by decide)
    · obtain ⟨x, hx, hwide⟩ := lowerChar_wide hc hk hi
      rw [hx, List.mem_singleton] at hm
      exact hwide (hm ▸ hd.1)

theorem mem_toLowercase_iff {d : Char} (hd : Caseless d) (s : Str) : d ∈ toLowercase s ↔ d ∈ s := by
  rw [toLowercase, List.mem_flatMap]
  simp [mem_lowerChar_iff hd]

theorem lowerChar_ne_nil (c : Char) : lowerChar c ≠ [] := by
  by_cases hc : Ascii c
  · rw [lowerChar_ascii hc]
    exact List.cons_ne_nil _ _
  by_cases hk : c = '\u212A'
  · rw [hk, lowerChar_kelvin]
    exact List.cons_ne_nil _ _
  by_cases hi : c = '\u0130'
  · rw [hi, lowerChar_dotted]
    exact List.cons_ne_nil _ _
  · obtain ⟨x, hx, _⟩ := lowerChar_wide hc hk hi
    rw [hx]
    exact List.cons_ne_nil _ _

theorem lowerChar_caseless {d : Char} (hd : Caseless d) : lowerChar d = [d] := by
  rw [lowerChar_ascii hd.1, (toLower_eq_iff hd.1 hd).mpr rfl]

theorem stripLast_toLowercase {d : Char} (hd : Caseless d) (s : Str) :
    stripLast d (toLowercase s) = toLowercase (stripLast d s) := by
  rcases List.eq_nil_or_concat s with rfl | ⟨front, c, rfl⟩
  · rfl
  · by_cases hc : c = d
    · rw [List.concat_eq_append, hc, stripLast_concat, toLowercase_append, toLowercase_cons,
        lowerChar_caseless hd, toLowercase_nil, List.append_nil, stripLast_concat]
    · have hkeep : stripLast d (front ++ [c]) = front ++ [c] := by
        rw [stripLast, if_neg]
        simpa using hc
      rw [List.concat_eq_append, hkeep, stripLast, if_neg]
      intro hlast
      rw [toLowercase_append, toLowercase_cons, toLowercase_nil, List.append_nil,
        List.getLast?_append_of_ne_nil _ (lowerChar_ne_nil c)] at hlast
      exact hc ((mem_lowerChar_iff hd).mp (List.mem_of_getLast? hlast))

/-- A segment as a line. -/
def lineOf (seg : Str) : Str :=
  if seg.getLast? = some '\n' then stripLast '\r' seg.dropLast else seg

theorem lines_eq (s : Str) : lines s = (splitInclusive '\n' s).map lineOf := rfl

theorem lineOf_feed (front : Str) : lineOf (front ++ ['\n']) = stripLast '\r' front := by
  simp [lineOf]

theorem lineOf_last {seg : Str} (h : '\n' ∉ seg) : lineOf seg = seg := by
  rw [lineOf, if_neg]
  exact fun hlast => h (List.mem_of_getLast? hlast)

/-- **The lower case of a text has the lower case of its lines.** -/
theorem lines_toLowercase (s : Str) : lines (toLowercase s) = (lines s).map toLowercase := by
  have hsplit : splitInclusive '\n' (toLowercase s) = (splitInclusive '\n' s).map toLowercase :=
    splitInclusive_flatMap (lowerChar_caseless caseless_feed)
      (fun c hc => ⟨lowerChar_ne_nil c, fun hm => hc ((mem_lowerChar_iff caseless_feed).mp hm)⟩) s
  rw [lines_eq, lines_eq, hsplit, List.map_map, List.map_map]
  apply List.map_congr_left
  intro seg hseg
  show lineOf (toLowercase seg) = toLowercase (lineOf seg)
  rcases splitInclusive_segment hseg with hno | ⟨front, _, rfl⟩
  · rw [lineOf_last hno, lineOf_last]
    rwa [mem_toLowercase_iff caseless_feed]
  · rw [lineOf_feed, ← stripLast_toLowercase caseless_return, toLowercase_append, toLowercase_cons,
      lowerChar_caseless caseless_feed, toLowercase_nil, List.append_nil, lineOf_feed]

theorem feedless_of_mem_lines {s line : Str} (h : line ∈ lines s) : '\n' ∉ line := by
  rw [lines_eq] at h
  obtain ⟨seg, hseg, rfl⟩ := List.mem_map.mp h
  rcases splitInclusive_segment hseg with hno | ⟨front, hno, rfl⟩
  · rwa [lineOf_last hno]
  · rw [lineOf_feed]
    intro hm
    rcases stripLast_cases '\r' front with hs | ⟨hs, _⟩ <;> rw [hs] at hno
    · exact hno (List.mem_append_left _ hm)
    · exact hno hm

/-- The lines of a text that is written line by line. -/
theorem lines_flatMap {ls : List Str} (h : ∀ line ∈ ls, '\n' ∉ line) :
    lines (ls.flatMap (· ++ "\r\n".toList)) = ls := by
  have hcrlf : "\r\n".toList = ['\r', '\n'] := by decide
  rw [hcrlf, lines_eq]
  induction ls with
  | nil => rfl
  | cons line ls ih =>
    have hline : '\n' ∉ line ++ ['\r'] := by
      rw [List.mem_append, not_or]
      exact ⟨h line List.mem_cons_self, by decide⟩
    have hseg : (line :: ls).flatMap (· ++ ['\r', '\n']) =
        line ++ ['\r'] ++ '\n' :: ls.flatMap (· ++ ['\r', '\n']) := by simp
    rw [hseg, splitInclusive_line hline, List.map_cons,
      ih fun l hl => h l (List.mem_cons_of_mem line hl), lineOf_feed, stripLast_concat]

/-! ## White space and colons -/

theorem trim_append_left {a : Str} (ha : ∀ c ∈ a, isWhitespace c) (s : Str) : trim (a ++ s) = trim s := by
  rw [trim, List.dropWhile_append_of_pos ha]
  rfl

theorem trim_append_right {b : Str} (hb : ∀ c ∈ b, isWhitespace c) (s : Str) : trim (s ++ b) = trim s := by
  have hend : (s.dropWhile isWhitespace ++ b).rdropWhile isWhitespace = trim s := by
    rw [List.rdropWhile, List.reverse_append,
      List.dropWhile_append_of_pos fun c hc => hb c (List.mem_reverse.mp hc)]
    rfl
  by_cases hne : s.dropWhile isWhitespace = []
  · have hall : ∀ c ∈ s, isWhitespace c := List.dropWhile_eq_nil_iff.mp hne
    rw [trim, List.dropWhile_append_of_pos hall, List.dropWhile_eq_nil_iff.mpr hb, trim, hne]
  · rw [trim, List.dropWhile_append, if_neg (by simpa using hne)]
    exact hend

theorem splitOn_head (sep : Char) (s : Str) :
    (s.splitOn sep)[0]? = some (s.takeWhile fun c => decide (c ≠ sep)) := by
  by_cases h : sep ∈ s
  · obtain ⟨a, b, rfl, ha⟩ := List.eq_append_cons_of_mem h
    have hall : ∀ c ∈ a, decide (c ≠ sep) = true := by
      intro c hc
      rw [decide_eq_true_eq]
      rintro rfl
      exact ha hc
    rw [splitOn_append ha, List.takeWhile_append_of_pos hall,
      List.takeWhile_cons_of_neg (by simp), List.append_nil]
    rfl
  · have hall : ∀ c ∈ s, decide (c ≠ sep) = true := by
      intro c hc
      rw [decide_eq_true_eq]
      rintro rfl
      exact h hc
    rw [splitOn_of_not_mem h, List.takeWhile_eq_self_iff.mpr hall]
    rfl

/-- What stands between the first two separators. -/
theorem splitOn_second {sep : Char} {a : Str} (h : sep ∉ a) (b : Str) :
    ((a ++ sep :: b).splitOn sep)[1]? = some (b.takeWhile fun c => decide (c ≠ sep)) := by
  rw [splitOn_append h, List.getElem?_cons_succ, splitOn_head]

theorem splitOn_second_none {sep : Char} {s : Str} (h : sep ∉ s) : (s.splitOn sep)[1]? = none := by
  rw [splitOn_of_not_mem h]
  rfl

theorem trim_takeWhile_pad {sep : Char} (hsep : isWhitespace sep = false) {a b : Str}
    (ha : ∀ c ∈ a, isWhitespace c) (hb : ∀ c ∈ b, isWhitespace c) (s : Str) :
    trim ((a ++ (s ++ b)).takeWhile fun c => decide (c ≠ sep)) =
      trim (s.takeWhile fun c => decide (c ≠ sep)) := by
  have hkeep {w : Str} (hw : ∀ c ∈ w, isWhitespace c) : ∀ c ∈ w, decide (c ≠ sep) = true := by
    intro c hc
    rw [decide_eq_true_eq]
    rintro rfl
    rw [hw c hc] at hsep
    cases hsep
  rw [List.takeWhile_append_of_pos (hkeep ha), trim_append_left ha, List.takeWhile_append]
  split
  · next hlen =>
    have hall := (List.takeWhile_prefix _).eq_of_length hlen
    rw [List.takeWhile_eq_self_iff.mpr (hkeep hb), trim_append_right hb, hall]
  · rfl

/-! ## ASCII case -/

theorem map_toLower_wide {s : Str} (h : ∀ c ∈ s, ¬ Ascii c) : s.map Char.toLower = s := by
  conv_rhs => rw [← List.map_id s]
  exact List.map_congr_left fun c hc => toLower_wide (h c hc)

theorem step_lower {d : Decoder} (hd : d.Wide) (b : UInt8) :
    step d (asciiLower b) = ((step d b).1.map Char.toLower, (step d b).2) := by
  by_cases hb : b ≤ 0x7F
  · obtain ⟨hlower, hb'⟩ := toLower_charOf hb
    rw [step_ascii hd hb, step_ascii hd hb', List.map_append, map_toLower_wide (finish_not_ascii d),
      List.map_singleton, hlower]
  · have hsame : asciiLower b = b := by
      rw [asciiLower, if_neg]
      rintro ⟨_, hle⟩
      exact hb (UInt8.le_trans hle (by decide))
    rw [hsame, map_toLower_wide (step_not_ascii hd hb)]

theorem decode_lower {d : Decoder} (hd : d.Wide) (bytes : List UInt8) :
    decode d (bytes.map asciiLower) = (decode d bytes).map Char.toLower := by
  induction bytes generalizing d with
  | nil => exact (map_toLower_wide (finish_not_ascii d)).symm
  | cons b bytes ih =>
    rw [List.map_cons, decode, decode, step_lower hd, List.map_append]
    exact congrArg _ (ih (step_wide hd b))

theorem lowerChar_toLower (c : Char) : lowerChar c.toLower = lowerChar c := by
  by_cases hc : Ascii c
  · have table : ∀ n < 128, Ascii (charOf n).toLower ∧
        (charOf n).toLower.toLower = (charOf n).toLower := by
      decide +kernel
    have h := table c.toNat hc
    rw [charOf_toNat] at h
    rw [lowerChar_ascii hc, lowerChar_ascii h.1, h.2]
  · rw [toLower_wide hc]

/-- The lower case of a lossy text does not depend on the ASCII case of the bytes. -/
theorem toLowercase_lossy_congr {v w : List UInt8} (h : v.map asciiLower = w.map asciiLower) :
    toLowercase (fromUtf8Lossy v) = toLowercase (fromUtf8Lossy w) := by
  have hlower (s : Str) : toLowercase (s.map Char.toLower) = toLowercase s := by
    rw [toLowercase, List.flatMap_map]
    exact List.flatMap_congr fun c _ => lowerChar_toLower c
  have hmap (v : List UInt8) : fromUtf8Lossy (v.map asciiLower) = (fromUtf8Lossy v).map Char.toLower :=
    decode_lower (show Decoder.start.Wide from trivial) v
  rw [← hlower, ← hmap, h, hmap, hlower]

/-! ## A name before a separator -/

theorem prefix_separator_iff {α : Type} {x : α} {p q : List α} (hp : x ∉ p) (hq : x ∉ q)
    (r : List α) : p ++ [x] <+: q ++ x :: r ↔ p = q := by
  induction p generalizing q with
  | nil =>
    cases q with
    | nil => simp
    | cons d q =>
      have hd : x ≠ d := fun he => hq (he ▸ List.mem_cons_self)
      simp [hd]
  | cons c p ih =>
    cases q with
    | nil =>
      have hc : c ≠ x := fun he => hp (he ▸ List.mem_cons_self)
      simp [hc]
    | cons d q =>
      rw [List.cons_append, List.cons_append, List.cons_prefix_cons, List.cons.injEq,
        ih (fun h => hp (List.mem_cons_of_mem c h)) fun h => hq (List.mem_cons_of_mem d h)]

end DlnaProxy.Lib.Utf8
