import DlnaProxy.Lib.Anchored

/-!
# Rewriting one pattern to another

What becomes of a text when an anchored pattern is replaced by another: whether the
pattern is left in it, what a second replacement makes of the first, and when the first
is taken back. And what a replacement leaves alone: the characters that are in neither
pattern, and with them the division of the text at these.
-/
namespace DlnaProxy.Lib.Utf8

variable {α : Type} [DecidableEq α]

/-! ## One replacement after another -/

/-- Neither pattern starts with the other. -/
def Apart (pat repl : List α) : Prop := ¬ pat <+: repl ∧ ¬ repl <+: pat

instance (pat repl : List α) : Decidable (Apart pat repl) := instDecidableAnd

section Patterns

variable {x : α} {p q : List α}

/-- A second replacement finds what the first has put in, and nothing else where its
pattern was not in the text. -/
theorem replace_replace (hq : x ∉ q) (repl : List α) {s : List α} (h : ¬ (x :: q) <:+: s) :
    replace (x :: q) repl (replace (x :: p) (x :: q) s) = replace (x :: p) repl s := by
  have hp : x :: p ≠ [] := List.cons_ne_nil x p
  have hne : x :: q ≠ [] := List.cons_ne_nil x q
  refine replace_induction hp (P := fun s => ¬ (x :: q) <:+: s →
    replace (x :: q) repl (replace (x :: p) (x :: q) s) = replace (x :: p) repl s) ?_ ?_ ?_ s h
  · intro _
    rw [replace_nil hp, replace_nil hp, replace_nil hne]
  · intro s ih h
    rw [replace_match hp, replace_match hp, replace_match hne,
      ih fun hi => h (hi.trans (List.suffix_append _ s).isInfix)]
  · intro c s hm ih h
    have hskip : ¬ (x :: q) <+: c :: replace (x :: p) (x :: q) s := by
      intro hs
      obtain ⟨rfl, out, hout⟩ := List.cons_prefix_cons.mp hs
      obtain ⟨s', rfl, _⟩ := exists_of_replace_eq_append p q hq hout.symm
      exact h (List.prefix_append (x :: q) s').isInfix
    rw [replace_skip hp _ hm, replace_skip hp _ hm, replace_skip hne _ hskip,
      ih fun hi => h (hi.trans (List.suffix_cons c s).isInfix)]

/-- So the first can be taken back. -/
theorem replace_back (hq : x ∉ q) {s : List α} (h : ¬ (x :: q) <:+: s) :
    replace (x :: q) (x :: p) (replace (x :: p) (x :: q) s) = s := by
  rw [replace_replace hq _ h, replace_eq_self_iff (List.cons_ne_nil x p)]
  exact Or.inl rfl

/-- The pattern starts nowhere in the result if it is apart from what it is replaced by. -/
theorem not_infix_replace (hp : x ∉ p) (hq : x ∉ q) (h : Apart (x :: p) (x :: q)) (s : List α) :
    ¬ (x :: p) <:+: replace (x :: p) (x :: q) s := by
  have hne : x :: p ≠ [] := List.cons_ne_nil x p
  refine replace_induction hne (P := fun s => ¬ (x :: p) <:+: replace (x :: p) (x :: q) s) ?_ ?_ ?_ s
  · rw [replace_nil hne]
    simp
  · intro s ih hi
    rw [replace_match hne, List.cons_append] at hi
    rcases List.infix_cons_iff.mp hi with hs | hi
    · rcases List.prefix_or_prefix_of_prefix hs (List.prefix_append (x :: q) _) with hs | hs
      · exact h.1 hs
      · exact h.2 hs
    · obtain ⟨a, b, hab⟩ := hi
      have hsuffix : ∃ t, t <:+ q ++ replace (x :: p) (x :: q) s ∧ (x :: p) <+: t := by
        refine ⟨x :: p ++ b, ⟨a, ?_⟩, List.prefix_append _ _⟩
        rw [← List.append_assoc, hab]
      have hhead (t : List α) (ht : (x :: p) <+: t) : ∀ c ∈ t.head?, c ∉ q := by
        obtain ⟨u, rfl⟩ := ht
        exact fun c hc => Option.some.inj hc ▸ hq
      obtain ⟨t, ht, hpt⟩ := (exists_suffix_append hhead).mp hsuffix
      exact ih (hpt.isInfix.trans ht.isInfix)
  · intro c s hm ih hi
    rw [replace_skip hne _ hm] at hi
    rcases List.infix_cons_iff.mp hi with hs | hi
    · obtain ⟨rfl, out, hout⟩ := List.cons_prefix_cons.mp hs
      obtain ⟨s', rfl, _⟩ := exists_of_replace_eq_append p q hp hout.symm
      exact hm (List.prefix_append (x :: p) s')
    · exact ih hi

/-- If it is not, there is a text in which the pattern is found again. -/
theorem exists_infix_replace (hp : x ∉ p) (h : ¬ Apart (x :: p) (x :: q)) :
    ∃ s, (x :: p) <:+: replace (x :: p) (x :: q) s := by
  have hne : x :: p ≠ [] := List.cons_ne_nil x p
  have hself := replace_match hne (x :: q) []
  rw [List.append_nil, replace_nil hne, List.append_nil] at hself
  by_cases hpq : (x :: p) <+: x :: q
  · refine ⟨x :: p, ?_⟩
    rw [hself]
    exact hpq.isInfix
  · obtain ⟨w, hw⟩ := not_not.mp fun hqp => h ⟨hpq, hqp⟩
    have hxw : x ∉ w := by
      obtain ⟨_, rfl⟩ := List.cons.inj hw
      exact fun hm => hp (List.mem_append_right _ hm)
    have hkept := replace_append_of_not_mem (p := p) (x :: q) hxw []
    rw [List.append_nil, replace_nil hne, List.append_nil] at hkept
    refine ⟨x :: p ++ w, ?_⟩
    rw [replace_match hne, hkept, ← hw]

/-- **The pattern is gone from every text just where the two are apart.** -/
theorem forall_not_infix_replace_iff (hp : x ∉ p) (hq : x ∉ q) :
    (∀ s, ¬ (x :: p) <:+: replace (x :: p) (x :: q) s) ↔ Apart (x :: p) (x :: q) := by
  refine ⟨fun hall => ?_, not_infix_replace hp hq⟩
  by_contra h
  obtain ⟨s, hs⟩ := exists_infix_replace hp h
  exact hall s hs

/-- Of patterns that are apart, the replacement is taken back just in the texts that
held no replacement before. -/
theorem replace_back_iff (hp : x ∉ p) (hq : x ∉ q) (h : Apart (x :: p) (x :: q)) (s : List α) :
    replace (x :: q) (x :: p) (replace (x :: p) (x :: q) s) = s ↔ ¬ (x :: q) <:+: s := by
  refine ⟨fun hback => ?_, replace_back hq⟩
  rw [← hback]
  exact not_infix_replace hq hp ⟨h.2, h.1⟩ _

end Patterns

/-! ## What is left alone -/

section Division

variable {pat repl : List α}

/-- A replacement goes on behind a character that is not in its pattern as it began. -/
theorem replace_append_cons (hne : pat ≠ []) {d : α} (hd : d ∉ pat) (a s : List α) :
    replace pat repl (a ++ d :: s) = replace pat repl a ++ d :: replace pat repl s := by
  refine replace_induction hne (P := fun a => replace pat repl (a ++ d :: s) =
    replace pat repl a ++ d :: replace pat repl s) ?_ ?_ ?_ a
  · have hskip : ¬ pat <+: d :: s := by
      obtain ⟨c, pat, rfl⟩ := List.exists_cons_of_ne_nil hne
      intro hm
      exact hd ((List.cons_prefix_cons.mp hm).1 ▸ List.mem_cons_self)
    rw [List.nil_append, replace_skip hne repl hskip, replace_nil hne]
    rfl
  · intro a ih
    rw [List.append_assoc, replace_match hne, replace_match hne, ih, List.append_assoc]
  · intro c a hm ih
    have hskip : ¬ pat <+: c :: (a ++ d :: s) := by
      rw [← List.cons_append, prefix_append_cons_iff hd]
      exact hm
    rw [List.cons_append, replace_skip hne repl hskip, ih, replace_skip hne repl hm]
    rfl

theorem mem_replace (hne : pat ≠ []) {c : α} {s : List α} (h : c ∈ replace pat repl s) :
    c ∈ s ∨ c ∈ repl := by
  refine replace_induction hne (P := fun s => c ∈ replace pat repl s → c ∈ s ∨ c ∈ repl)
    ?_ ?_ ?_ s h
  · rw [replace_nil hne]
    nofun
  · intro s ih h
    rw [replace_match hne, List.mem_append] at h
    rcases h with h | h
    · exact Or.inr h
    · exact (ih h).imp_left (List.mem_append_right _)
  · intro d s hm ih h
    rw [replace_skip hne repl hm, List.mem_cons] at h
    rcases h with rfl | h
    · exact Or.inl List.mem_cons_self
    · exact (ih h).imp_left (List.mem_cons_of_mem _)

variable {delimiter : α → Bool} (hne : pat ≠ []) (hpat : ∀ c ∈ pat, delimiter c = false)
  (hrepl : ∀ c ∈ repl, delimiter c = false)

include hne hpat hrepl

/-- The delimiters stay as they are. -/
theorem filter_replace (s : List α) : (replace pat repl s).filter delimiter = s.filter delimiter := by
  have hnone {l : List α} (h : ∀ c ∈ l, delimiter c = false) : l.filter delimiter = [] :=
    List.filter_eq_nil_iff.mpr fun c hc => by simp [h c hc]
  refine replace_induction hne (P := fun s =>
    (replace pat repl s).filter delimiter = s.filter delimiter) ?_ ?_ ?_ s
  · rw [replace_nil hne]
  · intro s ih
    rw [replace_match hne, List.filter_append, List.filter_append, ih, hnone hpat, hnone hrepl]
  · intro c s hm ih
    rw [replace_skip hne repl hm, List.filter_cons, List.filter_cons, ih]

/-- **What stands between the delimiters is replaced piece by piece.** -/
theorem splitOnP_replace (s : List α) :
    (replace pat repl s).splitOnP delimiter = (s.splitOnP delimiter).map (replace pat repl) := by
  -- `a` is what has been read of the piece that is being read
  have main : ∀ s a : List α, (∀ c ∈ a, delimiter c = false) →
      (replace pat repl (a ++ s)).splitOnP delimiter =
        ((a ++ s).splitOnP delimiter).map (replace pat repl) := by
    intro s
    induction s with
    | nil =>
      intro a ha
      have hpiece : ∀ c ∈ replace pat repl a, delimiter c = false :=
        fun c hc => (mem_replace hne hc).elim (ha c) (hrepl c)
      rw [List.append_nil, List.splitOnP_eq_singleton ha, List.splitOnP_eq_singleton hpiece]
      rfl
    | cons d s ih =>
      intro a ha
      by_cases hd : delimiter d = true
      · have hpiece : ∀ c ∈ replace pat repl a, delimiter c = false :=
          fun c hc => (mem_replace hne hc).elim (ha c) (hrepl c)
        have hother : d ∉ pat := fun hm => absurd (hd.symm.trans (hpat d hm)) nofun
        have hrest := ih [] (List.forall_mem_nil _)
        rw [List.nil_append] at hrest
        rw [replace_append_cons hne hother, List.splitOnP_append_cons_of_forall_mem hpiece d hd,
          List.splitOnP_append_cons_of_forall_mem ha d hd, hrest, List.map_cons]
      · have hnext := ih (a ++ [d]) (by simpa [or_imp, forall_and] using ⟨ha, by simpa using hd⟩)
        rwa [List.append_assoc, List.singleton_append] at hnext
  exact main s [] (List.forall_mem_nil _)

end Division

end DlnaProxy.Lib.Utf8
