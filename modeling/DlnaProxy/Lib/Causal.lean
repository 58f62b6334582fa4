import DlnaProxy.Lib.Lawful

/-!
# Runs on a stream that is still open

On the bytes that have arrived a computation either waits for more, and has written
a prefix of what it will have written, or has ended as it does with any bytes to
come, which it leaves. So output never depends on bytes that come after it.
-/
namespace DlnaProxy.Lib.ByteIo

variable {α β σ : Type}

/-- What `m` does on arrived bytes is the beginning of what it does with more. -/
def Causal (m : Io Stream α) : Prop :=
  ∀ (bytes more : List UInt8) (c : Bool),
    ((m ⟨bytes, false⟩).outcome = .error .pending ∧
      (m ⟨bytes, false⟩).written <+: (m ⟨bytes ++ more, c⟩).written) ∨
    ∃ o left w, m ⟨bytes, false⟩ = ⟨o, ⟨left, false⟩, w⟩ ∧
      m ⟨bytes ++ more, c⟩ = ⟨o, ⟨left ++ more, c⟩, w⟩

namespace Causal

theorem written {m : Io Stream α} (h : Causal m) (bytes more : List UInt8) (c : Bool) :
    (m ⟨bytes, false⟩).written <+: (m ⟨bytes ++ more, c⟩).written := by
  rcases h bytes more c with ⟨_, hw⟩ | ⟨o, left, w, hshort, hlong⟩
  · exact hw
  · simp only [hshort, hlong, List.prefix_rfl]

theorem pure (a : α) : Causal (pure a : Io Stream α) :=
  fun bytes _ _ => Or.inr ⟨_, bytes, _, rfl, rfl⟩

theorem halt (h : Halt) : Causal (halt h : Io Stream α) :=
  fun bytes _ _ => Or.inr ⟨_, bytes, _, rfl, rfl⟩

theorem writeAll (out : List UInt8) : Causal (writeAll out) :=
  fun bytes _ _ => Or.inr ⟨_, bytes, _, rfl, rfl⟩

theorem bind {m : Io Stream α} {f : α → Io Stream β} (hm : Causal m) (hf : ∀ a, Causal (f a)) :
    Causal (m >>= f) := by
  intro bytes more c
  rcases hm bytes more c with ⟨hpend, hw⟩ | ⟨o, left, w, hshort, hlong⟩
  · refine Or.inl ⟨?_, ?_⟩
    · rw [bind_apply]
      rcases hr : m ⟨bytes, false⟩ with ⟨o, r, w⟩
      rw [hr] at hpend
      obtain rfl : o = .error .pending := hpend
      rfl
    · rw [bind_apply, bind_apply]
      rcases hr : m ⟨bytes, false⟩ with ⟨o, r, w⟩
      rw [hr] at hpend hw
      obtain rfl : o = .error .pending := hpend
      rcases hl : m ⟨bytes ++ more, c⟩ with ⟨o' | a, r', w'⟩ <;> rw [hl] at hw
      · exact hw
      · exact hw.trans (List.prefix_append _ _)
  · cases o with
    | error h => exact Or.inr ⟨.error h, left, w, bind_halt hshort, bind_halt hlong⟩
    | ok a =>
      rw [bind_ok hshort, bind_ok hlong]
      rcases hf a left more c with ⟨hpend, hw⟩ | ⟨o, left', w', hshort', hlong'⟩
      · exact Or.inl ⟨hpend, (List.prefix_append_right_inj w).mpr hw⟩
      · exact Or.inr ⟨o, left', w ++ w', by rw [hshort']; rfl, by rw [hlong']; rfl⟩

theorem readUntil (byte : UInt8) : Causal (readUntil byte : Io Stream (List UInt8)) := by
  intro bytes more c
  rw [readUntil_eq, readUntil_eq]
  by_cases h : byte ∈ bytes
  · obtain ⟨line, rest, rfl, hline⟩ := List.eq_append_cons_of_mem h
    refine Or.inr ⟨_, rest, _, lineRun_line hline rest false, ?_⟩
    rw [List.append_assoc, List.cons_append]
    exact lineRun_line hline (rest ++ more) c
  · rw [lineRun_last h]
    exact Or.inl ⟨rfl, List.nil_prefix⟩

theorem readExact (len : Nat) : Causal (readExact len : Io Stream (List UInt8)) := by
  intro bytes more c
  rw [readExact_eq, readExact_eq]
  by_cases h : len ≤ bytes.length
  · refine Or.inr ⟨.ok (bytes.take len), bytes.drop len, [], ?_, ?_⟩
    · rw [exactRun, if_pos h]
    · rw [exactRun, if_pos (Nat.le_trans h (by simp)), List.take_append_of_le_length h,
        List.drop_append_of_le_length h]
  · rw [exactRun, if_neg h]
    exact Or.inl ⟨rfl, List.nil_prefix⟩

theorem copy : Causal (copy : Io Stream Nat) := by
  intro bytes more c
  rw [copy_eq, copy_eq]
  exact Or.inl ⟨rfl, List.prefix_append _ _⟩

theorem loop {body : σ → Io Stream (Control σ α)} (hp : Progress body)
    (hb : ∀ s, Causal (body s)) (s : σ) : Causal (loop body s) := by
  intro bytes more c
  induction hn : bytes.length using Nat.strongRecOn generalizing bytes s with
  | ind n ih =>
    rw [loop_eq hp, loop_eq hp]
    rcases hb s bytes more c with ⟨hpend, hw⟩ | ⟨o, left, w, hshort, hlong⟩
    · rcases hr : body s ⟨bytes, false⟩ with ⟨o, r, w⟩
      rw [hr] at hpend hw
      obtain rfl : o = .error .pending := hpend
      refine Or.inl ⟨rfl, ?_⟩
      rcases hl : body s ⟨bytes ++ more, c⟩ with ⟨h | (s' | a), r', w'⟩ <;> rw [hl] at hw
      · exact hw
      · exact hw.trans (List.prefix_append _ _)
      · exact hw
    · rw [hshort, hlong]
      rcases o with h | (s' | a)
      · exact Or.inr ⟨_, left, w, rfl, rfl⟩
      · have hlt := hp s ⟨bytes, false⟩ s' (by rw [hshort])
        rw [hshort] at hlt
        rcases ih left.length (hn ▸ hlt) s' left rfl with
          ⟨hpend, hw⟩ | ⟨o, left', w', hshort', hlong'⟩
        · exact Or.inl ⟨hpend, (List.prefix_append_right_inj w).mpr hw⟩
        · refine Or.inr ⟨o, left', w ++ w', ?_, ?_⟩
          · rw [resume, hshort']
            rfl
          · rw [resume, hlong']
            rfl
      · exact Or.inr ⟨_, left, w, rfl, rfl⟩

end Causal

/-! ## Programs over a reader and over its stream -/

variable {R : Type} [LawfulAsyncBufRead R]

/-- `m` does on a reader what `m'` does on its stream, and `m'` settles and is causal. -/
structure Streamed (m : Io R α) (m' : Io Stream α) : Prop where
  simulates : Simulates view m m'
  settles : Settles m'
  causal : Causal m'

namespace Streamed

theorem pure (a : α) : Streamed (pure a : Io R α) (pure a) :=
  ⟨Simulates.pure a, Settles.pure a, Causal.pure a⟩

theorem fail (e : IoError) : Streamed (fail e : Io R α) (fail e) :=
  ⟨Simulates.fail e, Settles.fail e, Causal.halt (.error e)⟩

theorem panic : Streamed (halt .panic : Io R α) (halt .panic) :=
  ⟨Simulates.halt .panic, Settles.panic, Causal.halt .panic⟩

theorem writeAll (bytes : List UInt8) : Streamed (writeAll bytes : Io R Unit) (writeAll bytes) :=
  ⟨Simulates.writeAll bytes, Settles.writeAll bytes, Causal.writeAll bytes⟩

theorem readUntil (byte : UInt8) :
    Streamed (readUntil byte : Io R (List UInt8)) (readUntil byte) :=
  ⟨Simulates.readUntil byte, Settles.readUntil byte, Causal.readUntil byte⟩

theorem readExact (len : Nat) : Streamed (readExact len : Io R (List UInt8)) (readExact len) :=
  ⟨Simulates.readExact len, Settles.readExact len, Causal.readExact len⟩

theorem copy : Streamed (copy : Io R Nat) copy :=
  ⟨Simulates.copy, Settles.copy, Causal.copy⟩

theorem bind {m : Io R α} {m' : Io Stream α} {f : α → Io R β} {f' : α → Io Stream β}
    (hm : Streamed m m') (hf : ∀ a, Streamed (f a) (f' a)) : Streamed (m >>= f) (m' >>= f') :=
  ⟨Simulates.bind hm.simulates fun a => (hf a).simulates,
    Settles.bind hm.settles fun a => (hf a).settles, Causal.bind hm.causal fun a => (hf a).causal⟩

theorem ite (p : Prop) [Decidable p] {m n : Io R α} {m' n' : Io Stream α} (hm : Streamed m m')
    (hn : Streamed n n') : Streamed (if p then m else n) (if p then m' else n') := by
  split
  · exact hm
  · exact hn

theorem loop {body : σ → Io R (Control σ α)} {body' : σ → Io Stream (Control σ α)}
    (hp : Progress body') (hb : ∀ s, Streamed (body s) (body' s)) (s : σ) :
    Streamed (loop body s) (loop body' s) :=
  ⟨Simulates.loop (fun r => (unread_view r).symm) (fun s => (hb s).simulates) s,
    Settles.loop hp (fun s => (hb s).settles) s, Causal.loop hp (fun s => (hb s).causal) s⟩

end Streamed

/-- The passes start with a line. At the end of input, where the line is empty, the
loop is done with the value `last`. -/
def LineLoop (last : σ → α) (body : σ → Io R (Control σ α))
    (body' : σ → Io Stream (Control σ α)) : Prop :=
  ∃ (byte : UInt8) (f : σ → List UInt8 → Io R (Control σ α))
    (f' : σ → List UInt8 → Io Stream (Control σ α)),
    body = (fun s => readUntil byte >>= f s) ∧ body' = (fun s => readUntil byte >>= f' s) ∧
      (∀ s, f' s [] = pure (.done (last s))) ∧ ∀ s line, Streamed (f s line) (f' s line)

namespace LineLoop

variable {last : σ → α} {body : σ → Io R (Control σ α)} {body' : σ → Io Stream (Control σ α)}

/-- Any pass but the last has consumed its line. -/
theorem consumes (h : LineLoop last body body') {s : σ} {r : Stream} {x : Control σ α}
    (hx : (body' s r).outcome = .ok x) (hne : x ≠ .done (last s)) :
    unread (body' s r).reader < unread r := by
  obtain ⟨byte, f, f', _, rfl, hend, hf⟩ := h
  have hv := readUntil_eq byte r
  dsimp only at hx ⊢
  rw [bind_apply] at hx ⊢
  rcases hr : readUntil byte r with ⟨e | line, r', w⟩ <;> rw [hr] at hx hv
  · cases hx
  · obtain ⟨hb, _, _⟩ := lineRun_length hv.symm
    have hle := (hf s line).settles.length_le r'
    have hline : line ≠ [] := by
      rintro rfl
      dsimp only at hx
      rw [hend s] at hx
      cases hx
      exact hne rfl
    have hpos := List.length_pos_iff.mpr hline
    have hlen := congrArg List.length hb
    rw [List.length_append] at hlen
    show ((f' s line) r').reader.bytes.length < r.bytes.length
    omega

theorem progress (h : LineLoop last body body') : Progress body' :=
  fun _ _ _ hs => h.consumes hs nofun

theorem streamed_body (h : LineLoop last body body') (s : σ) : Streamed (body s) (body' s) := by
  obtain ⟨byte, f, f', rfl, rfl, _, hf⟩ := h
  exact Streamed.bind (Streamed.readUntil byte) (hf s)

theorem streamed (h : LineLoop last body body') (s : σ) : Streamed (loop body s) (loop body' s) :=
  Streamed.loop h.progress h.streamed_body s

/-- A loop that ends with another value than at the end of input has consumed a
byte. -/
theorem loop_consumes (h : LineLoop last body body') {a : α} (ha : ∀ s, last s ≠ a) :
    ∀ s r, (loop body' s r).outcome = .ok a → unread (loop body' s r).reader < unread r := by
  refine loop_rule h.progress (P := fun _ r x => x.outcome = .ok a → unread x.reader < unread r)
    ?_ ?_ ?_
  · intro s r s' r' w he ih hx
    have hlt := h.progress s r s' (by rw [he])
    rw [he] at hlt
    exact Nat.lt_trans (ih hx) hlt
  · intro s r a' r' w he hx
    cases hx
    have hlt := h.consumes (s := s) (r := r) (by rw [he]) (fun hd => ha s (by cases hd; rfl))
    rwa [he] at hlt
  · intro s r h r' w _ hx
    cases hx

end LineLoop

end DlnaProxy.Lib.ByteIo
