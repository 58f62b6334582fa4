import DlnaProxy.Lib.BufReader

/-!
# Rules for computations over lawful readers

Properties that pass from the operations through `bind` and `loop`: `Simulates view`,
that a computation does on a reader what it does on the reader's stream; `Settles`,
that it ends, never gains bytes and waits only for an open peer; and `Forwards held`,
that its output is the bytes in hand followed by bytes read, in order and without a
gap.
-/
namespace DlnaProxy.Lib.ByteIo

variable {R σ α β : Type} [LawfulAsyncBufRead R]

/-! ## Simulation -/

theorem readUntil_eq (byte : UInt8) (s : Stream) : readUntil byte s = lineRun byte s :=
  readUntil_view byte s

theorem readExact_eq (len : Nat) (s : Stream) : readExact len s = exactRun len s :=
  readExact_view len s

theorem copy_eq (s : Stream) : copy s = copyRun s := copy_view s

namespace Simulates

theorem readUntil (byte : UInt8) :
    Simulates (view : R → Stream) (readUntil byte) (ByteIo.readUntil byte) :=
  fun r => (readUntil_view byte r).trans (readUntil_eq byte (view r)).symm

theorem readExact (len : Nat) :
    Simulates (view : R → Stream) (readExact len) (ByteIo.readExact len) :=
  fun r => (readExact_view len r).trans (readExact_eq len (view r)).symm

theorem copy : Simulates (view : R → Stream) copy ByteIo.copy :=
  fun r => (copy_view r).trans (copy_eq (view r)).symm

/-- The run on a reader, seen from the run on its stream. -/
theorem outcome {m : Io R α} {m' : Io Stream α} (h : Simulates view m m') (r : R) :
    (m r).outcome = (m' (view r)).outcome := congrArg Run.outcome (h r)

theorem reader {m : Io R α} {m' : Io Stream α} (h : Simulates view m m') (r : R) :
    view (m r).reader = (m' (view r)).reader := congrArg Run.reader (h r)

/-- Passes that make progress on streams make it on readers. -/
theorem progress {body : σ → Io R (Control σ α)} {body' : σ → Io Stream (Control σ α)}
    (hb : ∀ s, Simulates view (body s) (body' s)) (hp : Progress body') : Progress body := by
  intro s r s' h
  rw [(hb s).outcome] at h
  rw [unread_view, unread_view, (hb s).reader]
  exact hp s (view r) s' h

/-- Passes on the stream are passes on the reader. -/
theorem reaches {body : σ → Io R (Control σ α)} {body' : σ → Io Stream (Control σ α)}
    (hb : ∀ s, Simulates view (body s) (body' s)) {s s' : σ} {w : List UInt8} {v v' : Stream}
    (h : Reaches body' s v w s' v') : ∀ r, view r = v → ∃ r', Reaches body s r w s' r' ∧ view r' = v' := by
  induction h with
  | refl s v => exact fun r hr => ⟨r, Reaches.refl s r, hr⟩
  | step pass rest ih =>
    rintro r rfl
    have hrun := (hb _ r).trans pass
    rcases hr : body _ r with ⟨o, r₁, w₁⟩
    rw [hr, Run.mapReader, Run.mk.injEq] at hrun
    obtain ⟨rfl, hview, rfl⟩ := hrun
    obtain ⟨r', hreach, hr'⟩ := ih r₁ hview
    exact ⟨r', Reaches.step hr hreach, hr'⟩

/-- And passes on the reader are passes on the stream. -/
theorem view_reaches {body : σ → Io R (Control σ α)} {body' : σ → Io Stream (Control σ α)}
    (hb : ∀ s, Simulates view (body s) (body' s)) {s s' : σ} {w : List UInt8} {r r' : R}
    (h : Reaches body s r w s' r') : Reaches body' s (view r) w s' (view r') := by
  induction h with
  | refl s r => exact Reaches.refl s (view r)
  | @step s s₁ s₂ r r₁ r₂ v w pass rest ih =>
    have hrun := hb s r
    rw [pass] at hrun
    exact Reaches.step hrun.symm ih

end Simulates

/-! ## Termination -/

/-- At most `n` bytes are to come and the peer is closed or not as `c` says. -/
def Within (n : Nat) (c : Bool) (s : Stream) : Prop := s.bytes.length ≤ n ∧ s.closed = c

/-- No loop is cut off, and no read waits for a closed peer. -/
def Fair (c : Bool) (h : Halt) : Prop := h ≠ .diverged ∧ (h = .pending → c = false)

def Settles (m : Io Stream α) : Prop := ∀ n c, Ends (Within n c) (Fair c) m

namespace Settles

theorem pure (a : α) : Settles (pure a) := fun _ _ => Ends.pure a

theorem fail (e : IoError) : Settles (fail e : Io Stream α) :=
  fun _ _ => Ends.halt ⟨by simp, fun h => nomatch h⟩

theorem panic : Settles (halt .panic : Io Stream α) :=
  fun _ _ => Ends.halt ⟨by simp, fun h => nomatch h⟩

theorem writeAll (bytes : List UInt8) : Settles (writeAll bytes) :=
  fun _ _ => Ends.writeAll bytes

theorem bind {m : Io Stream α} {f : α → Io Stream β} (hm : Settles m) (hf : ∀ a, Settles (f a)) :
    Settles (m >>= f) := fun n c => Ends.bind (hm n c) fun a => hf a n c

theorem loop {body : σ → Io Stream (Control σ α)} (hp : Progress body)
    (hb : ∀ s, Settles (body s)) (s : σ) : Settles (loop body s) :=
  fun n c => Ends.loop hp (fun s => hb s n c) s

theorem length_le {m : Io Stream α} (h : Settles m) (s : Stream) :
    (m s).reader.bytes.length ≤ s.bytes.length := (h _ _ s ⟨Nat.le_refl _, rfl⟩).1.1

theorem fair {m : Io Stream α} (h : Settles m) {s : Stream} {e : Halt}
    (he : (m s).outcome = .error e) : Fair s.closed e := (h _ _ s ⟨Nat.le_refl _, rfl⟩).2 e he

/-- A computation settles if its run on a stream does. -/
theorem of_run {m : Io Stream α} (h : ∀ s, (m s).reader.bytes.length ≤ s.bytes.length ∧
    (m s).reader.closed = s.closed ∧ ∀ e, (m s).outcome = .error e → Fair s.closed e) :
    Settles m := by
  rintro n c s ⟨hn, hc⟩
  obtain ⟨hlen, hclosed, hfair⟩ := h s
  exact ⟨⟨Nat.le_trans hlen hn, hclosed.trans hc⟩, fun e he => hc ▸ hfair e he⟩

theorem atEnd_error {c : Bool} {io : IoError} {e : Halt}
    (h : atEnd c (.error (.error io) : Except Halt α) = .error e) : Fair c e := by
  cases c <;> cases h
  · exact ⟨by simp, fun _ => rfl⟩
  · exact ⟨by simp, fun h => nomatch h⟩

theorem atEnd_ok {c : Bool} {a : α} {e : Halt} (h : atEnd c (.ok a) = .error e) : Fair c e := by
  cases c <;> cases h
  exact ⟨by simp, fun _ => rfl⟩

theorem ok_fair {c : Bool} {a : α} {e : Halt} (h : (.ok a : Except Halt α) = .error e) :
    Fair c e := by
  cases h

theorem readUntil (byte : UInt8) : Settles (readUntil byte) := by
  refine of_run fun s => ?_
  rw [readUntil_eq, lineRun]
  split
  · exact ⟨by simp, rfl, fun e h => ok_fair h⟩
  · exact ⟨by simp, rfl, fun e h => atEnd_ok h⟩

theorem readExact (len : Nat) : Settles (readExact len) := by
  refine of_run fun s => ?_
  rw [readExact_eq, exactRun]
  split
  · exact ⟨by simp, rfl, fun e h => ok_fair h⟩
  · exact ⟨by simp, rfl, fun e h => atEnd_error h⟩

theorem copy : Settles copy := by
  refine of_run fun s => ?_
  rw [copy_eq, copyRun]
  exact ⟨by simp, rfl, fun e h => atEnd_ok h⟩

end Settles

theorem lineRun_length {byte : UInt8} {s : Stream} {line : List UInt8} {s' : Stream}
    {w : List UInt8} (h : lineRun byte s = ⟨.ok line, s', w⟩) :
    s.bytes = line ++ s'.bytes ∧ s'.closed = s.closed ∧ w = [] := by
  rw [lineRun] at h
  split at h
  · cases h
    exact ⟨(List.take_append_drop _ _).symm, rfl, rfl⟩
  · cases hc : s.closed <;> rw [hc] at h <;> cases h
    exact ⟨by simp, rfl, rfl⟩

/-! ## Silence -/

/-- A computation that writes nothing. -/
def Silent (m : Io Stream α) : Prop := ∀ s, (m s).written = []

namespace Silent

theorem pure (a : α) : Silent (pure a) := fun _ => rfl

theorem halt (h : Halt) : Silent (halt h : Io Stream α) := fun _ => rfl

theorem readUntil (byte : UInt8) : Silent (readUntil byte) := by
  intro s
  rw [readUntil_eq, lineRun]
  split <;> rfl

theorem readExact (len : Nat) : Silent (readExact len) := by
  intro s
  rw [readExact_eq, exactRun]
  split <;> rfl

theorem bind {m : Io Stream α} {f : α → Io Stream β} (hm : Silent m) (hf : ∀ a, Silent (f a)) :
    Silent (m >>= f) := by
  intro s
  have hw := hm s
  rcases hr : m s with ⟨e | a, r, w⟩ <;> rw [hr] at hw
  · rw [bind_halt hr]
    exact hw
  · obtain rfl : w = [] := hw
    rw [bind_ok hr, Run.prepend_nil]
    exact hf a r

theorem ite (p : Prop) [Decidable p] {m n : Io Stream α} (hm : Silent m) (hn : Silent n) :
    Silent (if p then m else n) := by
  split
  · exact hm
  · exact hn

theorem loop {body : σ → Io Stream (Control σ α)} (hp : Progress body)
    (hb : ∀ s, Silent (body s)) (s : σ) : Silent (loop body s) := by
  refine loop_rule hp (P := fun _ _ x => x.written = []) ?_ ?_ ?_ s
  · intro s r s' r' w he ih
    have hw := hb s r
    rw [he] at hw
    rw [Run.prepend_written, ih, List.append_nil]
    exact hw
  · intro s r a r' w he
    have hw := hb s r
    rwa [he] at hw
  · intro s r h r' w he
    have hw := hb s r
    rwa [he] at hw

end Silent

/-! ## Delivery -/

/-- With the bytes `held` in hand, what is written is a prefix of these and the
bytes to come, and nothing is missing between them when a value is returned. -/
def Forwards (held : List UInt8) (m : Io R α) : Prop :=
  ∀ r, (m r).written <+: held ++ (view r).bytes ∧
    ∀ a, (m r).outcome = .ok a → (m r).written ++ (view (m r).reader).bytes = held ++ (view r).bytes

namespace Forwards

theorem pure (a : α) : Forwards [] (pure a : Io R α) := fun _ => ⟨List.nil_prefix, fun _ _ => rfl⟩

theorem halt (held : List UInt8) (h : Halt) : Forwards held (halt h : Io R α) :=
  fun _ => ⟨List.nil_prefix, fun _ he => nomatch he⟩

theorem writeAll_bind {bytes : List UInt8} {f : Unit → Io R β} (h : Forwards [] (f ())) :
    Forwards bytes (writeAll bytes >>= f) := by
  intro r
  obtain ⟨hw, ho⟩ := h r
  refine ⟨?_, fun a ha => ?_⟩
  · simpa using (List.prefix_append_right_inj bytes).mpr hw
  · simpa using ho a ha

theorem bind {m : Io R α} {held : List UInt8} {f : α → Io R β} (hm : Forwards held m)
    (hf : ∀ a, Forwards [] (f a)) : Forwards held (m >>= f) := by
  intro r
  obtain ⟨hw, ho⟩ := hm r
  rw [bind_apply]
  rcases hr : m r with ⟨e | a, r', w⟩ <;> rw [hr] at hw ho
  · exact ⟨hw, fun _ he => nomatch he⟩
  · obtain ⟨hw', ho'⟩ := hf a r'
    have hall := ho a rfl
    dsimp only at hall
    refine ⟨?_, fun b hb => ?_⟩
    · simpa [← hall] using hw'
    · simpa [← hall] using ho' b hb

/-- Bytes that are read come into the hand. -/
theorem read_bind {m : Io R (List UInt8)} {held : List UInt8} {f : List UInt8 → Io R β}
    (hm : ∀ r, (m r).written = [] ∧ ∀ bytes, (m r).outcome = .ok bytes →
      (view r).bytes = bytes ++ (view (m r).reader).bytes)
    (hf : ∀ bytes, Forwards (held ++ bytes) (f bytes)) : Forwards held (m >>= f) := by
  intro r
  obtain ⟨hw, ho⟩ := hm r
  rw [bind_apply]
  rcases hr : m r with ⟨e | bytes, r', w⟩ <;> rw [hr] at hw ho
  · obtain rfl : w = [] := hw
    exact ⟨List.nil_prefix, fun _ he => nomatch he⟩
  · obtain rfl : w = [] := hw
    have hbytes := ho bytes rfl
    dsimp only at hbytes
    rw [hbytes, ← List.append_assoc]
    exact hf bytes r'

theorem readUntil_bind {byte : UInt8} {held : List UInt8} {f : List UInt8 → Io R β}
    (hf : ∀ bytes, Forwards (held ++ bytes) (f bytes)) :
    Forwards held (readUntil byte >>= f) := by
  refine read_bind (fun r => ?_) hf
  have hv := readUntil_view byte r
  rcases hr : readUntil byte r with ⟨e | bytes, r', w⟩ <;> rw [hr] at hv
  · refine ⟨?_, fun _ he => nomatch he⟩
    rw [lineRun] at hv
    split at hv <;> exact congrArg Run.written hv
  · obtain ⟨hb, _, hw⟩ := lineRun_length hv.symm
    refine ⟨hw, ?_⟩
    rintro _ ⟨⟩
    exact hb

theorem readExact_bind {len : Nat} {held : List UInt8} {f : List UInt8 → Io R β}
    (hf : ∀ bytes, Forwards (held ++ bytes) (f bytes)) :
    Forwards held (readExact len >>= f) := by
  refine read_bind (fun r => ?_) hf
  have hv := readExact_view len r
  rw [exactRun] at hv
  have hw := congrArg Run.written hv
  have ho := congrArg Run.outcome hv
  have hr := congrArg Run.reader hv
  dsimp only [Run.mapReader] at hw ho hr
  split at hv
  · next hle =>
    rw [if_pos hle] at hw ho hr
    refine ⟨hw, fun bytes hb => ?_⟩
    rw [hb] at ho
    cases ho
    rw [hr]
    exact (List.take_append_drop _ _).symm
  · next hle =>
    rw [if_neg hle] at hw ho
    refine ⟨hw, fun bytes hb => ?_⟩
    rw [hb] at ho
    cases hc : (view r).closed <;> rw [hc] at ho <;> cases ho

theorem ite (p : Prop) [Decidable p] {held : List UInt8} {m n : Io R α} (hm : Forwards held m)
    (hn : Forwards held n) : Forwards held (if p then m else n) := by
  split
  · exact hm
  · exact hn

theorem loop {body : σ → Io R (Control σ α)} (hp : Progress body)
    (hb : ∀ s, Forwards [] (body s)) (s : σ) : Forwards [] (loop body s) := by
  refine loop_rule hp (P := fun _ r x => x.written <+: [] ++ (view r).bytes ∧
    ∀ a, x.outcome = .ok a → x.written ++ (view x.reader).bytes = [] ++ (view r).bytes) ?_ ?_ ?_ s
  · intro s r s' r' w he ih
    obtain ⟨_, ho⟩ := hb s r
    rw [he] at ho
    have hall := ho _ rfl
    dsimp only at hall
    obtain ⟨hw', ho'⟩ := ih
    refine ⟨?_, fun b hb => ?_⟩
    · simpa [← hall] using hw'
    · simpa [← hall] using ho' b hb
  · intro s r a r' w he
    have h := hb s r
    rw [he] at h
    exact ⟨h.1, fun _ _ => h.2 _ rfl⟩
  · intro s r h r' w he
    have hh := hb s r
    rw [he] at hh
    exact ⟨hh.1, fun _ h => nomatch h⟩

theorem copy : Forwards [] (copy : Io R Nat) := by
  intro r
  have hv := copy_view r
  have hw := congrArg Run.written hv
  have hr := congrArg Run.reader hv
  dsimp only [Run.mapReader, copyRun] at hw hr
  refine ⟨by simp [hw], fun a _ => ?_⟩
  rw [hw, hr]
  simp

end Forwards

end DlnaProxy.Lib.ByteIo
