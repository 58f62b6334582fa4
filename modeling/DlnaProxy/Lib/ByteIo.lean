import Mathlib

/-!
# Byte computations over a buffered reader

A computation reads from a reader, appends to one output and ends with a value
or halts. `loop` is the unbounded loop of the source language. It is cut off
after one pass for each unread byte, so every loop whose passes consume a byte
runs to its own end; `loop_eq` is the unfolding rule, `loop_rule` the step rule
and `Simulates.loop` the rule that carries a loop from one reader to another.
-/
namespace DlnaProxy.Lib.ByteIo

inductive ErrorKind where
  | unexpectedEof
  | invalidData
  deriving DecidableEq, Repr

structure IoError where
  kind : ErrorKind
  message : List Char
  deriving DecidableEq, Repr

/-- The ends of a computation that leave no value. `pending` is a read that waits
on a peer that has not closed, `diverged` a loop that was cut off. -/
inductive Halt where
  | error (e : IoError)
  | panic
  | pending
  | diverged
  deriving DecidableEq, Repr

structure Run (R α : Type) where
  outcome : Except Halt α
  reader : R
  written : List UInt8

def Io (R α : Type) := R → Run R α

variable {R R' σ α β : Type}

namespace Run

/-- The run that had already written `bytes` when it started. -/
def prepend (bytes : List UInt8) (x : Run R α) : Run R α :=
  { x with written := bytes ++ x.written }

def mapReader (view : R → R') (x : Run R α) : Run R' α :=
  ⟨x.outcome, view x.reader, x.written⟩

@[simp] theorem prepend_nil (x : Run R α) : x.prepend [] = x := rfl

@[simp] theorem prepend_prepend (v w : List UInt8) (x : Run R α) :
    (x.prepend w).prepend v = x.prepend (v ++ w) := by
  simp [prepend]

@[simp] theorem prepend_outcome (w : List UInt8) (x : Run R α) :
    (x.prepend w).outcome = x.outcome := rfl

@[simp] theorem prepend_reader (w : List UInt8) (x : Run R α) :
    (x.prepend w).reader = x.reader := rfl

@[simp] theorem prepend_written (w : List UInt8) (x : Run R α) :
    (x.prepend w).written = w ++ x.written := rfl

theorem prepend_injective (w : List UInt8) :
    Function.Injective (Run.prepend w : Run R α → Run R α) := by
  intro x y h
  obtain ⟨outcome, reader, written⟩ := x
  obtain ⟨outcome', reader', written'⟩ := y
  simp only [prepend, mk.injEq, List.append_cancel_left_eq] at h
  obtain ⟨rfl, rfl, rfl⟩ := h
  rfl

theorem prepend_mk (w v : List UInt8) (o : Except Halt α) (r : R) :
    Run.prepend w ⟨o, r, v⟩ = ⟨o, r, w ++ v⟩ := rfl

@[simp] theorem mapReader_prepend (view : R → R') (w : List UInt8) (x : Run R α) :
    (x.prepend w).mapReader view = (x.mapReader view).prepend w := rfl

@[simp] theorem mapReader_id (x : Run R α) : x.mapReader id = x := rfl

end Run

protected def Io.pure (a : α) : Io R α := fun r => ⟨.ok a, r, []⟩

protected def Io.bind (m : Io R α) (f : α → Io R β) : Io R β := fun r =>
  match m r with
  | ⟨.ok a, r', w⟩ => (f a r').prepend w
  | ⟨.error h, r', w⟩ => ⟨.error h, r', w⟩

instance : Monad (Io R) where
  pure := Io.pure
  bind := Io.bind

@[simp] theorem pure_apply (a : α) (r : R) : (pure a : Io R α) r = ⟨.ok a, r, []⟩ := rfl

theorem bind_apply (m : Io R α) (f : α → Io R β) (r : R) :
    (m >>= f) r = match m r with
      | ⟨.ok a, r', w⟩ => (f a r').prepend w
      | ⟨.error h, r', w⟩ => ⟨.error h, r', w⟩ := rfl

theorem bind_ok {m : Io R α} {f : α → Io R β} {r r' : R} {a : α} {w : List UInt8}
    (h : m r = ⟨.ok a, r', w⟩) : (m >>= f) r = (f a r').prepend w := by
  rw [bind_apply, h]

theorem bind_halt {m : Io R α} {f : α → Io R β} {r r' : R} {e : Halt} {w : List UInt8}
    (h : m r = ⟨.error e, r', w⟩) : (m >>= f) r = ⟨.error e, r', w⟩ := by
  rw [bind_apply, h]

/-- What a computation that returned has gone through. -/
theorem bind_eq_ok {m : Io R α} {f : α → Io R β} {r r' : R} {b : β} {w : List UInt8}
    (h : (m >>= f) r = ⟨.ok b, r', w⟩) :
    ∃ a r₁ w₁ w₂, m r = ⟨.ok a, r₁, w₁⟩ ∧ f a r₁ = ⟨.ok b, r', w₂⟩ ∧ w = w₁ ++ w₂ := by
  rcases hm : m r with ⟨e | a, r₁, w₁⟩
  · rw [bind_halt hm] at h
    cases h
  · rw [bind_ok hm] at h
    rcases hf : f a r₁ with ⟨o, r₂, w₂⟩
    rw [hf, Run.prepend_mk, Run.mk.injEq] at h
    obtain ⟨rfl, rfl, rfl⟩ := h
    exact ⟨a, r₁, w₁, w₂, rfl, hf, rfl⟩

/-- Where a computation that halted did so. -/
theorem bind_eq_error {m : Io R α} {f : α → Io R β} {r r' : R} {e : Halt} {w : List UInt8}
    (h : (m >>= f) r = ⟨.error e, r', w⟩) : m r = ⟨.error e, r', w⟩ ∨
      ∃ a r₁ w₁ w₂, m r = ⟨.ok a, r₁, w₁⟩ ∧ f a r₁ = ⟨.error e, r', w₂⟩ ∧ w = w₁ ++ w₂ := by
  rcases hm : m r with ⟨e' | a, r₁, w₁⟩
  · rw [bind_halt hm] at h
    cases h
    exact Or.inl rfl
  · rw [bind_ok hm] at h
    rcases hf : f a r₁ with ⟨o, r₂, w₂⟩
    rw [hf, Run.prepend_mk, Run.mk.injEq] at h
    obtain ⟨rfl, rfl, rfl⟩ := h
    exact Or.inr ⟨a, r₁, w₁, w₂, rfl, hf, rfl⟩

@[simp] theorem pure_bind_apply (a : α) (f : α → Io R β) (r : R) :
    ((pure a : Io R α) >>= f) r = f a r := rfl

def halt (h : Halt) : Io R α := fun r => ⟨.error h, r, []⟩

def fail (e : IoError) : Io R α := halt (.error e)

def writeAll (bytes : List UInt8) : Io R Unit := fun r => ⟨.ok (), r, bytes⟩

/-- A socket has no buffer of its own to flush. -/
def flush : Io R Unit := pure ()

@[simp] theorem halt_apply (h : Halt) (r : R) : (halt h : Io R α) r = ⟨.error h, r, []⟩ := rfl

@[simp] theorem fail_apply (e : IoError) (r : R) :
    (fail e : Io R α) r = ⟨.error (.error e), r, []⟩ := rfl

@[simp] theorem writeAll_bind_apply (bytes : List UInt8) (f : Unit → Io R β) (r : R) :
    (writeAll bytes >>= f) r = (f () r).prepend bytes := rfl

@[simp] theorem writeAll_apply (bytes : List UInt8) (r : R) :
    (writeAll bytes : Io R Unit) r = ⟨.ok (), r, bytes⟩ := rfl

@[simp] theorem flush_bind_apply (f : Unit → Io R β) (r : R) : (flush >>= f) r = f () r := rfl

/-- `m'` does on the view of a reader what `m` does on the reader. -/
def Simulates (view : R → R') (m : Io R α) (m' : Io R' α) : Prop :=
  ∀ r, (m r).mapReader view = m' (view r)

namespace Simulates

variable {view : R → R'}

theorem pure (a : α) : Simulates view (pure a) (pure a) := fun _ => rfl

theorem halt (h : Halt) : Simulates view (halt h : Io R α) (ByteIo.halt h) := fun _ => rfl

theorem fail (e : IoError) : Simulates view (fail e : Io R α) (ByteIo.fail e) := fun _ => rfl

theorem writeAll (bytes : List UInt8) :
    Simulates view (writeAll bytes : Io R Unit) (ByteIo.writeAll bytes) := fun _ => rfl

theorem bind {m : Io R α} {m' : Io R' α} {f : α → Io R β} {f' : α → Io R' β}
    (hm : Simulates view m m') (hf : ∀ a, Simulates view (f a) (f' a)) :
    Simulates view (m >>= f) (m' >>= f') := by
  intro r
  rw [bind_apply, bind_apply, ← hm r]
  rcases m r with ⟨_ | a, r', w⟩
  · rfl
  · simp only [Run.mapReader]
    rw [← hf a r']
    rfl

end Simulates

/-- A buffered reader. `unread` counts the bytes still to come: it bounds the
loops and is no operation of the interface. -/
class AsyncBufRead (R : Type) where
  fillBuf : Io R (List UInt8)
  consume (amt : Nat) : Io R Unit
  read (len : Nat) : Io R (List UInt8)
  unread : R → Nat

export AsyncBufRead (fillBuf consume read unread)

inductive Control (σ α : Type) where
  | next (s : σ)
  | done (a : α)

def loopFuel (body : σ → Io R (Control σ α)) : Nat → σ → Io R α
  | 0, _ => halt .diverged
  | n + 1, s => body s >>= fun
    | .next s' => loopFuel body n s'
    | .done a => pure a

theorem Simulates.loopFuel {body : σ → Io R (Control σ α)} {body' : σ → Io R' (Control σ α)}
    {view : R → R'} (hb : ∀ s, Simulates view (body s) (body' s)) (n : Nat) :
    ∀ s, Simulates view (ByteIo.loopFuel body n s) (ByteIo.loopFuel body' n s) := by
  induction n with
  | zero => exact fun _ => Simulates.halt .diverged
  | succ n ih =>
    intro s
    refine Simulates.bind (hb s) ?_
    rintro (s' | a)
    · exact ih s'
    · exact Simulates.pure a

variable [AsyncBufRead R] [AsyncBufRead R']

def loop (body : σ → Io R (Control σ α)) (s : σ) : Io R α :=
  fun r => loopFuel body (unread r + 1) s r

/-- A pass that asks for another one has consumed a byte. -/
def Progress (body : σ → Io R (Control σ α)) : Prop :=
  ∀ s r s', (body s r).outcome = .ok (.next s') → unread (body s r).reader < unread r

/-- The run of a loop after one pass. -/
def resume (body : σ → Io R (Control σ α)) : Run R (Control σ α) → Run R α
  | ⟨.ok (.next s), r, w⟩ => (loop body s r).prepend w
  | ⟨.ok (.done a), r, w⟩ => ⟨.ok a, r, w⟩
  | ⟨.error h, r, w⟩ => ⟨.error h, r, w⟩

theorem loopFuel_stable {body : σ → Io R (Control σ α)} (hp : Progress body) :
    ∀ (n m : Nat) (s : σ) (r : R), unread r < n → unread r < m →
      loopFuel body n s r = loopFuel body m s r := by
  intro n
  induction n with
  | zero => intro m s r hn; omega
  | succ n ih =>
    intro m s r hn hm
    obtain ⟨m, rfl⟩ : ∃ k, m = k + 1 := ⟨m - 1, by omega⟩
    have hlt := hp s r
    simp only [loopFuel, bind_apply]
    rcases hb : body s r with ⟨_ | (s' | a), r', w⟩
    · rfl
    · rw [hb] at hlt
      have hr := hlt s' rfl
      exact congrArg (Run.prepend w) (ih m s' r' (by simp only at hr; omega) (by simp only at hr; omega))
    · rfl

theorem loop_eq {body : σ → Io R (Control σ α)} (hp : Progress body) (s : σ) (r : R) :
    loop body s r = resume body (body s r) := by
  have hlt := hp s r
  rw [loop, loopFuel, bind_apply]
  rcases hb : body s r with ⟨_ | (s' | a), r', w⟩ <;> rw [hb] at hlt
  · rfl
  · have hr := hlt s' rfl
    simp only [resume, loop]
    rw [loopFuel_stable hp (unread r) (unread r' + 1) s' r' hr (by omega)]
  · simp [resume, Run.prepend_mk]

/-- The step rule: what the last pass establishes and every earlier one passes
on holds of the whole run. -/
theorem loop_rule {body : σ → Io R (Control σ α)} (hp : Progress body)
    {P : σ → R → Run R α → Prop}
    (next : ∀ s r s' r' w, body s r = ⟨.ok (.next s'), r', w⟩ →
      P s' r' (loop body s' r') → P s r ((loop body s' r').prepend w))
    (done : ∀ s r a r' w, body s r = ⟨.ok (.done a), r', w⟩ → P s r ⟨.ok a, r', w⟩)
    (halted : ∀ s r h r' w, body s r = ⟨.error h, r', w⟩ → P s r ⟨.error h, r', w⟩) :
    ∀ s r, P s r (loop body s r) := by
  have main : ∀ n s r, unread r = n → P s r (loop body s r) := by
    intro n
    induction n using Nat.strongRecOn with
    | ind n ih =>
      intro s r hn
      have hlt := hp s r
      rw [loop_eq hp]
      rcases hb : body s r with ⟨h | (s' | a), r', w⟩ <;> rw [hb] at hlt
      · exact halted s r h r' w hb
      · exact next s r s' r' w hb (ih _ (hn ▸ hlt s' rfl) s' r' rfl)
      · exact done s r a r' w hb
  exact fun s r => main _ s r rfl

/-- Passes lead from one state and reader to another and write `w` on the way. -/
inductive Reaches (body : σ → Io R (Control σ α)) : σ → R → List UInt8 → σ → R → Prop
  | refl (s : σ) (r : R) : Reaches body s r [] s r
  | step {s s' s'' : σ} {r r' r'' : R} {v w : List UInt8}
      (pass : body s r = ⟨.ok (.next s'), r', v⟩) (rest : Reaches body s' r' w s'' r'') :
      Reaches body s r (v ++ w) s'' r''

/-- From there on the loop runs as if it had started there. -/
theorem Reaches.loop_eq {body : σ → Io R (Control σ α)} (hp : Progress body) {s s' : σ} {r r' : R}
    {w : List UInt8} (h : Reaches body s r w s' r') :
    loop body s r = (loop body s' r').prepend w := by
  induction h with
  | refl s r => exact (Run.prepend_nil _).symm
  | step pass rest ih => rw [ByteIo.loop_eq hp, pass, resume, ih, Run.prepend_prepend]

/-- A pass that asks for another one is the first. -/
theorem Reaches.loop_step {body : σ → Io R (Control σ α)} (hp : Progress body) {s s' : σ} {r r' : R}
    {w : List UInt8} (pass : body s r = ⟨.ok (.next s'), r', w⟩) :
    loop body s r = (loop body s' r').prepend w := by
  rw [ByteIo.loop_eq hp, pass]
  rfl

/-- A loop halts where one of its passes does. -/
theorem Reaches.of_loop_error {body : σ → Io R (Control σ α)} (hp : Progress body) {e : Halt} :
    ∀ s r, (loop body s r).outcome = .error e →
      ∃ w s' r' last v, Reaches body s r w s' r' ∧ body s' r' = ⟨.error e, last, v⟩ ∧
        loop body s r = ⟨.error e, last, w ++ v⟩ := by
  refine loop_rule hp (P := fun s r x => x.outcome = .error e →
    ∃ w s' r' last v, Reaches body s r w s' r' ∧ body s' r' = ⟨.error e, last, v⟩ ∧
      x = ⟨.error e, last, w ++ v⟩) ?_ ?_ ?_
  · intro s r s' r' u hpass ih herr
    obtain ⟨w, s'', r'', last, v, hreach, hhalt, hrun⟩ := ih herr
    refine ⟨u ++ w, s'', r'', last, v, .step hpass hreach, hhalt, ?_⟩
    rw [hrun, Run.prepend_mk, List.append_assoc]
  · intro s r a r' w _ herr
    cases herr
  · intro s r h r' w hpass herr
    cases herr
    exact ⟨[], s, r, r', w, .refl s r, hpass, rfl⟩

/-- From a reader in `P` the computation leaves one in `P`, and it halts only
where `Q` allows. -/
def Ends (P : R → Prop) (Q : Halt → Prop) (m : Io R α) : Prop :=
  ∀ r, P r → P (m r).reader ∧ ∀ h, (m r).outcome = .error h → Q h

namespace Ends

variable {P : R → Prop} {Q : Halt → Prop}

omit [AsyncBufRead R]

theorem pure (a : α) : Ends P Q (pure a) := fun _ hr => ⟨hr, fun _ h => nomatch h⟩

theorem halt {h : Halt} (hq : Q h) : Ends P Q (halt h : Io R α) := by
  intro r hr
  refine ⟨hr, ?_⟩
  rintro _ ⟨⟩
  exact hq

theorem writeAll (bytes : List UInt8) : Ends P Q (writeAll bytes) :=
  fun _ hr => ⟨hr, fun _ h => nomatch h⟩

theorem bind {m : Io R α} {f : α → Io R β} (hm : Ends P Q m) (hf : ∀ a, Ends P Q (f a)) :
    Ends P Q (m >>= f) := by
  intro r hr
  have hm' := hm r hr
  rw [bind_apply]
  rcases hmr : m r with ⟨h | a, r', w⟩ <;> rw [hmr] at hm'
  · exact ⟨hm'.1, fun _ he => hm'.2 _ (by cases he; rfl)⟩
  · exact hf a r' hm'.1

end Ends

theorem Ends.loop {P : R → Prop} {Q : Halt → Prop} {body : σ → Io R (Control σ α)}
    (hp : Progress body) (hb : ∀ s, Ends P Q (body s)) (s : σ) : Ends P Q (loop body s) := by
  refine loop_rule hp (P := fun _ r x => P r → P x.reader ∧ ∀ h, x.outcome = .error h → Q h)
    ?_ ?_ ?_ s
  · intro s r s' r' w he ih hr
    have h := hb s r hr
    rw [he] at h
    exact ih h.1
  · intro s r a r' w he hr
    have h := hb s r hr
    rw [he] at h
    exact ⟨h.1, fun _ h => nomatch h⟩
  · intro s r h r' w he hr
    have hh := hb s r hr
    rw [he] at hh
    exact ⟨hh.1, fun _ h' => hh.2 _ (by cases h'; rfl)⟩

namespace Simulates

variable {view : R → R'}

theorem loop (hu : ∀ r, unread (view r) = unread r) {body : σ → Io R (Control σ α)}
    {body' : σ → Io R' (Control σ α)} (hb : ∀ s, Simulates view (body s) (body' s)) (s : σ) :
    Simulates view (loop body s) (ByteIo.loop body' s) := by
  intro r
  rw [ByteIo.loop, ByteIo.loop, hu r]
  exact loopFuel hb _ s r

end Simulates

end DlnaProxy.Lib.ByteIo
