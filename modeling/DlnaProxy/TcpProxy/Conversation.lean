import DlnaProxy.TcpProxy.Messages

/-!
# Requests and answers on one connection

A client that writes a request when it has read the answers to those before, an origin
that answers a request when it has all of it, and `handle_conn` between them: one task
copies the requests on, the other runs the response loop on what has arrived. Bytes move
in pieces of any size and the steps come in any order. Neither side ever closes, so that
an answer has to get through while nothing follows it.
-/
namespace DlnaProxy.TcpProxy.Conversation

open DlnaProxy.Lib.ByteIo DlnaProxy.Lib.Utf8 DlnaProxy.Net DlnaProxy.TcpProxy

structure Exchange where
  request : List UInt8
  response : Response

/-- The connection and what the two sides have to say on it. -/
structure Setup where
  target : Target
  originAddr : SocketAddr
  proxyAddr : SocketAddr
  exchanges : List Exchange
  delivered : ∀ exchange ∈ exchanges, exchange.response.Delivered target

namespace Setup

variable (setup : Setup)

def proxy : TCPProxy := TCPProxy.new setup.originAddr setup.proxyAddr

/-- The bytes of the first `k` requests. -/
def requests (k : Nat) : List UInt8 := (setup.exchanges.take k).flatMap (·.request)

/-- Of the first `k` responses. -/
def responses (k : Nat) : List UInt8 := (setup.exchanges.take k).flatMap (·.response.bytes)

/-- What the client is to read in answer to the first `k` requests. -/
def answers (k : Nat) : List Message :=
  (setup.exchanges.take k).map fun exchange => exchange.response.message.proxied setup.proxy

/-- What the client has received when the proxy has read these pieces. -/
def received (arrivals : List Piece) : List UInt8 :=
  (proxyResponseWithRewrite setup.target setup.proxy ⟨arrivals, false⟩).written

end Setup

/-- How many requests the client has written, how many bytes of them have been copied to
the origin, how many responses the origin has written, and the pieces of them that the
proxy has read. -/
structure State where
  asked : Nat
  forwarded : Nat
  answered : Nat
  arrivals : List Piece

def State.init : State := ⟨0, 0, 0, []⟩

/-- The bytes start with these messages. -/
def StartsWith (bytes : List UInt8) (messages : List Message) : Prop :=
  ∃ got, got <+: bytes ∧ Decodes got messages

inductive Step (setup : Setup) (s : State) : State → Prop
  | asks {messages : List Message} (more : s.asked < setup.exchanges.length)
      (read : StartsWith (setup.received s.arrivals) messages) (all : messages.length = s.asked) :
      Step setup s { s with asked := s.asked + 1 }
  | copies {n : Nat} (further : s.forwarded < n) (written : n ≤ (setup.requests s.asked).length) :
      Step setup s { s with forwarded := n }
  | answers (asked : s.answered < s.asked)
      (whole : (setup.requests (s.answered + 1)).length ≤ s.forwarded) :
      Step setup s { s with answered := s.answered + 1 }
  | reads {piece : Piece}
      (sent : BufReader.joined (s.arrivals ++ [piece]) <+: setup.responses s.answered) :
      Step setup s { s with arrivals := s.arrivals ++ [piece] }

def Reachable (setup : Setup) : State → Prop := Relation.ReflTransGen (Step setup) State.init

variable {setup : Setup} {s s' : State}

/-! ## What is in order -/

theorem flatMap_take_prefix {α β : Type} (f : α → List β) (xs : List α) {k l : Nat} (h : k ≤ l) :
    (xs.take k).flatMap f <+: (xs.take l).flatMap f := by
  obtain ⟨rest, hrest⟩ := List.take_prefix_take_left (l := xs) h
  rw [← hrest, List.flatMap_append]
  exact List.prefix_append _ _

theorem requests_mono (setup : Setup) {k l : Nat} (h : k ≤ l) : setup.requests k <+: setup.requests l :=
  flatMap_take_prefix _ _ h

theorem responses_mono (setup : Setup) {k l : Nat} (h : k ≤ l) : setup.responses k <+: setup.responses l :=
  flatMap_take_prefix _ _ h

theorem joined_append (arrivals more : List Piece) :
    BufReader.joined (arrivals ++ more) = BufReader.joined arrivals ++ BufReader.joined more := by
  simp [BufReader.joined]

/-- Nothing is answered that has not been asked, and nothing has got further than it was
sent. -/
structure Ordered (setup : Setup) (s : State) : Prop where
  asked : s.asked ≤ setup.exchanges.length
  answered : s.answered ≤ s.asked
  forwarded : s.forwarded ≤ (setup.requests s.asked).length
  arrived : BufReader.joined s.arrivals <+: setup.responses s.answered

namespace Ordered

theorem init : Ordered setup State.init := ⟨Nat.zero_le _, Nat.le_refl _, Nat.zero_le _, List.nil_prefix⟩

theorem of_step (h : Ordered setup s) (hstep : Step setup s s') : Ordered setup s' := by
  cases hstep with
  | asks more _ _ =>
    have hmono := (requests_mono setup (Nat.le_succ s.asked)).length_le
    exact ⟨more, Nat.le_succ_of_le h.answered, Nat.le_trans h.forwarded hmono, h.arrived⟩
  | copies _ written => exact ⟨h.asked, h.answered, written, h.arrived⟩
  | answers asked _ =>
    exact ⟨h.asked, asked, h.forwarded, h.arrived.trans (responses_mono setup (Nat.le_succ _))⟩
  | reads sent => exact ⟨h.asked, h.answered, h.forwarded, sent⟩

theorem of_reachable (h : Reachable setup s) : Ordered setup s := by
  induction h with
  | refl => exact init
  | tail _ hstep ih => exact ih.of_step hstep

end Ordered

/-! ## What the client reads -/

/-- The client receives a response for each of those that have arrived, and of the rest
nothing else. -/
theorem exists_sent (setup : Setup) (k : Nat) : ∃ sent : List Response,
    sent.map (·.message) = setup.answers k ∧ ∀ arrivals : List Piece,
      (BufReader.joined arrivals = setup.responses k →
        setup.received arrivals = sent.flatMap (·.bytes)) ∧
      (BufReader.joined arrivals <+: setup.responses k →
        setup.received arrivals <+: sent.flatMap (·.bytes)) := by
  let responses := (setup.exchanges.take k).map (·.response)
  have hbytes : responses.flatMap (·.bytes) = setup.responses k := by
    rw [Setup.responses, List.flatMap_map]
  have hdelivered : ∀ r ∈ responses, r.Delivered setup.target := by
    intro r hr
    obtain ⟨exchange, hexchange, rfl⟩ := List.mem_map.mp hr
    exact setup.delivered exchange (List.mem_of_mem_take hexchange)
  obtain ⟨sent, hmessages, _, hloop⟩ := responseLoop_delivered setup.originAddr setup.proxyAddr
    hdelivered [] false
  rw [List.append_nil, responseLoop_incomplete _ _ incomplete_nil, hbytes] at hloop
  have hall (arrivals : List Piece) (h : BufReader.joined arrivals = setup.responses k) :
      setup.received arrivals = sent.flatMap (·.bytes) := by
    rw [Setup.received, proxyResponseWithRewrite_written, OwnedReadHalf.bytes, h]
    exact (congrArg Run.written hloop).trans (List.append_nil _)
  refine ⟨sent, ?_, fun arrivals => ⟨hall arrivals, ?_⟩⟩
  · rw [hmessages, List.map_map]
    rfl
  · intro h
    obtain ⟨rest, hrest⟩ := h
    have hmore : BufReader.joined (arrivals ++ BufReader.onePiece rest) = setup.responses k := by
      rw [joined_append, BufReader.joined_onePiece, hrest]
    rw [← hall _ hmore]
    exact proxyResponseWithRewrite_causal setup.target setup.proxy arrivals _ false

theorem answers_length (k : Nat) : (setup.answers k).length = min k setup.exchanges.length := by
  rw [Setup.answers, List.length_map, List.length_take]

/-- **The client reads the answers to its requests in their order**, and no others. -/
theorem Ordered.startsWith (h : Ordered setup s) {messages : List Message}
    (hread : StartsWith (setup.received s.arrivals) messages) :
    messages <+: setup.answers s.answered := by
  obtain ⟨sent, hsent, hreceived⟩ := exists_sent setup s.answered
  obtain ⟨got, hgot, responses, rfl, rfl⟩ := hread
  rw [← hsent]
  exact Response.flatMap_bytes_prefix (hgot.trans ((hreceived s.arrivals).2 h.arrived))

/-! ## Nobody waits for ever -/

/-- Where nobody can take a step, everything has been asked and answered. -/
theorem Ordered.complete (h : Ordered setup s) (hstuck : ∀ s', ¬ Step setup s s') :
    s.asked = setup.exchanges.length ∧
      StartsWith (setup.received s.arrivals) (setup.answers setup.exchanges.length) := by
  -- the proxy has read what the origin has written, and copied what the client has
  have harrived : BufReader.joined s.arrivals = setup.responses s.answered := by
    obtain ⟨rest, hrest⟩ := h.arrived
    by_cases hnil : rest = []
    · rw [← hrest, hnil, List.append_nil]
    · refine absurd (@Step.reads setup s ⟨rest, hnil⟩ ?_) (hstuck _)
      rw [joined_append, ← hrest]
      simp [BufReader.joined]
  have hforwarded : s.forwarded = (setup.requests s.asked).length := by
    refine Nat.le_antisymm h.forwarded (Nat.le_of_not_lt fun hlt => ?_)
    exact hstuck _ (.copies hlt (Nat.le_refl _))
  -- so the origin has answered what was asked
  have hanswered : s.answered = s.asked := by
    refine Nat.le_antisymm h.answered (Nat.le_of_not_lt fun hlt => ?_)
    refine hstuck _ (.answers hlt ?_)
    rw [hforwarded]
    exact (requests_mono setup hlt).length_le
  -- and the client has read the answers
  obtain ⟨sent, hsent, hreceived⟩ := exists_sent setup s.answered
  have hread : StartsWith (setup.received s.arrivals) (setup.answers s.answered) :=
    ⟨_, List.prefix_rfl, sent, ((hreceived s.arrivals).1 harrived).symm, hsent⟩
  have hasked : s.asked = setup.exchanges.length := by
    refine Nat.le_antisymm h.asked (Nat.le_of_not_lt fun hlt => ?_)
    refine hstuck _ (.asks hlt hread ?_)
    rw [answers_length, hanswered, Nat.min_eq_left h.asked]
  refine ⟨hasked, ?_⟩
  rw [hanswered, hasked] at hread
  exact hread

/-- What is left to do. -/
def State.left (setup : Setup) (s : State) : Nat :=
  (setup.exchanges.length - s.asked) +
    ((setup.requests setup.exchanges.length).length - s.forwarded) +
    (setup.exchanges.length - s.answered) +
    ((setup.responses setup.exchanges.length).length - (BufReader.joined s.arrivals).length)

theorem Step.left_lt (h : Step setup s s') (hordered : Ordered setup s) :
    s'.left setup < s.left setup := by
  have hasked := hordered.asked
  have hrequests := (requests_mono setup hasked).length_le
  have hresponses := (responses_mono setup (hordered.answered.trans hasked)).length_le
  cases h with
  | asks more _ _ =>
    simp only [State.left]
    omega
  | copies further written =>
    simp only [State.left]
    omega
  | answers asked _ =>
    simp only [State.left]
    omega
  | @reads piece sent =>
    have hjoined : (BufReader.joined (s.arrivals ++ [piece])).length =
        (BufReader.joined s.arrivals).length + piece.1.length := by
      rw [joined_append, List.length_append]
      simp [BufReader.joined]
    have hpiece : 0 < piece.1.length := List.length_pos_iff.mpr piece.2
    have hsent := sent.length_le
    simp only [State.left]
    omega

/-- From every state in order the steps lead to one in which nobody can go on. -/
theorem Ordered.exists_stuck (h : Ordered setup s) : ∃ s',
    Relation.ReflTransGen (Step setup) s s' ∧ ∀ s'', ¬ Step setup s' s'' := by
  induction hn : s.left setup using Nat.strongRecOn generalizing s with
  | ind n ih =>
    by_cases hstuck : ∀ s', ¬ Step setup s s'
    · exact ⟨s, .refl, hstuck⟩
    · obtain ⟨next, hstep⟩ := not_forall_not.mp hstuck
      obtain ⟨s', hsteps, hstuck'⟩ := ih _ (hn ▸ hstep.left_lt h) (h.of_step hstep) rfl
      exact ⟨s', .head hstep hsteps, hstuck'⟩

/-- **Every exchange is completed.** However the steps interleave, there are not
infinitely many of them, the client takes nothing for an answer but the answers to its
requests in their order, and when nobody can go on it has read them all. -/
theorem conversation_completes (setup : Setup) :
    (¬ ∃ states : Nat → State, states 0 = State.init ∧
      ∀ i, Step setup (states i) (states (i + 1))) ∧
    ∀ s, Reachable setup s →
      (∀ messages, StartsWith (setup.received s.arrivals) messages →
        messages <+: setup.answers s.answered) ∧
      ((∀ s', ¬ Step setup s s') → s.asked = setup.exchanges.length ∧
        StartsWith (setup.received s.arrivals) (setup.answers setup.exchanges.length)) := by
  constructor
  · intro h
    obtain ⟨states, hinit, hsteps⟩ := h
    have hordered (i : Nat) : Ordered setup (states i) := by
      induction i with
      | zero => exact hinit ▸ Ordered.init
      | succ i ih => exact ih.of_step (hsteps i)
    have hleft (i : Nat) : (states i).left setup + i ≤ (states 0).left setup := by
      induction i with
      | zero => exact Nat.le_refl _
      | succ i ih =>
        have hlt := (hsteps i).left_lt (hordered i)
        omega
    have hpast := hleft ((states 0).left setup + 1)
    omega
  · intro s hs
    have hordered := Ordered.of_reachable hs
    exact ⟨fun messages hread => hordered.startsWith hread, hordered.complete⟩

/-- Two requests for the description, answered in the two framings. -/
def twoExchanges : Setup where
  target := release64
  originAddr := originAddr
  proxyAddr := proxyAddr
  exchanges := twoAnswers.map (Exchange.mk (asBytes "GET /desc.xml HTTP/1.1\r\n\r\n".toList))
  delivered := by
    intro exchange hexchange
    obtain ⟨r, hr, rfl⟩ := List.mem_map.mp hexchange
    exact twoAnswers_delivered r hr

/-- The client asks, gets its answer, asks again and gets the other one. -/
theorem conversation_completes_twoExchanges : ∃ s, Reachable twoExchanges s ∧ s.asked = 2 ∧
    StartsWith (twoExchanges.received s.arrivals) (twoExchanges.answers 2) ∧
    ∀ messages, StartsWith (twoExchanges.received s.arrivals) messages →
      messages <+: twoExchanges.answers s.answered := by
  obtain ⟨s, hreach, hstuck⟩ := (Ordered.init : Ordered twoExchanges State.init).exists_stuck
  obtain ⟨hreads, hcompletes⟩ := (conversation_completes twoExchanges).2 s hreach
  obtain ⟨hasked, hanswers⟩ := hcompletes hstuck
  exact ⟨s, hreach, hasked, hanswers, hreads⟩

end DlnaProxy.TcpProxy.Conversation
