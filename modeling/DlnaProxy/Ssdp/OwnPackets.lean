import DlnaProxy.Lib.Lines
import DlnaProxy.Ssdp.Accounting
import DlnaProxy.Ssdp.RoundTrip

/-!
# The program's own packets

The announcements go to the group that the listener is in, so the program hears itself,
and it hears every other instance of it. None of their packets is taken for a search,
whatever the description puts into them: the method of a request is its first word, and
that is the program's own. So an answer never leads to another.
-/
namespace DlnaProxy.Ssdp

open DlnaProxy.Lib.Transition DlnaProxy.Lib.Utf8 DlnaProxy.Net

/-- What the request parser documents of the method: it is the word before the first
space of the request line, which is the first line that is not empty. -/
structure ReadsMethod (parser : Httparse) : Prop where
  word : ∀ {n buffer request method}, parser n buffer = .ok request → request.method = some method →
    (∀ b ∈ buffer.head?, b ≠ 13 ∧ b ≠ 10) → IsToken method ∧ asBytes method ++ [32] <+: buffer

/-! ## The first word of a packet -/

def SSDPPacket.word : SSDPPacket → Str
  | .alive .. => "NOTIFY".toList
  | .ok .. => "HTTP/1.1".toList
  | .byeBye .. => "NOTIFY".toList

theorem word_ne_mSearch (packet : SSDPPacket) : packet.word ≠ mSearch := by
  cases packet <;> show String.toList _ ≠ _ <;> decide

theorem word_bytes (packet : SSDPPacket) : asBytes packet.word = [78, 79, 84, 73, 70, 89] ∨
    asBytes packet.word = [72, 84, 84, 80, 47, 49, 46, 49] := by
  cases packet with
  | ok => exact Or.inr (show asBytes (String.toList _) = _ by decide)
  | alive => exact Or.inl (show asBytes (String.toList _) = _ by decide)
  | byeBye => exact Or.inl (show asBytes (String.toList _) = _ by decide)

theorem word_no_space (packet : SSDPPacket) : 32 ∉ asBytes packet.word := by
  rcases word_bytes packet with h | h <;> rw [h] <;> decide

theorem startLine_word (packet : SSDPPacket) :
    asBytes packet.word ++ [32] <+: asBytes packet.startLine := by
  cases packet <;> show asBytes (String.toList _) ++ [32] <+: asBytes (String.toList _) <;> decide

theorem word_head (packet : SSDPPacket) (rest : List UInt8) :
    ∀ b ∈ (asBytes packet.word ++ [32] ++ rest).head?, b ≠ 13 ∧ b ≠ 10 := by
  rcases word_bytes packet with h | h <;> rw [h] <;> simp

/-- The buffer starts with the word, whatever else has found room in it. -/
theorem buffer_word (packet : SSDPPacket) (now : Str) (srcAddr : SocketAddr) :
    asBytes packet.word ++ [32] <+: Datagram.buffer ⟨asBytes (packet.display now), srcAddr⟩ := by
  have hlen : (asBytes packet.word ++ [32]).length ≤ bufferSize := by
    rcases word_bytes packet with h | h <;> rw [h] <;> decide
  have hdisplay : asBytes packet.word ++ [32] <+: asBytes (packet.display now) := by
    rw [packet.display_eq, List.append_assoc, asBytes_append]
    exact (startLine_word packet).trans (List.prefix_append _ _)
  have htake : asBytes packet.word ++ [32] <+: (asBytes (packet.display now)).take bufferSize := by
    rw [List.prefix_take_iff]
    exact ⟨hdisplay, hlen⟩
  exact htake.trans (List.prefix_append _ _)

variable {parser : Httparse}

/-- The program answers none of its packets. -/
theorem listenPass_own (hparser : ReadsMethod parser) (packet : SSDPPacket) (now : Str)
    (srcAddr : SocketAddr) (st : Str) (dest : SocketAddr) :
    listenPass parser (.datagram ⟨asBytes (packet.display now), srcAddr⟩) ≠ .answered st dest := by
  intro h
  obtain ⟨datagram, method, headers, hreceived, _, hparse, _, hrespond⟩ := listenPass_answered h
  obtain rfl := Received.datagram.inj hreceived
  obtain ⟨rest, hrest⟩ := buffer_word packet now srcAddr
  simp only [parseSsdp] at hparse
  split at hparse
  · cases hparse
  · next request hrequest =>
    split at hparse
    · cases hparse
    · next method' hmethod =>
      split at hparse
      · obtain ⟨rfl, _⟩ := Parsed.ok.inj hparse
        obtain ⟨htoken, hword⟩ := hparser.word hrequest hmethod (hrest ▸ word_head packet rest)
        have hspace : 32 ∉ asBytes method' := not_mem_token htoken (c := ' ') (by decide) (by decide)
        rw [← hrest, List.append_assoc, List.singleton_append,
          prefix_separator_iff hspace (word_no_space packet)] at hword
        obtain ⟨rfl, _⟩ := shouldRespond_iff.mp hrespond
        exact word_ne_mSearch packet (asBytes_injective hword).symm
      · cases hparse

/-! ## A parser that reads the method -/

theorem unended_start (line : List UInt8) : unended line <+: line := by
  have hstrip (b : UInt8) (bytes : List UInt8) : stripLast b bytes <+: bytes := by
    unfold stripLast
    split
    · exact List.dropLast_prefix bytes
    · exact List.prefix_refl bytes
  exact (hstrip 13 _).trans (hstrip 10 line)

theorem readMethod_word {content : List UInt8} {method : Str} (h : readMethod content = some method) :
    IsToken method ∧ asBytes method ++ [32] <+: content := by
  simp only [readMethod] at h
  split at h
  · next hgood =>
    obtain ⟨htoken, hcontent⟩ := hgood
    rw [Option.some.inj h] at htoken hcontent
    have htarget : asBytes target = [32] ++ (asBytes target).drop 1 := by decide
    rw [htarget, ← List.append_assoc] at hcontent
    exact ⟨htoken, _, hcontent.symm⟩
  · cases h

theorem readsMethod_reference : ReadsMethod reference where
  word := by
    intro n buffer request method hparse hmethod _
    simp only [reference] at hparse
    split at hparse
    · cases hparse
    · next line lines hlines =>
      split at hparse
      · cases hparse
      · next read hread =>
        have hrequest : read = method := by
          cases hfields : readFields lines n with
          | error e =>
            rw [hfields] at hparse
            cases hparse
          | ok headers =>
            rw [hfields] at hparse
            obtain rfl := Except.ok.inj hparse
            exact Option.some.inj hmethod
        obtain ⟨htoken, hword⟩ := readMethod_word hread
        rw [hrequest] at htoken hword
        have hline : line <+: buffer := by
          rw [← splitInclusive_flatten 10 buffer, hlines, List.flatten_cons]
          exact List.prefix_append _ _
        exact ⟨htoken, (hword.trans (unended_start line)).trans hline⟩

/-! ## Several instances

The socket may be shared, so several instances can be in the group, on one host or on
many. -/

section Network

variable {ι : Type} {setup : ι → Setup} {s : ι → State} {events : List (ι × Event)}

/-- What an instance can receive: a datagram of another program, or one that an instance
has sent, late or more than once, with whatever address it seems to come from. -/
inductive Carries (foreign : Set Datagram) (s : ι → State) : ι × Event → Prop
  | foreign {i : ι} {datagram : Datagram} (mem : datagram ∈ foreign) :
      Carries foreign s (i, .received (.datagram datagram))
  | copy {i sender : ι} {message : Message} (sent : message ∈ (s sender).sent) (now : Str)
      (srcAddr : SocketAddr) :
      Carries foreign s (i, .received (.datagram ⟨asBytes (message.packet.display now), srcAddr⟩))
  | other {i : ι} {e : Event} (other : ∀ datagram, e ≠ .received (.datagram datagram)) :
      Carries foreign s (i, e)

theorem search_eq_some {e : Event} {datagram : Datagram} (h : search parser e = some datagram) :
    e = .received (.datagram datagram) ∧
      ∃ st dest, listenPass parser (.datagram datagram) = .answered st dest := by
  unfold search at h
  split at h
  · split at h
    · next st dest hpass =>
      obtain rfl := Option.some.inj h
      exact ⟨rfl, st, dest, hpass⟩
    · cases h
  · cases h

/-- A search that is carried is another program's. -/
theorem Carries.foreign_of_search {foreign : Set Datagram} {i : ι} {e : Event} {datagram : Datagram}
    (h : Carries foreign s (i, e)) (hparser : ReadsMethod parser)
    (hsearch : search parser e = some datagram) : datagram ∈ foreign := by
  obtain ⟨rfl, st, dest, hpass⟩ := search_eq_some hsearch
  cases h with
  | foreign mem => exact mem
  | copy sent now srcAddr => exact absurd hpass (listenPass_own hparser _ now srcAddr st dest)
  | other other => exact absurd rfl (other datagram)

/-- **The instances do not answer each other**, nor themselves: over any interleaving of
any number of them, what each answers are searches of other programs, each at most once,
in their order and to where they came from. -/
theorem answers_foreign [DecidableEq ι] {foreign : Set Datagram} (hparser : ∀ i, ReadsMethod (setup i).parser)
    (hrun : run (interleave fun i => State.step (setup i)) (fun i => .init (setup i)) events = some s)
    (hcarried : Meets (interleave fun i => State.step (setup i)) (Carries foreign)
      (fun i => .init (setup i)) events) (i : ι) :
    ∃ searches : List Datagram,
      searches.Sublist ((eventsAt i events).filterMap (search (setup i).parser)) ∧
      (∀ datagram ∈ searches, datagram ∈ foreign) ∧
      (s i).dests .listener = searches.map (·.srcAddr) := by
  have hsub := dests_sublist (run_eventsAt hrun i) .listener
  rw [begun_listener] at hsub
  obtain ⟨searches, hsearches, hdests⟩ :=
    List.sublist_map_iff.mp ((List.sublist_append_left _ _).trans hsub)
  refine ⟨searches, hsearches, ?_, hdests⟩
  intro datagram hmem
  obtain ⟨e, he, hsearch⟩ := List.mem_filterMap.mp (hsearches.subset hmem)
  obtain ⟨before, after, rfl⟩ := List.append_of_mem (mem_eventsAt.mp he)
  rw [run_append, Option.bind_eq_some_iff] at hrun
  obtain ⟨mid, hmid, _⟩ := hrun
  exact (hcarried before (i, e) after mid rfl hmid).foreign_of_search (hparser i) hsearch

end Network

/-! ### Two instances and a control point -/

/-- The announcement of the device as a datagram. -/
def announcement : Datagram :=
  ⟨asBytes ((sampleHelper.alive mediaRenderer).display []), ⟨.v4 ⟨[192, 168, 1, 53], rfl⟩, 40000⟩⟩

/-- It does not fill the header table, so that the listener goes on without an answer. -/
theorem listenPass_announcement : listenPass reference (.datagram announcement) = .ignored := by
  let packet := sampleHelper.alive mediaRenderer
  have hstart : packet.startLine = notify ++ target := startLine_notify
  have hshape : (packet.fields []).map (fun field => (field.name, field.pad)) = aliveShape := rfl
  obtain ⟨text, hbytes, _, hheaders⟩ := exists_requestText hstart
    (standard_of_shape hshape (by decide)) (show ∀ field ∈ packet.fields [], Plain field.value by decide)
  have hlength : text.lines.length = 7 := by
    rw [← List.length_map FieldLine.header, hheaders, List.length_map]
    rfl
  have hfits : (asBytes (packet.display [])).length ≤ bufferSize := by decide +kernel
  have hroom : listenPass reference (.datagram announcement) ≠ .panicked := by
    rw [ne_eq, listenPass_panicked_iff lawful_reference, announcement, buffer_of_fits hfits, ← hbytes,
      fillsTable_text_iff lawful_reference, hlength]
    decide
  cases hpass : listenPass reference (.datagram announcement) with
  | ignored => rfl
  | panicked => exact absurd hpass hroom
  | answered st dest => exact absurd hpass (listenPass_own readsMethod_reference packet [] _ st dest)

/-- Both instances listen when one of them announces the device. -/
def announcedOnce : List (Bool × Event) :=
  [(true, .broadcasterSpawned), (true, .listenerSpawned), (true, .handlerSpawned),
    (false, .broadcasterSpawned), (false, .listenerSpawned),
    (true, .replied .broadcaster (.fetched mediaRenderer)), (true, .replied .broadcaster .sent)]

/-- Both receive the announcement, and one of them is asked for the device. -/
def asked : List (Bool × Event) :=
  announcedOnce ++ [(true, .received (.datagram announcement)), (false, .received (.datagram announcement)),
    (false, .received (.datagram mediaServerSearch)),
    (false, .replied .listener (.fetched mediaRenderer)), (false, .replied .listener .sent)]

def waitingPair : Bool → Setup := fun _ => waiting

def announcer : State where
  main := .awaiting
  broadcaster := .ticking
  listener := .receiving
  shutdown := .waiting
  exited := none
  sent := [⟨.broadcaster, ssdpAddress, sampleHelper.alive mediaRenderer⟩]

def answerer (sent : List Message) : State where
  main := .awaiting
  broadcaster := .spawningHandler
  listener := .receiving
  shutdown := .absent
  exited := none
  sent := sent

def pair (sent : List Message) : Bool → State
  | true => announcer
  | false => answerer sent

def answered : Message := ⟨.listener, controlPoint, sampleHelper.ok mediaRenderer⟩

theorem run_announcedOnce : run (interleave fun i => State.step (waitingPair i))
    (fun i => .init (waitingPair i)) announcedOnce = some (pair []) :=
  congrArg some (funext fun i => by cases i <;> rfl)

theorem step_announcement {s : Bool → State} (i : Bool) (hrunning : (s i).exited = none)
    (hlistener : (s i).listener = .receiving) :
    interleave (fun i => State.step (waitingPair i)) s (i, .received (.datagram announcement)) =
      some s := by
  have hstep : State.step (waitingPair i) (s i) (.received (.datagram announcement)) = some (s i) := by
    have hmove : State.step (waitingPair i) (s i) (.received (.datagram announcement)) =
        State.move (waitingPair i) (s i) (.received (.datagram announcement)) :=
      if_neg (by simp [hrunning])
    rw [hmove, State.move, hlistener]
    simp only [waitingPair, waiting, listenPass_announcement]
  rw [interleave, hstep, Option.map_some, Function.update_eq_self]

def answering : Bool → State :=
  Function.update (pair []) false { answerer [] with listener := .answering (.new controlPoint) }

theorem step_mediaServerSearch :
    interleave (fun i => State.step (waitingPair i)) (pair [])
      (false, .received (.datagram mediaServerSearch)) = some answering := by
  have hstep : State.step waiting (answerer []) (.received (.datagram mediaServerSearch)) =
      some { answerer [] with listener := .answering (.new controlPoint) } := by
    show State.move waiting (answerer []) (.received (.datagram mediaServerSearch)) = _
    simp only [State.move, answerer, waiting, listenPass_mediaServerSearch]
  exact congrArg (Option.map _) hstep

theorem run_answering : run (interleave fun i => State.step (waitingPair i)) answering
    [(false, .replied .listener (.fetched mediaRenderer)), (false, .replied .listener .sent)] =
      some (pair [answered]) :=
  congrArg some (funext fun i => by cases i <;> rfl)

theorem run_asked : run (interleave fun i => State.step (waitingPair i))
    (fun i => .init (waitingPair i)) asked = some (pair [answered]) := by
  rw [asked, run_append, run_announcedOnce, Option.bind_some, run_cons, step_announcement true rfl rfl,
    Option.bind_some, run_cons, step_announcement false rfl rfl, Option.bind_some, run_cons,
    step_mediaServerSearch, Option.bind_some, run_answering]

theorem carries_asked : Meets (interleave fun i => State.step (waitingPair i))
    (Carries {mediaServerSearch}) (fun i => .init (waitingPair i)) asked := by
  have hsent : ⟨.broadcaster, ssdpAddress, sampleHelper.alive mediaRenderer⟩ ∈ (pair [] true).sent :=
    List.mem_cons_self
  have hcopy (i : Bool) : Carries {mediaServerSearch} (pair [])
      (i, .received (.datagram announcement)) :=
    .copy hsent [] announcement.srcAddr
  refine Meets.append (.of_forall ?_) run_announcedOnce ?_
  · intro e he s
    simp only [announcedOnce, List.mem_cons, List.not_mem_nil, or_false] at he
    rcases he with rfl | rfl | rfl | rfl | rfl | rfl | rfl <;> exact .other nofun
  · refine .cons (hcopy true) (step_announcement true rfl rfl) ?_
    refine .cons (hcopy false) (step_announcement false rfl rfl) ?_
    refine .cons (.foreign rfl) step_mediaServerSearch (.of_forall ?_)
    intro e he s
    simp only [List.mem_cons, List.not_mem_nil, or_false] at he
    rcases he with rfl | rfl <;> exact .other nofun

theorem answers_foreign_asked :
    (∃ searches : List Datagram,
      searches.Sublist ((eventsAt true asked).filterMap (search reference)) ∧
      (∀ datagram ∈ searches, datagram ∈ ({mediaServerSearch} : Set Datagram)) ∧
      announcer.dests .listener = searches.map (·.srcAddr)) ∧
    (∃ searches : List Datagram,
      searches.Sublist ((eventsAt false asked).filterMap (search reference)) ∧
      (∀ datagram ∈ searches, datagram ∈ ({mediaServerSearch} : Set Datagram)) ∧
      (answerer [answered]).dests .listener = searches.map (·.srcAddr)) := by
  have hforeign := answers_foreign (fun _ => readsMethod_reference) run_asked carries_asked
  exact ⟨hforeign true, hforeign false⟩

end DlnaProxy.Ssdp
