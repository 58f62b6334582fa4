import DlnaProxy.Config
import DlnaProxy.Ssdp.Tasks

/-!
# The remote description

`fetch_endpoint_info` gets the description behind the advertised URL, and `send_alive`,
`send_ok` and `send_byebye` each send what they make of it. The HTTP client and the XML
deserialiser are parameters. `run_attempt` takes such a call through the awaits of the task
that makes it.
-/
namespace DlnaProxy.Ssdp

open DlnaProxy.Lib.Transition DlnaProxy.Lib.Utf8 DlnaProxy.Net DlnaProxy.Configuration

structure DLNADevice where
  deviceType : Str
  uniqueDeviceName : Str

structure DLNADescription where
  device : DLNADevice

/-- A response as far as it is used: the value of its `Server` header and its body. -/
structure EndpointResponse where
  server : Option (List UInt8)
  text : Except Str Str

/-- What `fetch_endpoint_info` calls. -/
structure Client where
  get : Str → Except Str EndpointResponse
  fromStr : Str → Except Str DLNADescription

/-- The server that is announced where the response does not name one. -/
def defaultServer : Str := "DLNAProxy/1.0".toList

def getFailed : Str := "Failed to get description of remote endpoint.".toList

def bodyFailed : Str := "Failed to parse response's body as text.".toList

def xmlFailed : Str := "Failed to parse device's XML description.".toList

namespace InteractiveSSDP

variable (helper : InteractiveSSDP)

def fetchEndpointInfo (client : Client) : Except Str EndpointInfo := do
  let endpointResponse ← context getFailed (client.get helper.remoteDescUrl)
  let serverUa := (endpointResponse.server.map fromUtf8Lossy).getD defaultServer
  let body ← context bodyFailed endpointResponse.text
  let deviceDescription ← context xmlFailed (client.fromStr body)
  return ⟨deviceDescription.device.deviceType, deviceDescription.device.uniqueDeviceName, serverUa⟩

/-- `send_alive`, `send_ok` or `send_byebye`, by who calls it. The socket takes the packet
or does not. -/
def send (client : Client) (sendTo : SSDPPacket → Except Str Unit) (who : Actor) : Except Str Unit := do
  let info ← helper.fetchEndpointInfo client
  sendTo (helper.packet who info)

end InteractiveSSDP

theorem context_eq_ok {α : Type} {message : Str} {result : Except Str α} {a : α} :
    context message result = .ok a ↔ result = .ok a := by
  cases result <;> simp [context]

theorem bind_eq_ok {α β : Type} {x : Except Str α} {f : α → Except Str β} {b : β} :
    (x >>= f) = .ok b ↔ ∃ a, x = .ok a ∧ f a = .ok b := by
  refine ⟨bind_ok, ?_⟩
  intro ⟨a, hx, hf⟩
  rw [hx]
  exact hf

variable {helper : InteractiveSSDP} {client : Client} {info : EndpointInfo}

/-- What is fetched was served under the description URL. -/
theorem fetchEndpointInfo_eq_ok : helper.fetchEndpointInfo client = .ok info ↔
    ∃ response text device, client.get helper.remoteDescUrl = .ok response ∧
      response.text = .ok text ∧ client.fromStr text = .ok ⟨device⟩ ∧
      info = ⟨device.deviceType, device.uniqueDeviceName,
        (response.server.map fromUtf8Lossy).getD defaultServer⟩ := by
  constructor
  · intro h
    obtain ⟨response, hget, h⟩ := bind_ok h
    obtain ⟨text, htext, h⟩ := bind_ok h
    obtain ⟨description, hxml, h⟩ := bind_ok h
    exact ⟨response, text, description.device, context_eq_ok.mp hget, context_eq_ok.mp htext,
      context_eq_ok.mp hxml, (Except.ok.inj h).symm⟩
  · intro ⟨response, text, device, hget, htext, hxml, hinfo⟩
    rw [hinfo]
    exact bind_eq_ok.mpr ⟨response, context_eq_ok.mpr hget, bind_eq_ok.mpr
      ⟨text, context_eq_ok.mpr htext, bind_eq_ok.mpr ⟨⟨device⟩, context_eq_ok.mpr hxml, rfl⟩⟩⟩

/-- A fetch fails with one of three messages. -/
theorem fetchEndpointInfo_error {e : Str} (h : helper.fetchEndpointInfo client = .error e) :
    e = getFailed ∨ e = bodyFailed ∨ e = xmlFailed := by
  rcases bind_error h with hget | ⟨response, _, h⟩
  · exact Or.inl (context_error hget)
  rcases bind_error h with htext | ⟨text, _, h⟩
  · exact Or.inr (Or.inl (context_error htext))
  rcases bind_error h with hxml | ⟨description, _, h⟩
  · exact Or.inr (Or.inr (context_error hxml))
  · cases h

/-! ## Calls in a task -/

/-- How a call ends: it sends, or it gives up at its fetch or its send. -/
inductive Attempt where
  | sent (info : EndpointInfo)
  | fetchFailed (e : Str)
  | sendFailed (info : EndpointInfo) (e : Str)

def InteractiveSSDP.attempt (helper : InteractiveSSDP) (client : Client)
    (sendTo : SSDPPacket → Except Str Unit) (who : Actor) : Attempt :=
  match helper.fetchEndpointInfo client with
  | .error e => .fetchFailed e
  | .ok info =>
    match sendTo (helper.packet who info) with
    | .error e => .sendFailed info e
    | .ok _ => .sent info

def Attempt.result : Attempt → Except Str Unit
  | .sent _ => .ok ()
  | .fetchFailed e => .error e
  | .sendFailed _ e => .error e

/-- The description that is sent for. -/
def Attempt.described : Attempt → Option EndpointInfo
  | .sent info => some info
  | .fetchFailed _ => none
  | .sendFailed _ _ => none

/-- What the task sees of it. -/
def Attempt.replies : Attempt → List Reply
  | .sent info => [.fetched info, .sent]
  | .fetchFailed _ => [.fetchFailed]
  | .sendFailed info _ => [.fetched info, .sendFailed]

theorem send_eq (helper : InteractiveSSDP) (client : Client)
    (sendTo : SSDPPacket → Except Str Unit) (who : Actor) :
    helper.send client sendTo who = (helper.attempt client sendTo who).result := by
  unfold InteractiveSSDP.send InteractiveSSDP.attempt
  cases helper.fetchEndpointInfo client with
  | error e => rfl
  | ok info =>
    show sendTo (helper.packet who info) = _
    simp only
    cases sendTo (helper.packet who info) <;> rfl

variable {setup : Setup} {s s' : State} {who : Actor} {dest : SocketAddr}

theorem step_replied {call : Call} {reply : Reply} {progress : Progress} (hrunning : s.exited = none)
    (hcall : s.calling who = some call)
    (hadvance : call.advance (setup.helper.packet who) reply = some progress) :
    s.step setup (.replied who reply) = some (match progress with
      | .next call => s.recall call who
      | .returned packet => (s.log who call packet).resume who) := by
  have hstep : s.step setup (.replied who reply) = s.reply setup who reply := if_neg (by simp [hrunning])
  rw [hstep, State.reply, hcall]
  simp only [hadvance]
  cases progress <;> rfl

theorem exited_recall (call : Call) (who : Actor) : (s.recall call who).exited = s.exited := by
  cases who <;> rfl

/-- **A call takes its task through its awaits**: the task goes on behind it, and what it
has sent is what the call has. -/
theorem run_attempt (hrunning : s.exited = none) (hcall : s.calling who = some (.new dest))
    (attempt : Attempt) :
    run (State.step setup) s (attempt.replies.map (.replied who)) = some (State.resume { s with
      sent := s.sent ++ attempt.described.toList.map fun info =>
        ⟨who, dest, setup.helper.packet who info⟩ } who) := by
  have hnone : State.resume { s with sent := s.sent ++ [] } who = s.resume who := by
    rw [List.append_nil]
  have hrecall (call : Call) : (s.recall call who).exited = none := (exited_recall call who).trans hrunning
  cases attempt with
  | sent info =>
    rw [Attempt.replies, List.map_cons, run_cons, step_replied hrunning hcall rfl, Option.bind_some,
      List.map_singleton, run_cons, step_replied (hrecall _) (calling_recall_self _ _) rfl]
    cases who <;> rfl
  | fetchFailed e =>
    rw [Attempt.replies, List.map_singleton, run_cons, step_replied hrunning hcall rfl]
    exact congrArg some hnone.symm
  | sendFailed info e =>
    rw [Attempt.replies, List.map_cons, run_cons, step_replied hrunning hcall rfl, Option.bind_some,
      List.map_singleton, run_cons, step_replied (hrecall _) (calling_recall_self _ _) rfl]
    refine congrArg some (Eq.trans ?_ hnone.symm)
    cases who <;> rfl

end DlnaProxy.Ssdp
