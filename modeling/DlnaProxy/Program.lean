import DlnaProxy.Ssdp.Accounting
import DlnaProxy.Ssdp.Description
import DlnaProxy.Ssdp.Manager
import DlnaProxy.TcpProxy.OriginUrls

/-!
# The program

`main` from its arguments to the tasks it leaves running. What they announce leads to the
address that the proxy is bound to and that it puts in the place of the origin's.
-/
namespace DlnaProxy.Main

open DlnaProxy.Lib.Transition DlnaProxy.Lib.Utf8 DlnaProxy.Net DlnaProxy.Configuration
open DlnaProxy.TcpProxy DlnaProxy.Ssdp

variable {Url : Type}

/-- What `main` finds outside: `bind` for the proxy's listener, `httpClient` and `sockets`
for the manager. -/
structure Platform (Url : Type) where
  target : Target
  env : Env Url
  crate : UrlCrate Url
  toSocketAddrs : Str → Except Str (List SocketAddr)
  bind : SocketAddr → Except Str Unit
  httpClient : Except Str Unit
  sockets : Option Str → Except Str Unit
  parser : Httparse

/-- What is left running. -/
structure Running (Url : Type) where
  config : Config Url
  url : Url
  proxy : Option TCPProxy
  manager : SSDPManager
  parser : Httparse

/-- What `main_task` is given. -/
def Running.setup (app : Running Url) : Setup :=
  ⟨app.manager.interactiveSsdp, app.config.wait.isSome, app.parser⟩

inductive Launch (Url : Type) where
  | running (app : Running Url)
  | err (message : Str)
  | panic

/-- `TCPProxy::start`, where there is a proxy. -/
def startProxy (bind : SocketAddr → Except Str Unit) : Option SocketAddr → Except Str Unit
  | none => .ok ()
  | some proxyAddr => bind proxyAddr

def main (platform : Platform Url) (args : CommandLineConf Url) : Launch Url :=
  match getConfig platform.env args with
  | .error e => .err e
  | .ok config =>
    match startup platform.crate platform.toSocketAddrs config with
    | .err e => .err e
    | .panic => .panic
    | .ready url proxy =>
      match startProxy platform.bind config.proxy with
      | .error e => .err e
      | .ok _ =>
        match SSDPManager.new platform.target platform.httpClient (platform.sockets config.broadcastIface)
            (platform.crate.asStr url) config.period with
        | .err e => .err e
        | .panic => .panic
        | .ok manager => .running ⟨config, url, proxy, manager, platform.parser⟩

/-! ## What is left running -/

/-- The address that is advertised and what it is advertised for. -/
structure Leads (platform : Platform Url) (app : Running Url) (proxyAddr : SocketAddr) : Prop where
  host : platform.crate.host app.url = some (.ip proxyAddr.ip)
  port : platform.crate.portOrKnownDefault app.url = some proxyAddr.port
  bound : platform.bind proxyAddr = .ok ()
  rewrites : ∃ serverAddr, app.proxy = some (TCPProxy.new serverAddr proxyAddr) ∧
    sockaddrFromUrl platform.crate platform.toSocketAddrs app.config.descriptionUrl = .ok serverAddr

section

variable {platform : Platform Url} {args : CommandLineConf Url} {app : Running Url}

theorem new_ok {t : Target} {httpClient sockets : Except Str Unit} {descUrl : Str} {period : Duration}
    {manager : SSDPManager} (h : SSDPManager.new t httpClient sockets descUrl period = .ok manager) :
    manager.broadcastPeriod = period ∧ manager.interactiveSsdp.remoteDescUrl = descUrl ∧
      cacheMaxAge t period = some manager.interactiveSsdp.cacheMaxAge := by
  unfold SSDPManager.new at h
  split at h
  · cases h
  · split at h
    · cases h
    · split at h
      · next maxAge hage =>
        obtain rfl := Created.ok.inj h
        exact ⟨rfl, rfl, hage⟩
      · cases h

/-- The steps of a start that leaves the program running. -/
theorem main_running (h : main platform args = .running app) :
    getConfig platform.env args = .ok app.config ∧
      startup platform.crate platform.toSocketAddrs app.config = .ready app.url app.proxy ∧
      startProxy platform.bind app.config.proxy = .ok () ∧
      app.manager.broadcastPeriod = app.config.period ∧
      app.manager.interactiveSsdp.remoteDescUrl = platform.crate.asStr app.url ∧
      cacheMaxAge platform.target app.config.period = some app.manager.interactiveSsdp.cacheMaxAge := by
  unfold main at h
  split at h
  · cases h
  · next config hconfig =>
    split at h
    · cases h
    · cases h
    · next url proxy hstartup =>
      split at h
      · cases h
      · next hbound =>
        split at h
        · cases h
        · cases h
        · next manager hnew =>
          obtain rfl := Launch.running.inj h
          exact ⟨hconfig, hstartup, hbound, new_ok hnew⟩

theorem leads_of_main (hcrate : platform.crate.Lawful) (h : main platform args = .running app) :
    (app.config.proxy = none → app.url = app.config.descriptionUrl ∧ app.proxy = none) ∧
      ∀ proxyAddr, app.config.proxy = some proxyAddr → Leads platform app proxyAddr := by
  obtain ⟨_, hstartup, hbound, _⟩ := main_running h
  constructor
  · intro hproxy
    rw [startup, hproxy] at hstartup
    obtain ⟨hurl, hnone⟩ := Startup.ready.inj hstartup
    exact ⟨hurl.symm, hnone.symm⟩
  · intro proxyAddr hproxy
    rw [hproxy] at hbound
    rw [startup, hproxy] at hstartup
    simp only at hstartup
    split at hstartup
    · cases hstartup
    · next serverAddr haddr =>
      split at hstartup
      · cases hstartup
      · next url hadv =>
        obtain ⟨hurl, hsome⟩ := Startup.ready.inj hstartup
        rw [hurl] at hadv
        obtain ⟨hhost, hport⟩ := advertise_names hcrate hadv
        exact ⟨hhost, hport, hbound, serverAddr, hsome.symm, haddr⟩

/-! ## What it sends -/

/-- What a message says holds of the program: it describes a device whose description was
served under the advertised URL. An announcement or an answer names that URL as its
location and is valid for as long as the period gives. A byebye names neither. -/
structure Truthful (platform : Platform Url) (app : Running Url) (served : Set Client)
    (message : Message) : Prop where
  device : ∃ client ∈ served, ∃ response text device,
    client.get (platform.crate.asStr app.url) = .ok response ∧ response.text = .ok text ∧
    client.fromStr text = .ok ⟨device⟩ ∧
    ∀ now, message.packet.header now "USN".toList = some (usn device.uniqueDeviceName device.deviceType)
  group : message.sender ≠ .listener → message.dest = ssdpAddress
  location : ¬ SendsByebye message.sender → ∀ now,
    message.packet.header now "LOCATION".toList = some (platform.crate.asStr app.url)
  maxAge : ¬ SendsByebye message.sender →
    ∃ maxAge, cacheMaxAge platform.target app.config.period = some maxAge ∧ ∀ now,
      message.packet.header now "CACHE-CONTROL".toList = some ("max-age=".toList ++ decimal maxAge)
  byebye : SendsByebye message.sender → message.packet.withdraws.isSome ∧ ∀ now,
    message.packet.header now "LOCATION".toList = none ∧
      message.packet.header now "CACHE-CONTROL".toList = none

theorem usn_packet (helper : InteractiveSSDP) (who : Actor) (info : EndpointInfo) (now : Str) :
    (helper.packet who info).header now "USN".toList =
      some (usn info.uniqueDeviceName info.deviceType) := by
  cases who <;> rfl

/-- The packets that announce a device carry its location and how long it is valid. -/
theorem announcing_packet (helper : InteractiveSSDP) {who : Actor} (hwho : ¬ SendsByebye who)
    (info : EndpointInfo) (now : Str) :
    (helper.packet who info).header now "LOCATION".toList = some helper.remoteDescUrl ∧
      (helper.packet who info).header now "CACHE-CONTROL".toList =
        some ("max-age=".toList ++ decimal helper.cacheMaxAge) := by
  cases who with
  | main => exact absurd (Or.inl rfl) hwho
  | broadcaster => exact ⟨rfl, rfl⟩
  | listener => exact ⟨rfl, rfl⟩
  | shutdown => exact absurd (Or.inr rfl) hwho

theorem byebye_packet (helper : InteractiveSSDP) {who : Actor} (hwho : SendsByebye who)
    (info : EndpointInfo) : (helper.packet who info).withdraws.isSome ∧ ∀ now,
      (helper.packet who info).header now "LOCATION".toList = none ∧
        (helper.packet who info).header now "CACHE-CONTROL".toList = none := by
  rcases hwho with rfl | rfl <;> exact ⟨rfl, fun _ => ⟨rfl, rfl⟩⟩

/-- **What the program sends, from its arguments on**: in every run of its tasks each
message is truthful, and with a proxy the URL in it leads to the address that the proxy
listens at and puts in the place of the origin's. -/
theorem main_messages {events : List Event} {s : State} {served : Set Client}
    (hcrate : platform.crate.Lawful) (hmain : main platform args = .running app)
    (hrun : run (State.step app.setup) (.init app.setup) events = some s)
    (hserved : ∀ who info, .replied who (.fetched info) ∈ events →
      ∃ client ∈ served, app.manager.interactiveSsdp.fetchEndpointInfo client = .ok info) :
    (∀ message ∈ s.sent, Truthful platform app served message) ∧
      (app.config.proxy = none → app.url = app.config.descriptionUrl) ∧
      ∀ proxyAddr, app.config.proxy = some proxyAddr → Leads platform app proxyAddr := by
  obtain ⟨_, _, _, _, hurl, hage⟩ := main_running hmain
  obtain ⟨hplain, hleads⟩ := leads_of_main hcrate hmain
  refine ⟨?_, fun hproxy => (hplain hproxy).1, hleads⟩
  intro message hmem
  obtain ⟨info, hfetched, hpacket⟩ := (Provenance.of_run hrun).sent message hmem
  obtain ⟨client, hclient, hfetch⟩ := hserved _ info hfetched
  obtain ⟨response, text, device, hget, htext, hxml, hinfo⟩ := fetchEndpointInfo_eq_ok.mp hfetch
  constructor
  · refine ⟨client, hclient, response, text, device, hurl ▸ hget, htext, hxml, ?_⟩
    intro now
    rw [hpacket, usn_packet, hinfo]
  · exact dest_of_sent hrun hmem
  · intro hwho now
    rw [hpacket, ← hurl]
    exact (announcing_packet _ hwho info now).1
  · intro hwho
    refine ⟨_, hage, fun now => ?_⟩
    rw [hpacket]
    exact (announcing_packet _ hwho info now).2
  · intro hwho
    rw [hpacket]
    exact byebye_packet _ hwho info

end

/-! ## A proxy in wait mode -/

def sampleEnv : Env HttpUrl where
  readToString _ := .error []
  tomlFromStr _ := .error []
  urlParse _ := .error []
  socketAddrParse _ := .error []

/-- The origin is at that address, whatever its name. -/
def samplePlatform (serverAddr : SocketAddr) : Platform HttpUrl where
  target := release64
  env := sampleEnv
  crate := httpUrls
  toSocketAddrs _ := .ok [serverAddr]
  bind _ := .ok ()
  httpClient := .ok ()
  sockets _ := .ok ()
  parser := reference

def sampleArgs (url : HttpUrl) (proxyAddr : SocketAddr) : CommandLineConf HttpUrl where
  config := none
  descriptionUrl := some url
  interval := none
  proxy := some proxyAddr
  iface := none
  wait := some 30
  connectTimeout := none
  proxyTimeout := none
  streamTimeout := none
  verbose := 0

def sampleApp (serverAddr : SocketAddr) (url advertised : HttpUrl) (proxyAddr : SocketAddr) :
    Running HttpUrl where
  config := .ofSettings ⟨url, none, some proxyAddr, none, some 0, some 30, none, none, none⟩
  url := advertised
  proxy := some (TCPProxy.new serverAddr proxyAddr)
  manager := ⟨⟨895⟩, ⟨httpUrls.asStr advertised, 1790⟩⟩
  parser := reference

theorem main_sample (serverAddr : SocketAddr) {url advertised : HttpUrl} {proxyAddr : SocketAddr}
    (h : advertise httpUrls url proxyAddr = some advertised) :
    main (samplePlatform serverAddr) (sampleArgs url proxyAddr) =
      .running (sampleApp serverAddr url advertised proxyAddr) := by
  have hage : cacheMaxAge release64 ⟨895⟩ = some 1790 :=
    (cacheMaxAge_eq_iff release64 ⟨895⟩).mpr (by decide +kernel)
  have hnew : SSDPManager.new release64 (.ok ()) (.ok ()) (httpUrls.asStr advertised) ⟨895⟩ =
      .ok (sampleApp serverAddr url advertised proxyAddr).manager :=
    new_eq_ok_iff.mpr ⟨1790, hage, rfl⟩
  have hconfig : getConfig sampleEnv (sampleArgs url proxyAddr) =
      .ok (sampleApp serverAddr url advertised proxyAddr).config := rfl
  have haddr : sockaddrFromUrl httpUrls (fun _ => .ok [serverAddr]) url = .ok serverAddr := rfl
  have hstart : startup httpUrls (fun _ => .ok [serverAddr])
      (sampleApp serverAddr url advertised proxyAddr).config =
        .ready advertised (some (TCPProxy.new serverAddr proxyAddr)) := by
    simp only [startup, sampleApp, Config.ofSettings, haddr, h]
  have hperiod : (sampleApp serverAddr url advertised proxyAddr).config.period = ⟨895⟩ := rfl
  simp only [main, samplePlatform, hconfig, hstart, startProxy, hperiod, hnew]
  rfl

def waitingPlatform : Platform HttpUrl := samplePlatform origin80.addr

def waitingApp : Running HttpUrl :=
  sampleApp origin80.addr descriptionUrl advertisedUrl proxy8100.addr

/-- It serves one description, whatever it is asked for. -/
def sampleClient : Client where
  get _ := .ok ⟨none, .ok []⟩
  fromStr _ := .ok ⟨mediaRenderer.deviceType, mediaRenderer.uniqueDeviceName⟩

def announcedState : State := { vanishedState with
  sent := [⟨.broadcaster, ssdpAddress, waitingApp.manager.interactiveSsdp.alive mediaRenderer⟩] }

theorem run_waitingApp :
    run (State.step waitingApp.setup) (.init waitingApp.setup) vanished = some announcedState := rfl

theorem served_vanished : ∀ who info, .replied who (.fetched info) ∈ vanished →
    ∃ client ∈ ({sampleClient} : Set Client),
      waitingApp.manager.interactiveSsdp.fetchEndpointInfo client = .ok info := by
  intro who info hmem
  simp only [vanished, List.mem_cons, reduceCtorEq, Event.replied.injEq, Reply.fetched.injEq,
    List.not_mem_nil, or_false, false_or, and_false] at hmem
  exact ⟨sampleClient, rfl, by rw [hmem.2]; rfl⟩

theorem main_messages_sample :
    (∀ message ∈ announcedState.sent, Truthful waitingPlatform waitingApp {sampleClient} message) ∧
      (waitingApp.config.proxy = none → waitingApp.url = waitingApp.config.descriptionUrl) ∧
      ∀ proxyAddr, waitingApp.config.proxy = some proxyAddr →
        Leads waitingPlatform waitingApp proxyAddr :=
  main_messages httpUrls_lawful (main_sample origin80.addr advertise_description) run_waitingApp
    served_vanished

end DlnaProxy.Main
