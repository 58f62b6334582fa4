import DlnaProxy.Net

/-!
# The configuration

`get_config` over the file system and the parsers that it calls. The settings are
those of the configuration file where there is one, and else those of the command
line. What is not set takes its default.
-/
namespace DlnaProxy.Configuration

open DlnaProxy.Lib.Utf8 DlnaProxy.Net

/-- A duration in seconds. -/
structure Duration where
  secs : UInt64
  deriving DecidableEq

inductive LevelFilter where
  | warn
  | info
  | debug
  | trace
  deriving DecidableEq

/-- The configuration file as it is deserialised. -/
structure RawConfig where
  descriptionUrl : Option Str
  period : Option UInt64
  proxy : Option Str
  verbose : Option UInt8
  iface : Option Str
  wait : Option UInt64
  connectTimeout : Option UInt64
  proxyTimeout : Option UInt64
  streamTimeout : Option UInt64

section Url

variable {Url : Type}

structure CommandLineConf (Url : Type) where
  config : Option Str
  descriptionUrl : Option Url
  interval : Option UInt64
  proxy : Option SocketAddr
  iface : Option Str
  wait : Option UInt64
  connectTimeout : Option UInt64
  proxyTimeout : Option UInt64
  streamTimeout : Option UInt64
  verbose : UInt8

structure Config (Url : Type) where
  descriptionUrl : Url
  period : Duration
  proxy : Option SocketAddr
  broadcastIface : Option Str
  verbose : LevelFilter
  wait : Option Duration
  connectTimeout : Duration
  proxyTimeout : Duration
  streamTimeout : Duration

/-- What `get_config` calls. An error is what it is displayed as. -/
structure Env (Url : Type) where
  readToString : Str → Except Str Str
  tomlFromStr : Str → Except Str RawConfig
  urlParse : Str → Except Str Url
  socketAddrParse : Str → Except Str SocketAddr

/-- `context`, which puts a message before an error. -/
def context {α : Type} (message : Str) : Except Str α → Except Str α
  | .ok a => .ok a
  | .error _ => .error message

/-- `ok_or_else` with a message. -/
def okOr {α : Type} (message : Str) : Option α → Except Str α
  | some a => .ok a
  | none => .error message

/-- The settings before their defaults. -/
structure Settings (Url : Type) where
  descriptionUrl : Url
  period : Option UInt64
  proxy : Option SocketAddr
  broadcastIface : Option Str
  verbose : Option UInt8
  wait : Option UInt64
  connectTimeout : Option UInt64
  proxyTimeout : Option UInt64
  streamTimeout : Option UInt64

def missingUrl : Str := "Missing description URL".toList

def fileUrl (env : Env Url) : Option Str → Except Str Url
  | none => .error missingUrl
  | some s => context "Bad description URL.".toList (env.urlParse s)

def fileProxy (env : Env Url) : Option Str → Except Str (Option SocketAddr)
  | none => .ok none
  | some s => context "Bad proxy address".toList ((env.socketAddrParse s).map some)

def fileSettings (env : Env Url) (configFile : Str) : Except Str (Settings Url) := do
  let rawConfig ← context "failed to parse config file.".toList (env.tomlFromStr configFile)
  let descUrl ← fileUrl env rawConfig.descriptionUrl
  let proxy ← fileProxy env rawConfig.proxy
  return ⟨descUrl, rawConfig.period, proxy, rawConfig.iface, rawConfig.verbose, rawConfig.wait,
    rawConfig.connectTimeout, rawConfig.proxyTimeout, rawConfig.streamTimeout⟩

def argSettings (args : CommandLineConf Url) : Except Str (Settings Url) :=
  match args.descriptionUrl with
  | none => .error missingUrl
  | some url => .ok ⟨url, args.interval, args.proxy, args.iface, some args.verbose, args.wait,
      args.connectTimeout, args.proxyTimeout, args.streamTimeout⟩

def levelOf (verbose : UInt8) : LevelFilter :=
  if verbose = 0 then .warn else if verbose = 1 then .info else if verbose = 2 then .debug else .trace

def Config.ofSettings (settings : Settings Url) : Config Url where
  descriptionUrl := settings.descriptionUrl
  period := ⟨settings.period.getD 895⟩
  proxy := settings.proxy
  broadcastIface := settings.broadcastIface
  verbose := (settings.verbose.map levelOf).getD .warn
  wait := settings.wait.map Duration.mk
  connectTimeout := ⟨settings.connectTimeout.getD 2⟩
  proxyTimeout := ⟨settings.proxyTimeout.getD 10⟩
  streamTimeout := ⟨settings.streamTimeout.getD 300⟩

def getSettings (env : Env Url) (args : CommandLineConf Url) : Except Str (Settings Url) :=
  match args.config with
  | some file => do
    let configFile ← context "Could not open/read config file.".toList (env.readToString file)
    fileSettings env configFile
  | none => argSettings args

def getConfig (env : Env Url) (args : CommandLineConf Url) : Except Str (Config Url) :=
  (getSettings env args).map .ofSettings

/-! ## The address in a URL -/

/-- The host of a URL. -/
inductive Host where
  | domain (name : Str)
  | ip (ip : IpAddr)

def Host.display : Host → Str
  | .domain name => name
  | .ip (.v4 addr) => addr.display
  | .ip (.v6 addr) => "[".toList ++ addr.serialize ++ "]".toList

/-- The URL type as far as it is used. A setter that fails has no URL. -/
structure UrlCrate (Url : Type) where
  asStr : Url → Str
  host : Url → Option Host
  portOrKnownDefault : Url → Option UInt16
  setIpHost : Url → IpAddr → Option Url
  setPort : Url → Option UInt16 → Option Url

/-- What is documented of it: a URL with a host takes another one, and with a port that
is known another port, and neither changes the other. -/
structure UrlCrate.Lawful (crate : UrlCrate Url) : Prop where
  setIpHost_isSome : ∀ url ip, (crate.host url).isSome → (crate.setIpHost url ip).isSome
  setIpHost_host : ∀ url ip url', crate.setIpHost url ip = some url' →
    crate.host url' = some (.ip ip)
  setIpHost_port : ∀ url ip url', crate.setIpHost url ip = some url' →
    crate.portOrKnownDefault url' = crate.portOrKnownDefault url
  setPort_isSome : ∀ url port, (crate.host url).isSome → (crate.portOrKnownDefault url).isSome →
    (crate.setPort url (some port)).isSome
  setPort_host : ∀ url port url', crate.setPort url (some port) = some url' →
    crate.host url' = crate.host url
  setPort_port : ∀ url port url', crate.setPort url (some port) = some url' →
    crate.portOrKnownDefault url' = some port

/-- `toSocketAddrs` resolves a text of the form `HOST:PORT`. -/
def sockaddrFromUrl (crate : UrlCrate Url) (toSocketAddrs : Str → Except Str (List SocketAddr))
    (url : Url) : Except Str SocketAddr := do
  let host ← okOr ("URL has no host: ".toList ++ crate.asStr url) (crate.host url)
  let port ← okOr ("URL has no port and unknown scheme: ".toList ++ crate.asStr url)
    (crate.portOrKnownDefault url)
  let address := host.display ++ ":".toList ++ decimal port.toNat
  let addresses ← context ("Couldn't resolve or build socket address from URL: ".toList ++
    crate.asStr url) (toSocketAddrs address)
  okOr ("No valid socket address resolved for URL: ".toList ++ crate.asStr url) addresses.head?

/-! ## What is admitted -/

theorem context_error {α : Type} {message e : Str} {result : Except Str α}
    (h : context message result = .error e) : e = message := by
  cases result with
  | ok a => cases h
  | error e' => exact (Except.error.inj h).symm

theorem bind_error {α β : Type} {x : Except Str α} {f : α → Except Str β} {e : Str}
    (h : (x >>= f) = .error e) : x = .error e ∨ ∃ a, x = .ok a ∧ f a = .error e := by
  cases x with
  | ok a => exact Or.inr ⟨a, rfl, h⟩
  | error e' => exact Or.inl (congrArg _ (Except.error.inj h))

theorem bind_ok {α β : Type} {x : Except Str α} {f : α → Except Str β} {b : β}
    (h : (x >>= f) = .ok b) : ∃ a, x = .ok a ∧ f a = .ok b := by
  cases x with
  | ok a => exact ⟨a, rfl, h⟩
  | error e => cases h

/-- The messages of the errors. -/
def configErrors : List Str :=
  ["Could not open/read config file.".toList, "failed to parse config file.".toList, missingUrl,
    "Bad description URL.".toList, "Bad proxy address".toList]

theorem fileSettings_error {env : Env Url} {configFile e : Str}
    (h : fileSettings env configFile = .error e) : e ∈ configErrors := by
  have hin (message : Str) (hmem : message ∈ configErrors) (he : e = message) : e ∈ configErrors :=
    he ▸ hmem
  rcases bind_error h with htoml | ⟨rawConfig, _, h⟩
  · exact hin _ (by simp [configErrors]) (context_error htoml)
  rcases bind_error h with hurl | ⟨url, _, h⟩
  · unfold fileUrl at hurl
    split at hurl
    · exact hin _ (by simp [configErrors]) (Except.error.inj hurl).symm
    · exact hin _ (by simp [configErrors]) (context_error hurl)
  rcases bind_error h with hproxy | ⟨proxy, _, h⟩
  · unfold fileProxy at hproxy
    split at hproxy
    · cases hproxy
    · exact hin _ (by simp [configErrors]) (context_error hproxy)
  · cases h

/-- **A configuration is refused with one of five messages.** -/
theorem getConfig_error {env : Env Url} {args : CommandLineConf Url} {e : Str}
    (h : getConfig env args = .error e) : e ∈ configErrors := by
  have hsettings : getSettings env args = .error e := by
    cases hget : getSettings env args with
    | error e' =>
      rw [getConfig, hget] at h
      exact congrArg _ (Except.error.inj h)
    | ok settings =>
      rw [getConfig, hget] at h
      cases h
  unfold getSettings at hsettings
  split at hsettings
  · rcases bind_error hsettings with hread | ⟨text, _, hfile⟩
    · rw [context_error hread]
      simp [configErrors]
    · exact fileSettings_error hfile
  · unfold argSettings at hsettings
    split at hsettings
    · rw [← Except.error.inj hsettings]
      simp [configErrors]
    · cases hsettings

/-- The command line that sets a description URL and an interval. -/
def intervalArgs (url : Url) (n : UInt64) : CommandLineConf Url :=
  ⟨none, some url, some n, none, none, none, none, none, none, 0⟩

/-- Every interval is taken from the command line as it is. -/
theorem getConfig_interval (env : Env Url) (url : Url) (n : UInt64) :
    ∃ config, getConfig env (intervalArgs url n) = .ok config ∧ config.period = ⟨n⟩ :=
  ⟨_, rfl, rfl⟩

/-- And every period from a configuration file that is accepted. -/
theorem getConfig_period {env : Env Url} {args : CommandLineConf Url} {file text : Str}
    {rawConfig : RawConfig} {settings : Settings Url} (hfile : args.config = some file)
    (hread : env.readToString file = .ok text) (htoml : env.tomlFromStr text = .ok rawConfig)
    (hsettings : fileSettings env text = .ok settings) : ∃ config,
      getConfig env args = .ok config ∧ config.period = ⟨rawConfig.period.getD 895⟩ := by
  have hget : getSettings env args = .ok settings := by
    rw [getSettings, hfile, ← hsettings]
    show (context _ (env.readToString file) >>= _) = _
    rw [hread]
    rfl
  have hperiod : settings.period = rawConfig.period := by
    obtain ⟨raw, hraw, h⟩ := bind_ok hsettings
    rw [htoml] at hraw
    obtain rfl := Except.ok.inj hraw
    obtain ⟨url, _, h⟩ := bind_ok h
    obtain ⟨proxy, _, h⟩ := bind_ok h
    exact congrArg Settings.period (Except.ok.inj h).symm
  refine ⟨.ofSettings settings, by rw [getConfig, hget]; rfl, ?_⟩
  rw [Config.ofSettings, hperiod]

theorem okOr_eq_ok {α : Type} {message : Str} {o : Option α} {a : α}
    (h : okOr message o = .ok a) : o = some a := by
  cases o with
  | none => cases h
  | some b => exact congrArg some (Except.ok.inj h)

/-- A URL with an address has a host and a port. -/
theorem sockaddrFromUrl_ok {crate : UrlCrate Url}
    {toSocketAddrs : Str → Except Str (List SocketAddr)} {url : Url} {addr : SocketAddr}
    (h : sockaddrFromUrl crate toSocketAddrs url = .ok addr) :
    (crate.host url).isSome ∧ (crate.portOrKnownDefault url).isSome := by
  obtain ⟨host, hhost, h⟩ := bind_ok h
  obtain ⟨port, hport, h⟩ := bind_ok h
  rw [okOr_eq_ok hhost, okOr_eq_ok hport]
  exact ⟨rfl, rfl⟩

end Url

end DlnaProxy.Configuration
