import DlnaProxy.Config
import DlnaProxy.TcpProxy.Code

/-!
# The start of the program

What `main` does with the configuration before it announces anything: with a proxy
address the description URL is given that address, and the rewriting goes from the
address the URL had to the same one.
-/
namespace DlnaProxy.Main

open DlnaProxy.Lib.Utf8 DlnaProxy.Net DlnaProxy.Configuration DlnaProxy.TcpProxy

variable {Url : Type}

/-- `set_ip_host` and `set_port`, both unwrapped. -/
def advertise (crate : UrlCrate Url) (url : Url) (proxyAddr : SocketAddr) : Option Url := do
  let url ← crate.setIpHost url proxyAddr.ip
  crate.setPort url (some proxyAddr.port)

/-- What the start comes to. -/
inductive Startup (Url : Type) where
  | ready (url : Url) (proxy : Option TCPProxy)
  | err (message : Str)
  | panic

def startup (crate : UrlCrate Url) (toSocketAddrs : Str → Except Str (List SocketAddr))
    (config : Config Url) : Startup Url :=
  match config.proxy with
  | none => .ready config.descriptionUrl none
  | some proxyAddr =>
    match sockaddrFromUrl crate toSocketAddrs config.descriptionUrl with
    | .error e => .err e
    | .ok serverAddr =>
      match advertise crate config.descriptionUrl proxyAddr with
      | none => .panic
      | some url => .ready url (some (TCPProxy.new serverAddr proxyAddr))

section

variable {crate : UrlCrate Url} {toSocketAddrs : Str → Except Str (List SocketAddr)}
  {config : Config Url} {url advertised : Url} {proxyAddr : SocketAddr}

/-- The advertised URL names the proxy's address. -/
theorem advertise_names (hcrate : crate.Lawful)
    (h : advertise crate url proxyAddr = some advertised) :
    crate.host advertised = some (.ip proxyAddr.ip) ∧
      crate.portOrKnownDefault advertised = some proxyAddr.port := by
  obtain ⟨url', hip, hport⟩ := Option.bind_eq_some_iff.mp h
  refine ⟨?_, hcrate.setPort_port _ _ _ hport⟩
  rw [hcrate.setPort_host _ _ _ hport, hcrate.setIpHost_host _ _ _ hip]

theorem advertise_isSome (hcrate : crate.Lawful) (hhost : (crate.host url).isSome)
    (hport : (crate.portOrKnownDefault url).isSome) :
    (advertise crate url proxyAddr).isSome := by
  obtain ⟨url', hip⟩ := Option.isSome_iff_exists.mp (hcrate.setIpHost_isSome url proxyAddr.ip hhost)
  rw [advertise, hip]
  apply hcrate.setPort_isSome
  · rw [hcrate.setIpHost_host _ _ _ hip]
    rfl
  · rwa [hcrate.setIpHost_port _ _ _ hip]

/-- **The start does not panic**: a URL whose address is found can be given another. -/
theorem startup_ne_panic (hcrate : crate.Lawful) :
    startup crate toSocketAddrs config ≠ .panic := by
  intro h
  unfold startup at h
  split at h
  · cases h
  · next proxyAddr _ =>
    split at h
    · cases h
    · next haddr =>
      obtain ⟨hhost, hport⟩ := sockaddrFromUrl_ok haddr
      have hsome : (advertise crate config.descriptionUrl proxyAddr).isSome :=
        advertise_isSome hcrate hhost hport
      split at h
      · next hnone =>
        rw [hnone] at hsome
        cases hsome
      · cases h

/-- With a proxy, the rewriting ends at the address that the advertised URL names. -/
theorem startup_ready {proxy : TCPProxy} (hcrate : crate.Lawful)
    (h : startup crate toSocketAddrs config = .ready advertised (some proxy)) :
    ∃ serverAddr proxyAddr, proxy = TCPProxy.new serverAddr proxyAddr ∧
      advertise crate config.descriptionUrl proxyAddr = some advertised ∧
      crate.host advertised = some (.ip proxyAddr.ip) ∧
      crate.portOrKnownDefault advertised = some proxyAddr.port := by
  unfold startup at h
  split at h
  · cases h
  · next proxyAddr _ =>
    split at h
    · cases h
    · next serverAddr _ =>
      split at h
      · cases h
      · next url hadv =>
        cases h
        exact ⟨serverAddr, proxyAddr, rfl, hadv, advertise_names hcrate hadv⟩

end

end DlnaProxy.Main
