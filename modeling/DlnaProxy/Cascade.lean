import DlnaProxy.Program
import DlnaProxy.TcpProxy.Chain

/-!
# Programs in a row

A program can be given the URL that another one announces. Its proxy then rewrites from the
address of the other's proxy, so that of any number of programs in a row each leads through
those before it to the one device.
-/
namespace DlnaProxy.Main

open DlnaProxy.Lib.Utf8 DlnaProxy.Net DlnaProxy.Configuration DlnaProxy.TcpProxy

variable {Url : Type}

/-- How an address stands in a URL. -/
def addrText (addr : SocketAddr) : Str :=
  (Host.ip addr.ip).display ++ ":".toList ++ decimal addr.port.toNat

/-- The programs up to `n`, each behind the first with the URL of the one before. The first
has its origin at `addr 0`, and program `i` its proxy at `addr (i + 1)`, which the resolver of
the next one takes for what it is. -/
structure Cascade (t : Target) (crate : UrlCrate Url) (platform : Nat → Platform Url)
    (args : Nat → CommandLineConf Url) (app : Nat → Running Url) (addr : Nat → SocketAddr)
    (n : Nat) : Prop where
  built : ∀ i ≤ n, (platform i).target = t ∧ (platform i).crate = crate
  starts : ∀ i ≤ n, main (platform i) (args i) = .running (app i)
  listens : ∀ i ≤ n, (app i).config.proxy = some (addr (i + 1))
  origin : sockaddrFromUrl crate (platform 0).toSocketAddrs (app 0).config.descriptionUrl =
    .ok (addr 0)
  follows : ∀ i < n, (app (i + 1)).config.descriptionUrl = (app i).url
  resolves : ∀ i < n, (platform (i + 1)).toSocketAddrs (addrText (addr (i + 1))) =
    .ok [addr (i + 1)]

/-- A URL that names an address is resolved to it. -/
theorem sockaddrFromUrl_ip {crate : UrlCrate Url} {toSocketAddrs : Str → Except Str (List SocketAddr)}
    {url : Url} {addr : SocketAddr} (hhost : crate.host url = some (.ip addr.ip))
    (hport : crate.portOrKnownDefault url = some addr.port)
    (hresolves : toSocketAddrs (addrText addr) = .ok [addr]) :
    sockaddrFromUrl crate toSocketAddrs url = .ok addr := by
  rw [sockaddrFromUrl, hhost, hport]
  show (context _ (toSocketAddrs (addrText addr)) >>= _) = _
  rw [hresolves]
  rfl

namespace Cascade

variable {t : Target} {crate : UrlCrate Url} {platform : Nat → Platform Url}
  {args : Nat → CommandLineConf Url} {app : Nat → Running Url} {addr : Nat → SocketAddr} {n i : Nat}

theorem leads (h : Cascade t crate platform args app addr n) (hcrate : crate.Lawful) (hi : i ≤ n) :
    Leads (platform i) (app i) (addr (i + 1)) := by
  obtain ⟨_, hsame⟩ := h.built i hi
  have hlawful : (platform i).crate.Lawful := by rwa [hsame]
  exact (leads_of_main hlawful (h.starts i hi)).2 _ (h.listens i hi)

/-- Each finds the one before it. -/
theorem finds (h : Cascade t crate platform args app addr n) (hcrate : crate.Lawful) (hi : i ≤ n) :
    sockaddrFromUrl crate (platform i).toSocketAddrs (app i).config.descriptionUrl =
      .ok (addr i) := by
  cases i with
  | zero => exact h.origin
  | succ i =>
    obtain ⟨hhost, hport, _, _⟩ := h.leads hcrate (Nat.le_of_succ_le hi)
    rw [(h.built i (Nat.le_of_succ_le hi)).2] at hhost hport
    rw [h.follows i hi]
    exact sockaddrFromUrl_ip hhost hport (h.resolves i hi)

theorem proxy_eq (h : Cascade t crate platform args app addr n) (hcrate : crate.Lawful)
    (hi : i ≤ n) : (app i).proxy = some (TCPProxy.new (addr i) (addr (i + 1))) := by
  obtain ⟨serverAddr, hproxy, hserver⟩ := (h.leads hcrate hi).rewrites
  rw [(h.built i hi).2, h.finds hcrate hi] at hserver
  rw [hproxy, Except.ok.inj hserver]

end Cascade

/-- **Programs in a row lead to the one device.** The URL that the last announces names its
proxy, and of what this proxy sends a client reads the messages of the first program's
origin, with the address in that URL in the place of the origin's. -/
theorem main_cascade {t : Target} {crate : UrlCrate Url} {platform : Nat → Platform Url}
    {args : Nat → CommandLineConf Url} {app : Nat → Running Url} {addr : Nat → SocketAddr} {n : Nat}
    {responses : List Response} {reads : Nat → OwnedReadHalf} (hcrate : crate.Lawful)
    (h : Cascade t crate platform args app addr n) (hdelivered : ∀ r ∈ responses, r.Delivered t)
    (hpasses : ∀ i, i < n → ∀ r ∈ responses, r.message.Passes (addr 0) (addr (i + 1)))
    (hfirst : (reads 0).bytes = responses.flatMap (·.bytes))
    (hrow : ∀ i, i < n → ∀ proxy, (app i).proxy = some proxy →
      (reads (i + 1)).bytes = (proxyResponseWithRewrite t proxy (reads i)).written) :
    Leads (platform n) (app n) (addr (n + 1)) ∧
      ∀ proxy, (app n).proxy = some proxy →
        Decodes (proxyResponseWithRewrite t proxy (reads n)).written
          (responses.map fun r => r.message.proxied (TCPProxy.new (addr 0) (addr (n + 1)))) := by
  have hinRow : InRow t addr reads n := fun i hi =>
    hrow i hi _ (h.proxy_eq hcrate (Nat.le_of_lt hi))
  refine ⟨h.leads hcrate (Nat.le_refl n), ?_⟩
  intro proxy hproxy
  rw [h.proxy_eq hcrate (Nat.le_refl n)] at hproxy
  obtain rfl := Option.some.inj hproxy
  obtain ⟨sent, hwritten, hsent, _⟩ := hinRow.sends hdelivered hpasses hfirst (Nat.le_refl n)
  exact ⟨sent, hwritten.symm, hsent⟩

/-! ## A program behind the sample -/

/-- What the second program announces. -/
def nextUrl : HttpUrl := ⟨.ip (rowAddr 2).ip, some 8200, "/desc.xml".toList⟩

def rowUrl : Nat → HttpUrl
  | 0 => descriptionUrl
  | 1 => advertisedUrl
  | _ => nextUrl

def rowApp (i : Nat) : Running HttpUrl :=
  sampleApp (rowAddr i) (rowUrl i) (rowUrl (i + 1)) (rowAddr (i + 1))

theorem row_cascade : Cascade release64 httpUrls (fun i => samplePlatform (rowAddr i))
    (fun i => sampleArgs (rowUrl i) (rowAddr (i + 1))) rowApp rowAddr 1 where
  built i hi := ⟨rfl, rfl⟩
  starts i hi := by
    apply main_sample
    obtain rfl | rfl : i = 0 ∨ i = 1 := by omega
    · exact advertise_description
    · rfl
  listens i hi := rfl
  origin := rfl
  follows i hi := rfl
  resolves i hi := rfl

theorem main_cascade_row :
    Leads (samplePlatform (rowAddr 1)) (rowApp 1) (rowAddr (1 + 1)) ∧
      ∀ proxy, (rowApp 1).proxy = some proxy →
        Decodes (proxyResponseWithRewrite release64 proxy (rowReads 1)).written
          (twoAnswers.map fun r =>
            r.message.proxied (TCPProxy.new (rowAddr 0) (rowAddr (1 + 1)))) := by
  refine main_cascade httpUrls_lawful row_cascade twoAnswers_delivered twoAnswers_passes
    (OwnedReadHalf.bytes_ofBytes _) ?_
  intro i hi proxy hproxy
  obtain rfl := Option.some.inj hproxy
  exact rowReads_inRow i hi

end DlnaProxy.Main
