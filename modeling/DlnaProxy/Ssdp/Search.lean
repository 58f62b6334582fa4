import DlnaProxy.Ssdp.Listener

/-!
# Searches and their answers

Whether a search is answered is decided from the request, and what is answered from
the remote description. The answer speaks for the remote device, whichever of the
three targets was asked for.
-/
namespace DlnaProxy.Ssdp

open DlnaProxy.Lib.Utf8 DlnaProxy.Net

variable {parser : Httparse} {helper : InteractiveSSDP} {ε : Type}

/-- The packet `send_ok` sends for what the pass received, when the description is
fetched. -/
def answer (parser : Httparse) (helper : InteractiveSSDP) (fetched : Except ε EndpointInfo)
    (received : Received) : Option SSDPPacket :=
  match listenPass parser received, fetched with
  | .answered _ _, .ok info => some (helper.ok info)
  | _, _ => none

/-- A request is answered when it is a search for one of the three targets. -/
theorem listenPass_answered {received : Received} {st : Str} {dest : SocketAddr}
    (h : listenPass parser received = .answered st dest) : ∃ datagram method headers,
      received = .datagram datagram ∧ dest = datagram.srcAddr ∧
      parseSsdp parser datagram.buffer = .ok method headers ∧ headers "ST".toList = some st ∧
      shouldRespond method st = true := by
  cases received with
  | failed e => cases h
  | datagram datagram =>
    rw [listenPass] at h
    split at h
    · cases h
    · cases h
    · next method headers hparse =>
      split at h
      · cases h
      · next st' hst =>
        split at h
        · next hrespond =>
          cases h
          exact ⟨datagram, method, headers, rfl, rfl, hparse, hst, hrespond⟩
        · cases h

/-- A search for one of the targets that are answered. -/
structure IsSearch (parser : Httparse) (received : Received) (t : Str) : Prop where
  parsed : ∃ datagram headers, received = .datagram datagram ∧
    parseSsdp parser datagram.buffer = .ok mSearch headers ∧ headers "ST".toList = some t
  target : t = mediaServer ∨ t = ssdpAll ∨ t = rootDevice

/-- The answer names the target that was asked for. -/
def NamesTarget (now : Str) (packet : SSDPPacket) (info : EndpointInfo) (t : Str) : Prop :=
  packet.header now "ST".toList = some t ∧
    packet.header now "USN".toList = some (usn info.uniqueDeviceName t)

theorem shouldRespond_iff {method st : Str} : shouldRespond method st = true ↔
    method = mSearch ∧ (st = mediaServer ∨ st = ssdpAll ∨ st = rootDevice) := by
  simp only [shouldRespond, Bool.and_eq_true, Bool.or_eq_true, decide_eq_true_iff, or_assoc]

theorem answer_eq_some {info : EndpointInfo} {received : Received} {packet : SSDPPacket}
    (h : answer parser helper (Except.ok info : Except ε EndpointInfo) received = some packet) :
    packet = helper.ok info ∧ ∃ st dest, listenPass parser received = .answered st dest := by
  unfold answer at h
  split at h
  · next st dest info' hpass hfetch =>
    obtain rfl := Except.ok.inj hfetch
    exact ⟨(Option.some.inj h).symm, st, dest, hpass⟩
  · cases h

theorem IsSearch.of_answered {received : Received} {st : Str} {dest : SocketAddr}
    (h : listenPass parser received = .answered st dest) : IsSearch parser received st := by
  obtain ⟨datagram, method, headers, hreceived, _, hparse, hst, hrespond⟩ := listenPass_answered h
  obtain ⟨rfl, htarget⟩ := shouldRespond_iff.mp hrespond
  exact ⟨⟨datagram, headers, hreceived, hparse, hst⟩, htarget⟩

theorem namesTarget_ok_iff (now : Str) (info : EndpointInfo) (t : Str) :
    NamesTarget now (helper.ok info) info t ↔ t = info.deviceType := by
  have hst : (helper.ok info).header now "ST".toList = some info.deviceType := rfl
  have husn : (helper.ok info).header now "USN".toList =
      some (usn info.uniqueDeviceName info.deviceType) := rfl
  rw [NamesTarget, hst, husn]
  constructor
  · rintro ⟨h, _⟩
    exact (Option.some.inj h).symm
  · rintro rfl
    exact ⟨rfl, rfl⟩

/-- **An answer speaks for the remote device.** It names the target of the search
exactly where that is the type of the device. -/
theorem answer_target {info : EndpointInfo} {received : Received} {packet : SSDPPacket} (now : Str)
    (h : answer parser helper (Except.ok info : Except ε EndpointInfo) received = some packet) :
    ∃ t, IsSearch parser received t ∧ NamesTarget now packet info info.deviceType ∧
      (t = ssdpAll ∨ NamesTarget now packet info t ↔ t = ssdpAll ∨ t = info.deviceType) := by
  obtain ⟨rfl, t, dest, hpass⟩ := answer_eq_some h
  refine ⟨t, .of_answered hpass, (namesTarget_ok_iff now info _).mpr rfl, ?_⟩
  rw [namesTarget_ok_iff]

/-! ## A search for another device -/

def searchFor (st : Str) (hclean : CleanValue (asBytes st)) : RequestText where
  method := mSearch
  token := mSearch_token
  lines := [⟨"ST".toList, [32], asBytes st, [], by decide, by decide, hclean, FieldLine.noBlanks⟩]

theorem listenPass_searchFor (hlawful : Lawful parser) {st : Str} (hclean : CleanValue (asBytes st))
    (srcAddr : SocketAddr) (hfits : (searchFor st hclean).bytes.length ≤ bufferSize)
    (hrespond : shouldRespond mSearch st = true) :
    listenPass parser (.datagram ⟨(searchFor st hclean).bytes, srcAddr⟩) = .answered st srcAddr := by
  have hroom : (searchFor st hclean).lines.length < headerCapacity := by
    show 1 < 16
    omega
  have hst : headerMap ((searchFor st hclean).lines.map FieldLine.header) "ST".toList = some st :=
    congrArg some (fromUtf8Lossy_asBytes st)
  rw [listenPass, buffer_of_fits hfits, parseSsdp_text hlawful _ _ hroom]
  simp only [hst]
  exact if_pos hrespond

def mediaServerSearch : Datagram := ⟨(searchFor mediaServer (by decide)).bytes, controlPoint⟩

theorem listenPass_mediaServerSearch :
    listenPass reference (.datagram mediaServerSearch) = .answered mediaServer controlPoint :=
  listenPass_searchFor lawful_reference _ controlPoint (by decide) (by decide)

def mediaRenderer : EndpointInfo where
  deviceType := "urn:schemas-upnp-org:device:MediaRenderer:1".toList
  uniqueDeviceName := "uuid:minimal-device".toList
  server := "DLNAProxy/1.0".toList

theorem answer_eq_ok :
    answer reference sampleHelper (Except.ok mediaRenderer : Except Unit EndpointInfo)
      (.datagram mediaServerSearch) = some (sampleHelper.ok mediaRenderer) := by
  unfold answer
  rw [listenPass_mediaServerSearch]

/-- A search for a media server is answered on behalf of a media renderer. -/
theorem answer_mediaServerSearch : ∃ packet,
    answer reference sampleHelper (Except.ok mediaRenderer : Except Unit EndpointInfo)
      (.datagram mediaServerSearch) = some packet ∧
    listenPass reference (.datagram mediaServerSearch) = .answered mediaServer controlPoint ∧
    mediaServer ≠ ssdpAll ∧ ∀ now, ¬ NamesTarget now packet mediaRenderer mediaServer := by
  refine ⟨_, answer_eq_ok, listenPass_mediaServerSearch, by decide, ?_⟩
  intro now
  rw [namesTarget_ok_iff]
  decide

theorem answer_target_mediaServerSearch : ∃ t, IsSearch reference (.datagram mediaServerSearch) t ∧
    NamesTarget [] (sampleHelper.ok mediaRenderer) mediaRenderer mediaRenderer.deviceType ∧
    (t = ssdpAll ∨ NamesTarget [] (sampleHelper.ok mediaRenderer) mediaRenderer t ↔
      t = ssdpAll ∨ t = mediaRenderer.deviceType) :=
  answer_target [] answer_eq_ok

end DlnaProxy.Ssdp
