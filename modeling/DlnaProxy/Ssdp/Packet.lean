import DlnaProxy.Lib.Number

/-!
# SSDP packets

The packets of `packet.rs` and their text form, with the packets `InteractiveSSDP`
builds from a description of the remote server. The text is a start line and
header lines, in which the fields stand as they are.
-/
namespace DlnaProxy.Ssdp

open DlnaProxy.Lib.Utf8

inductive SSDPPacket where
  | alive (descUrl serverUa uniqueDeviceName deviceType : Str) (cacheMaxAge : Nat)
  | ok (descUrl serverUa uniqueDeviceName deviceType : Str) (cacheMaxAge : Nat)
  | byeBye (uniqueDeviceName deviceType : Str)
  deriving DecidableEq

/-- The text of a packet that is sent at `now`, a date as `to_rfc2822` prints it. -/
def SSDPPacket.display (now : Str) : SSDPPacket → Str
  | .alive descUrl serverUa uniqueDeviceName deviceType cacheMaxAge =>
    "NOTIFY * HTTP/1.1\r\n".toList ++
    "HOST:239.255.255.250:1900\r\n".toList ++
    "CACHE-CONTROL:max-age=".toList ++ decimal cacheMaxAge ++ "\r\n".toList ++
    "LOCATION:".toList ++ descUrl ++ "\r\n".toList ++
    "SERVER: ".toList ++ serverUa ++ "\r\n".toList ++
    "NT:".toList ++ deviceType ++ "\r\n".toList ++
    "USN:".toList ++ uniqueDeviceName ++ "::".toList ++ deviceType ++ "\r\n".toList ++
    "NTS:ssdp:alive\r\n".toList ++
    "\r\n".toList
  | .ok descUrl serverUa uniqueDeviceName deviceType cacheMaxAge =>
    "HTTP/1.1 200 OK\r\n".toList ++
    "CACHE-CONTROL:max-age=".toList ++ decimal cacheMaxAge ++ "\r\n".toList ++
    "DATE: ".toList ++ replace "+0000".toList "GMT".toList now ++ "\r\n".toList ++
    "ST: ".toList ++ deviceType ++ "\r\n".toList ++
    "USN:".toList ++ uniqueDeviceName ++ "::".toList ++ deviceType ++ "\r\n".toList ++
    "EXT:\r\n".toList ++
    "SERVER: ".toList ++ serverUa ++ "\r\n".toList ++
    "LOCATION:".toList ++ descUrl ++ "\r\n".toList ++
    "Content-Length: 0\r\n".toList ++
    "\r\n".toList
  | .byeBye uniqueDeviceName deviceType =>
    "NOTIFY * HTTP/1.1\r\n".toList ++
    "HOST:239.255.255.250:1900\r\n".toList ++
    "NT:".toList ++ deviceType ++ "\r\n".toList ++
    "USN:".toList ++ uniqueDeviceName ++ "::".toList ++ deviceType ++ "\r\n".toList ++
    "NTS:ssdp:byebye\r\n".toList ++
    "\r\n".toList

/-! ## The helper -/

/-- What `fetch_endpoint_info` reads from the remote description and its answer. -/
structure EndpointInfo where
  deviceType : Str
  uniqueDeviceName : Str
  server : Str
  deriving DecidableEq

structure InteractiveSSDP where
  remoteDescUrl : Str
  cacheMaxAge : Nat

namespace InteractiveSSDP

variable (helper : InteractiveSSDP) (info : EndpointInfo)

/-- The packet of `send_alive`. -/
def alive : SSDPPacket :=
  .alive helper.remoteDescUrl info.server info.uniqueDeviceName info.deviceType helper.cacheMaxAge

/-- The packet of `send_ok`. -/
def ok : SSDPPacket :=
  .ok helper.remoteDescUrl info.server info.uniqueDeviceName info.deviceType helper.cacheMaxAge

end InteractiveSSDP

/-- The packet of `send_byebye`. -/
def InteractiveSSDP.byebye (_helper : InteractiveSSDP) (info : EndpointInfo) : SSDPPacket :=
  .byeBye info.uniqueDeviceName info.deviceType

def sampleHelper : InteractiveSSDP := ⟨"http://192.168.1.52:8100/desc.xml".toList, 1800⟩

/-! ## Header fields -/

/-- A header as a packet carries it, with what stands before its value. -/
structure Field where
  name : Str
  pad : Str
  value : Str
  deriving DecidableEq

def Field.text (field : Field) : Str :=
  field.name ++ ":".toList ++ field.pad ++ field.value ++ "\r\n".toList

def usn (uniqueDeviceName deviceType : Str) : Str := uniqueDeviceName ++ "::".toList ++ deviceType

namespace SSDPPacket

def startLine : SSDPPacket → Str
  | .alive .. => "NOTIFY * HTTP/1.1".toList
  | .ok .. => "HTTP/1.1 200 OK".toList
  | .byeBye .. => "NOTIFY * HTTP/1.1".toList

def fields (now : Str) : SSDPPacket → List Field
  | .alive descUrl serverUa uniqueDeviceName deviceType cacheMaxAge =>
    [⟨"HOST".toList, [], "239.255.255.250:1900".toList⟩,
      ⟨"CACHE-CONTROL".toList, [], "max-age=".toList ++ decimal cacheMaxAge⟩,
      ⟨"LOCATION".toList, [], descUrl⟩, ⟨"SERVER".toList, [' '], serverUa⟩,
      ⟨"NT".toList, [], deviceType⟩, ⟨"USN".toList, [], usn uniqueDeviceName deviceType⟩,
      ⟨"NTS".toList, [], "ssdp:alive".toList⟩]
  | .ok descUrl serverUa uniqueDeviceName deviceType cacheMaxAge =>
    [⟨"CACHE-CONTROL".toList, [], "max-age=".toList ++ decimal cacheMaxAge⟩,
      ⟨"DATE".toList, [' '], replace "+0000".toList "GMT".toList now⟩,
      ⟨"ST".toList, [' '], deviceType⟩, ⟨"USN".toList, [], usn uniqueDeviceName deviceType⟩,
      ⟨"EXT".toList, [], []⟩, ⟨"SERVER".toList, [' '], serverUa⟩, ⟨"LOCATION".toList, [], descUrl⟩,
      ⟨"Content-Length".toList, [' '], "0".toList⟩]
  | .byeBye uniqueDeviceName deviceType =>
    [⟨"HOST".toList, [], "239.255.255.250:1900".toList⟩, ⟨"NT".toList, [], deviceType⟩,
      ⟨"USN".toList, [], usn uniqueDeviceName deviceType⟩, ⟨"NTS".toList, [], "ssdp:byebye".toList⟩]

/-- The value of the first header of that name. -/
def header (now : Str) (packet : SSDPPacket) (name : Str) : Option Str :=
  ((packet.fields now).find? (·.name = name)).map Field.value

/-- A packet is its start line, its header lines and an empty line. -/
theorem display_eq (now : Str) (packet : SSDPPacket) : packet.display now =
    packet.startLine ++ "\r\n".toList ++ ((packet.fields now).flatMap Field.text ++ "\r\n".toList) := by
  unfold display startLine fields
  cases packet <;> simp [Field.text, usn]

end SSDPPacket

end DlnaProxy.Ssdp
