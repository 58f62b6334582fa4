import DlnaProxy.Lib.ByteIo
import DlnaProxy.Net
import DlnaProxy.Ssdp.Httparse
import DlnaProxy.Ssdp.Packet

/-!
# The listener

`parse_ssdp` and `listen_task` over any request parser. The header table of
`parse_ssdp` has sixteen entries, and the loop that reads it ends at the first entry
without a name. A full table has none, and the read behind it is a panic that ends
the task.
-/
namespace DlnaProxy.Ssdp

open DlnaProxy.Lib.Utf8 DlnaProxy.Lib.ByteIo DlnaProxy.Net

/-! ## Packets -/

/-- `to_uppercase` of a header name, which is ASCII. -/
def toUppercase (s : Str) : Str := s.map Char.toUpper

/-- A header map, by what `get` returns. -/
abbrev HeaderMap := Str → Option Str

def HeaderMap.empty : HeaderMap := fun _ => none

def HeaderMap.insert (map : HeaderMap) (name value : Str) : HeaderMap :=
  fun key => if key = name then some value else map key

inductive SsdpError where
  | parse (cause : HttparseError)
  | noSSDPMethod
  deriving DecidableEq

def SsdpError.display : SsdpError → Str
  | .parse _ => "Failed to parse packet as SSDP.".toList
  | .noSSDPMethod => "No SSDP method found while parsing packet.".toList

/-- What `parse_ssdp` comes to. -/
inductive Parsed where
  | ok (method : Str) (headers : HeaderMap)
  | err (e : SsdpError)
  | panic

def headerCapacity : Nat := 16

/-- The table after the parse. -/
def headerTable (headers : List Header) : List Header :=
  headers ++ List.replicate (headerCapacity - headers.length) emptyHeader

/-- The loop over the table from its entry `i` on. There is nothing to index behind
the last entry. -/
def readTable : List Header → HeaderMap → Option HeaderMap
  | [], _ => none
  | header :: table, map =>
    if header.name.isEmpty then some map
    else readTable table (map.insert (toUppercase header.name) (fromUtf8Lossy header.value))

def parseSsdp (parser : Httparse) (buffer : List UInt8) : Parsed :=
  match parser headerCapacity buffer with
  | .error e => .err (.parse e)
  | .ok request =>
    match request.method with
    | none => .err .noSSDPMethod
    | some method =>
      match readTable (headerTable request.headers) .empty with
      | some headers => .ok method headers
      | none => .panic

/-! ## The task -/

structure Datagram where
  bytes : List UInt8
  srcAddr : SocketAddr

def bufferSize : Nat := 1024

/-- The whole buffer after `recv_from`, which cuts a longer datagram. -/
def Datagram.buffer (datagram : Datagram) : List UInt8 :=
  datagram.bytes.take bufferSize ++ List.replicate (bufferSize - datagram.bytes.length) 0

theorem buffer_of_fits {bytes : List UInt8} {srcAddr : SocketAddr}
    (h : bytes.length ≤ bufferSize) : Datagram.buffer ⟨bytes, srcAddr⟩ =
      bytes ++ List.replicate (bufferSize - bytes.length) 0 := by
  show bytes.take bufferSize ++ _ = _
  rw [List.take_of_length_le h]

inductive Received where
  | datagram (datagram : Datagram)
  | failed (e : IoError)

def mSearch : Str := "M-SEARCH".toList

def mediaServer : Str := "urn:schemas-upnp-org:device:MediaServer:1".toList

def ssdpAll : Str := "ssdp:all".toList

def rootDevice : Str := "upnp:rootdevice".toList

/-- Requests for MediaServer:1, for all devices and for root devices. -/
def shouldRespond (method st : Str) : Bool :=
  method = mSearch && (st = mediaServer || st = ssdpAll || st = rootDevice)

/-- What a pass of `listen_task` does with what it received. -/
inductive Handling where
  | ignored
  | answered (st : Str) (dest : SocketAddr)
  | panicked
  deriving Inhabited

def listenPass (parser : Httparse) : Received → Handling
  | .failed _ => .ignored
  | .datagram datagram =>
    match parseSsdp parser datagram.buffer with
    | .err _ => .ignored
    | .panic => .panicked
    | .ok method headers =>
      match headers "ST".toList with
      | none => .ignored
      | some st => if shouldRespond method st then .answered st datagram.srcAddr else .ignored

/-- The passes of the task over what it receives, and whether it is still running. -/
def listenTask (parser : Httparse) : List Received → List Handling × Bool
  | [] => ([], true)
  | received :: more =>
    match listenPass parser received with
    | .panicked => ([], false)
    | handling => (handling :: (listenTask parser more).1, (listenTask parser more).2)

/-! ## The full table -/

variable {parser : Httparse} {buffer : List UInt8}

/-- The buffer holds a request with a header for every entry of the table. -/
def FillsTable (parser : Httparse) (buffer : List UInt8) : Prop :=
  ∃ request, parser headerCapacity buffer = .ok request ∧ request.method.isSome ∧
    request.headers.length = headerCapacity

/-- The loop reads the headers, and an empty entry ends it. -/
theorem readTable_append {headers : List Header} (hnamed : ∀ header ∈ headers, IsToken header.name)
    (table : List Header) (map : HeaderMap) :
    readTable (headers ++ table) map = readTable table (headers.foldl (fun map header =>
      map.insert (toUppercase header.name) (fromUtf8Lossy header.value)) map) := by
  induction headers generalizing map with
  | nil => rfl
  | cons header headers ih =>
    have hname : header.name.isEmpty = false :=
      List.isEmpty_eq_false_iff.mpr (hnamed header List.mem_cons_self).1
    rw [List.cons_append, readTable, hname, List.foldl_cons]
    exact ih (fun header hmem => hnamed header (List.mem_cons_of_mem _ hmem)) _

theorem readTable_full {headers : List Header} (hnamed : ∀ header ∈ headers, IsToken header.name)
    (hfull : headers.length = headerCapacity) (map : HeaderMap) :
    readTable (headerTable headers) map = none := by
  rw [headerTable, hfull, Nat.sub_self, List.replicate_zero, readTable_append hnamed]
  rfl

theorem readTable_room {headers : List Header} (hnamed : ∀ header ∈ headers, IsToken header.name)
    (hroom : headers.length < headerCapacity) (map : HeaderMap) :
    readTable (headerTable headers) map = some (headers.foldl (fun map header =>
      map.insert (toUppercase header.name) (fromUtf8Lossy header.value)) map) := by
  obtain ⟨n, hn⟩ := Nat.exists_eq_add_one_of_ne_zero (Nat.sub_ne_zero_of_lt hroom)
  rw [headerTable, hn, List.replicate_succ, readTable_append hnamed]
  rfl

/-- The map of a header table. -/
def headerMap (headers : List Header) : HeaderMap :=
  headers.foldl (fun map header =>
    map.insert (toUppercase header.name) (fromUtf8Lossy header.value)) .empty

theorem parseSsdp_ok (hlawful : Lawful parser) {request : Request} {method : Str}
    (hparse : parser headerCapacity buffer = .ok request) (hmethod : request.method = some method)
    (hroom : request.headers.length < headerCapacity) :
    parseSsdp parser buffer = .ok method (headerMap request.headers) := by
  simp only [parseSsdp, hparse, hmethod, readTable_room (hlawful.named hparse) hroom, headerMap]

theorem headerMap_of_ok (hlawful : Lawful parser) {method : Str} {headers : HeaderMap}
    (h : parseSsdp parser buffer = .ok method headers) :
    ∃ request, parser headerCapacity buffer = .ok request ∧ headers = headerMap request.headers := by
  simp only [parseSsdp] at h
  split at h
  · cases h
  · next request hparse =>
    split at h
    · cases h
    · split at h
      · next map hread =>
        obtain ⟨_, rfl⟩ := Parsed.ok.inj h
        have hnamed := hlawful.named hparse
        have hbounded := hlawful.bounded hparse
        refine ⟨request, hparse, ?_⟩
        by_cases hfull : request.headers.length = headerCapacity
        · rw [readTable_full hnamed hfull] at hread
          cases hread
        · rw [readTable_room hnamed (by omega)] at hread
          exact (Option.some.inj hread).symm
      · cases h

/-- A well-formed request with room in the table is read as it stands. -/
theorem parseSsdp_text (hlawful : Lawful parser) (text : RequestText) (rest : List UInt8)
    (hroom : text.lines.length < headerCapacity) :
    parseSsdp parser (text.bytes ++ rest) =
      .ok text.method (headerMap (text.lines.map FieldLine.header)) :=
  parseSsdp_ok hlawful (hlawful.complete text rest (Nat.le_of_lt hroom)) rfl
    (by rw [List.length_map]; exact hroom)

/-- **A packet is a panic exactly when it fills the table.** -/
theorem parseSsdp_panic_iff (hlawful : Lawful parser) :
    parseSsdp parser buffer = .panic ↔ FillsTable parser buffer := by
  unfold parseSsdp FillsTable
  cases hparse : parser headerCapacity buffer with
  | error e => simp
  | ok request =>
    have hnamed := hlawful.named hparse
    have hbounded := hlawful.bounded hparse
    cases hmethod : request.method with
    | none => simp [hmethod]
    | some method =>
      by_cases hfull : request.headers.length = headerCapacity
      · simp [hmethod, readTable_full hnamed hfull, hfull]
      · simp [hmethod, readTable_room hnamed (by omega), hfull]

theorem listenPass_panicked_iff (hlawful : Lawful parser) (datagram : Datagram) :
    listenPass parser (.datagram datagram) = .panicked ↔ FillsTable parser datagram.buffer := by
  rw [← parseSsdp_panic_iff hlawful, listenPass]
  split
  · next e he => simp [he]
  · next he => simp [he]
  · next method headers he =>
    split
    · simp [he]
    · split <;> simp [he]

/-- The task goes on with the next packet unless this one is a panic. -/
theorem listenTask_cons (received : Received) (more : List Received) :
    listenTask parser (received :: more) = ((received :: more).map (listenPass parser), true) ↔
      listenPass parser received ≠ .panicked ∧
        listenTask parser more = (more.map (listenPass parser), true) := by
  rw [listenTask]
  split
  · next hpanic => simp [hpanic]
  · next hother =>
    rw [List.map_cons, Prod.ext_iff, Prod.ext_iff]
    simp only [List.cons.injEq, true_and]
    exact (and_iff_right hother).symm

/-- **The listener survives exactly the packets that leave room in the table**, and
then handles each of them from its own content. -/
theorem listenTask_running_iff (hlawful : Lawful parser) (received : List Received) :
    ((∀ datagram, .datagram datagram ∈ received → parseSsdp parser datagram.buffer ≠ .panic) ∧
      listenTask parser received = (received.map (listenPass parser), true)) ↔
    ∀ datagram, .datagram datagram ∈ received → ¬ FillsTable parser datagram.buffer := by
  have hparse (datagram : Datagram) :
      parseSsdp parser datagram.buffer ≠ .panic ↔ ¬ FillsTable parser datagram.buffer :=
    not_congr (parseSsdp_panic_iff hlawful)
  simp only [hparse, and_iff_left_iff_imp]
  intro hroom
  induction received with
  | nil => rfl
  | cons first more ih =>
    rw [listenTask_cons]
    refine ⟨?_, ih fun datagram hmem => hroom datagram (List.mem_cons_of_mem _ hmem)⟩
    cases first with
    | failed e => nofun
    | datagram datagram =>
      rw [ne_eq, listenPass_panicked_iff hlawful]
      exact hroom datagram List.mem_cons_self

/-! ## Sixteen headers -/

/-- A well-formed request fills the table when it has as many headers as entries. -/
theorem fillsTable_text_iff (hlawful : Lawful parser) (text : RequestText) (rest : List UInt8) :
    FillsTable parser (text.bytes ++ rest) ↔ text.lines.length = headerCapacity := by
  unfold FillsTable
  by_cases hroom : text.lines.length ≤ headerCapacity
  · rw [hlawful.complete text rest hroom]
    simp
  · rw [hlawful.tooMany text rest (by omega)]
    simp only [reduceCtorEq, false_and, exists_false, false_iff]
    omega

/-- `A:` without a value. -/
def emptyField : FieldLine :=
  ⟨['A'], [], [], [], by decide, FieldLine.noBlanks, by decide, FieldLine.noBlanks⟩

theorem mSearch_token : IsToken mSearch := by decide

def sixteenFields : RequestText :=
  ⟨mSearch, mSearch_token, List.replicate headerCapacity emptyField⟩

def controlPoint : SocketAddr := ⟨.v4 ⟨[192, 168, 1, 9], rfl⟩, 50000⟩

def sixteenHeaders : Datagram := ⟨sixteenFields.bytes, controlPoint⟩

theorem fillsTable_sixteenHeaders (hlawful : Lawful parser) :
    FillsTable parser sixteenHeaders.buffer := by
  rw [sixteenHeaders, buffer_of_fits (by decide), fillsTable_text_iff hlawful]
  rfl

/-- A search with sixteen headers ends the listener, whichever lawful parser it uses. -/
theorem listenTask_sixteenHeaders : Lawful reference ∧
    ∀ parser, Lawful parser → parseSsdp parser sixteenHeaders.buffer = .panic ∧
      listenTask parser [.datagram sixteenHeaders] = ([], false) := by
  refine ⟨lawful_reference, ?_⟩
  intro parser hlawful
  have hfills := fillsTable_sixteenHeaders hlawful
  refine ⟨(parseSsdp_panic_iff hlawful).mpr hfills, ?_⟩
  rw [listenTask, (listenPass_panicked_iff hlawful _).mpr hfills]

/-- A search with one header. -/
def oneHeader : Datagram := ⟨RequestText.bytes ⟨mSearch, mSearch_token, [emptyField]⟩, controlPoint⟩

theorem room_oneHeader : ¬ FillsTable reference oneHeader.buffer := by
  rw [oneHeader, buffer_of_fits (by decide), fillsTable_text_iff lawful_reference]
  decide

/-- The task ends with the one search and goes on with the other. -/
theorem listenTask_running_iff_sixteenHeaders :
    (((∀ datagram, .datagram datagram ∈ [Received.datagram sixteenHeaders] →
        parseSsdp reference datagram.buffer ≠ .panic) ∧
      listenTask reference [.datagram sixteenHeaders] =
        ([Received.datagram sixteenHeaders].map (listenPass reference), true)) ↔
    ∀ datagram, .datagram datagram ∈ [Received.datagram sixteenHeaders] →
      ¬ FillsTable reference datagram.buffer) ∧
    (∀ datagram, .datagram datagram ∈ [Received.datagram oneHeader] →
        parseSsdp reference datagram.buffer ≠ .panic) ∧
    listenTask reference [.datagram oneHeader] =
      ([Received.datagram oneHeader].map (listenPass reference), true) := by
  refine ⟨listenTask_running_iff lawful_reference [.datagram sixteenHeaders], ?_⟩
  apply (listenTask_running_iff lawful_reference [.datagram oneHeader]).mpr
  intro datagram hmem
  obtain rfl := Received.datagram.inj (List.mem_singleton.mp hmem)
  exact room_oneHeader

end DlnaProxy.Ssdp
