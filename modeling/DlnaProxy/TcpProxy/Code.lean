import DlnaProxy.Lib.BufReader
import DlnaProxy.Lib.Growth
import DlnaProxy.Net

/-!
# The response side of the proxy, as the code computes it

The functions of `tcp_proxy.rs` from `read_line_bytes` to `update_content_length`
over any buffered reader. A loop of the source is `loop` over its pass. Bytes
written to the client are the run's output; writes succeed. Logging is left out.
-/
namespace DlnaProxy.TcpProxy

open DlnaProxy.Lib.ByteIo DlnaProxy.Lib.Growth DlnaProxy.Lib.Utf8 DlnaProxy.Net

/-- A build of the program: the width of `usize`, 32 or 64 in every release and
nowhere less, and whether its arithmetic is checked or wraps. -/
structure Target where
  bits : Nat
  overflowChecks : Bool
  wide : 32 ≤ bits

theorem Target.wide32 : 32 ≤ 32 := Nat.le_refl 32

def release64 : Target := ⟨64, false, by decide⟩

def maxRewritableBodySize : Nat := 10 * 1024 * 1024

structure TCPProxy where
  originUrlBase : Str
  proxyUrlBase : Str

def TCPProxy.new (originAddr proxyAddr : SocketAddr) : TCPProxy where
  originUrlBase := urlBase originAddr
  proxyUrlBase := urlBase proxyAddr

/-! ## Header text -/

/-- Whether the `Content-Type` is text, XML, JSON or HTML. Without one it is not. -/
def shouldRewriteContent (headers : Str) : Bool :=
  match (lines (toLowercase headers)).find? (startsWith · "content-type:".toList) with
  | some line =>
    let contentType := trim ((line.splitOn ':')[1]?.getD [])
    startsWith contentType "text/".toList || contains contentType "xml".toList ||
      contains contentType "json".toList || contains contentType "html".toList
  | none => false

/-- `line` as `update_content_length` copies it, with a CRLF line end. -/
def updateLine (newLength : Nat) (line : Str) : Str :=
  if startsWith (toLowercase line) "content-length:".toList then
    "Content-Length: ".toList ++ decimal newLength ++ "\r\n".toList
  else line ++ "\r\n".toList

def updateContentLength (headers : Str) (newLength : Nat) : Str :=
  (lines headers).flatMap (updateLine newLength)

/-- What the header loop accumulates. -/
structure Head where
  headerBuf : List UInt8
  contentLength : Option Nat
  isChunked : Bool
  deriving DecidableEq

def Head.empty : Head := ⟨[], none, false⟩

/-- `len_str.trim().parse().ok()` of the text between the first two colons. The
last Content-Length line counts, and one that is no number unsets the length. -/
def scanContentLength (t : Target) (lineStr : Str) (contentLength : Option Nat) : Option Nat :=
  if startsWith (toLowercase lineStr) "content-length:".toList then
    match (lineStr.splitOn ':')[1]? with
    | some lenStr => (fromStrRadix t.bits 10 (trim lenStr)).toOption
    | none => contentLength
  else contentLength

def scanIsChunked (lineStr : Str) : Bool :=
  startsWith (toLowercase lineStr) "transfer-encoding:".toList &&
    contains (toLowercase lineStr) "chunked".toList

def Head.scanLine (t : Target) (head : Head) (line : List UInt8) : Head where
  headerBuf := head.headerBuf ++ line
  contentLength := scanContentLength t (fromUtf8Lossy line) head.contentLength
  isChunked := head.isChunked || scanIsChunked (fromUtf8Lossy line)

def crlf : List UInt8 := [13, 10]

/-- The line that ends a header block. -/
def isBlankLine (line : List UInt8) : Bool := line = crlf || line = [10]

/-! ## Chunk sizes -/

def invalidData (message : Str) : IoError := ⟨.invalidData, message⟩

/-- The hex digits end at `;`, CR, LF or a space. -/
def hexEnd (line : List UInt8) : Nat :=
  line.findIdx fun b => b == 59 || b == 13 || b == 10 || b == 32

def parseChunkSize (t : Target) (line : List UInt8) : Except IoError Nat :=
  match fromUtf8 (line.take (hexEnd line)) with
  | none => .error (invalidData "Invalid chunk size encoding".toList)
  | some hexStr =>
    match fromStrRadix t.bits 16 (trim hexStr) with
    | .ok n => .ok n
    | .error e => .error (invalidData
        ("Invalid chunk size '".toList ++ hexStr ++ "': ".toList ++ e.display))

/-! ## The loops -/

section Loops

variable {R : Type} [AsyncBufRead R]

/-- `a + b` on `usize`. -/
def usizeAdd (t : Target) (a b : Nat) : Io R Nat :=
  if a + b < 2 ^ t.bits then pure (a + b)
  else if t.overflowChecks then halt .panic
  else pure ((a + b) % 2 ^ t.bits)

/-- `a - b` on `usize`. -/
def usizeSub (t : Target) (a b : Nat) : Io R Nat :=
  if b ≤ a then pure (a - b)
  else if t.overflowChecks then halt .panic
  else pure (a + 2 ^ t.bits - b)

/-- `vec![0u8; len]`, which panics above `isize::MAX`. -/
def allocate (t : Target) (len : Nat) : Io R Unit :=
  if len < 2 ^ (t.bits - 1) then pure () else halt .panic

/-- `body.extend_from_slice(chunk)`, which panics where the capacity that the body is
to grow to is above `isize::MAX`. -/
def extendFromSlice (t : Target) (body : Vec UInt8) (chunk : List UInt8) : Io R (Vec UInt8) :=
  if (body.extended chunk).capacity < 2 ^ (t.bits - 1) then pure (body.extended chunk)
  else halt .panic

def ofExcept {α : Type} : Except IoError α → Io R α
  | .ok a => pure a
  | .error e => fail e

def readLineBytes : Io R (List UInt8) := readUntil 10

/-- `None` is the end of input before a blank line. -/
def readHeadPass (t : Target) (head : Head) : Io R (Control Head (Option Head)) := do
  let line ← readLineBytes
  if line.isEmpty then return .done none
  else if isBlankLine line then return .done (some (head.scanLine t line))
  else return .next (head.scanLine t line)

def readHead (t : Target) : Io R (Option Head) := loop (readHeadPass t) Head.empty

/-- A pass of `while remaining > 0`, which forwards what one read returns. -/
def forwardPass (t : Target) (remaining : Nat) : Io R (Control Nat Unit) := do
  if 0 < remaining then
    let buf ← read (min remaining 8192)
    if buf.isEmpty then return .done ()
    else
      writeAll buf
      let remaining ← usizeSub t remaining buf.length
      return .next remaining
  else return .done ()

def forward (t : Target) (len : Nat) : Io R Unit := loop (forwardPass t) len

def passThroughChunkedPass (t : Target) (_ : Unit) : Io R (Control Unit Unit) := do
  let sizeLine ← readLineBytes
  if sizeLine.isEmpty then return .done ()
  else
    writeAll sizeLine
    let chunkSize ← ofExcept (parseChunkSize t sizeLine)
    if chunkSize = 0 then
      let trailer ← readUntil 10
      writeAll trailer
      return .done ()
    else
      forward t chunkSize
      let crlf ← readExact 2
      writeAll crlf
      return .next ()

def passThroughChunked (t : Target) : Io R Unit := loop (passThroughChunkedPass t) ()

def readChunkedBodyPass (t : Target) (maxSize : Nat) (body : Vec UInt8) :
    Io R (Control (Vec UInt8) (List UInt8)) := do
  let sizeLine ← readLineBytes
  if sizeLine.isEmpty then return .done body.toList
  else
    let chunkSize ← ofExcept (parseChunkSize t sizeLine)
    if chunkSize = 0 then
      let _trailer ← readUntil 10
      return .done body.toList
    else
      let size ← usizeAdd t body.toList.length chunkSize
      if maxSize < size then
        fail (invalidData ("Chunked body exceeds maximum size (".toList ++ decimal maxSize ++
          " bytes)".toList))
      else
        allocate t chunkSize
        let chunk ← readExact chunkSize
        let body ← extendFromSlice t body chunk
        let _crlf ← readExact 2
        return .next body

def readChunkedBody (t : Target) (maxSize : Nat) : Io R (List UInt8) :=
  loop (readChunkedBodyPass t maxSize) .new

def writeChunkedBody (body : List UInt8) : Io R Unit := do
  writeAll (asBytes (hex body.length) ++ crlf)
  writeAll body
  writeAll crlf
  writeAll ([48] ++ crlf ++ crlf)

/-- A response with neither a length nor chunks is streamed until it closes. -/
def streamUntilClose (head : Head) : Io R (Control Unit Unit) := do
  writeAll head.headerBuf
  flush
  let _bytesCopied ← copy
  return .done ()

def passThroughBody (t : Target) (head : Head) : Io R Unit :=
  if head.isChunked then passThroughChunked t
  else match head.contentLength with
    | some len => forward t len
    | none => pure ()

def passThrough (t : Target) (head : Head) : Io R (Control Unit Unit) := do
  writeAll head.headerBuf
  passThroughBody t head
  flush
  return .next ()

/-- The body with every origin URL base replaced by the proxy's. -/
def rewriteBody (proxy : TCPProxy) (body : List UInt8) : List UInt8 :=
  asBytes (replace proxy.originUrlBase proxy.proxyUrlBase (fromUtf8Lossy body))

/-- The header block goes out as lossy text, with a new Content-Length if the
body has changed its length. -/
def updatedHeaders (head : Head) (bodyLen rewrittenLen : Nat) : Str :=
  let headersStr := fromUtf8Lossy head.headerBuf
  if head.contentLength.isSome && rewrittenLen ≠ bodyLen then
    updateContentLength headersStr rewrittenLen
  else headersStr

def writeBody (head : Head) (body : List UInt8) : Io R Unit :=
  if head.isChunked then writeChunkedBody body else writeAll body

def sendRewritten (proxy : TCPProxy) (head : Head) (body : List UInt8) :
    Io R (Control Unit Unit) := do
  let rewrittenBytes := rewriteBody proxy body
  writeAll (asBytes (updatedHeaders head body.length rewrittenBytes.length))
  writeBody head rewrittenBytes
  flush
  return .next ()

/-- A body that is to be rewritten is read as a whole. The last case does not
arise here: such a response is streamed. -/
def rewrite (t : Target) (proxy : TCPProxy) (head : Head) : Io R (Control Unit Unit) := do
  if head.isChunked then
    let body ← readChunkedBody t maxRewritableBodySize
    sendRewritten proxy head body
  else match head.contentLength with
    | some len =>
      allocate t len
      let body ← readExact len
      sendRewritten proxy head body
    | none => return .next ()

def Head.needsRewrite (head : Head) : Bool := shouldRewriteContent (fromUtf8Lossy head.headerBuf)

def Head.bodyTooLarge (head : Head) : Bool :=
  head.contentLength.any fun len => maxRewritableBodySize < len

/-- What becomes of a response whose header block has been read. -/
def respond (t : Target) (proxy : TCPProxy) (head : Head) : Io R (Control Unit Unit) := do
  if head.headerBuf.isEmpty then return .done ()
  else if !head.isChunked && head.contentLength.isNone then streamUntilClose head
  else if !head.needsRewrite || head.bodyTooLarge then passThrough t head
  else rewrite t proxy head

def responsePass (t : Target) (proxy : TCPProxy) (_ : Unit) : Io R (Control Unit Unit) := do
  match ← readHead t with
  | none => return .done ()
  | some head => respond t proxy head

def responseLoop (t : Target) (proxy : TCPProxy) : Io R Unit := loop (responsePass t proxy) ()

end Loops

/-- The read half of the origin's socket: the pieces its reads return, and
whether the origin closes after them. -/
structure OwnedReadHalf where
  arrivals : List Piece
  closed : Bool

def OwnedReadHalf.bytes (originRead : OwnedReadHalf) : List UInt8 :=
  BufReader.joined originRead.arrivals

/-- The origin sends `bytes` at once and closes. -/
def OwnedReadHalf.ofBytes (bytes : List UInt8) : OwnedReadHalf := ⟨BufReader.onePiece bytes, true⟩

@[simp] theorem OwnedReadHalf.bytes_ofBytes (bytes : List UInt8) : (ofBytes bytes).bytes = bytes :=
  BufReader.joined_onePiece bytes

/-- The buffered reader over the socket, before any read. -/
def OwnedReadHalf.reader (originRead : OwnedReadHalf) : BufReader :=
  BufReader.new originRead.arrivals originRead.closed

theorem OwnedReadHalf.stream_reader (originRead : OwnedReadHalf) :
    originRead.reader.stream = ⟨originRead.bytes, originRead.closed⟩ := rfl

theorem OwnedReadHalf.stream_ofBytes (bytes : List UInt8) :
    (ofBytes bytes).reader.stream = ⟨bytes, true⟩ := by
  rw [stream_reader, bytes_ofBytes]
  rfl

def proxyResponseWithRewrite (t : Target) (proxy : TCPProxy) (originRead : OwnedReadHalf) :
    Run BufReader Unit :=
  responseLoop t proxy originRead.reader

end DlnaProxy.TcpProxy
