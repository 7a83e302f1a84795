import GaugeDesk.Core.Fault
import GaugeDesk.Relay.RequestEncoder

/-!
# Relay transport: the response reader, the model

`ResponseReader` of `http_stream.rs`, with its five calls.  A call ends with a value
or an error and the reader it leaves, or with a `Panic`: an addition that does not
fit a `usize`, a subtraction below zero, a slice out of range, a `Vec` that would
grow past `isize::MAX`, or an `expect` of nothing.  Additions and subtractions are
checked, as in a build with overflow checks.
-/

namespace GaugeDesk.Relay

open Http1

/-! ## What can panic -/

inductive Panic where
  | overflow | underflow | outOfRange | capacity | expect (message : String)
deriving DecidableEq, Repr

def checkedAdd (a b : Nat) : Except Panic Nat := if a + b < 2 ^ 64 then .ok (a + b) else .error .overflow

def checkedSub (a b : Nat) : Except Panic Nat := if b ≤ a then .ok (a - b) else .error .underflow

/-- `&bytes[start..stop]`. -/
def slice (bytes : List UInt8) (start stop : Nat) : Except Panic (List UInt8) :=
  if start ≤ stop ∧ stop ≤ bytes.length then .ok ((bytes.take stop).drop start) else .error .outOfRange

/-- `bytes.drain(..stop)`: what is taken out and what is left. -/
def drain (bytes : List UInt8) (stop : Nat) : Except Panic (List UInt8 × List UInt8) :=
  if stop ≤ bytes.length then .ok (bytes.take stop, bytes.drop stop) else .error .outOfRange

/-- `bytes.extend(more)`. -/
def extend (bytes more : List UInt8) : Except Panic (List UInt8) :=
  if bytes.length + more.length < 2 ^ 63 then .ok (bytes ++ more) else .error .capacity

/-! ## Texts -/

/-- The first place of `needle`. -/
def find (needle : List UInt8) : List UInt8 → Option Nat
  | [] => none
  | b :: bytes =>
    if needle.isPrefixOf (b :: bytes) then some 0 else (find needle bytes).map (· + 1)

/-- `std::str::from_utf8`. -/
def fromUtf8 (bytes : List UInt8) : Option (List Char) :=
  (String.fromUTF8? bytes.toByteArray).map String.toList

def invalidData (message : String) : StreamError := .invalidData message

def digitValue (radix : Nat) (c : Char) : Option Nat := (Hex.value c).filter (· < radix)

/-- `from_str_radix` of an unsigned type of `bits` bits. -/
def fromStrRadix (radix bits : Nat) (text : List Char) : Option Nat := do
  let digits := if text.head? = some '+' then text.tail else text
  if digits = [] then none
  else
    let values ← digits.mapM (digitValue radix)
    let n := values.foldl (fun n v => n * radix + v) 0
    if n < 2 ^ bits then some n else none

/-- `text.split("\r\n")`. -/
def splitCrlf : List Char → List (List Char)
  | [] => [[]]
  | '\r' :: '\n' :: rest => [] :: splitCrlf rest
  | c :: rest =>
    match splitCrlf rest with
    | [] => [[c]]
    | line :: lines => (c :: line) :: lines

/-- `text.split_once(c)`. -/
def splitOnce (c : Char) (text : List Char) : Option (List Char × List Char) :=
  match text.dropWhile (· ≠ c) with
  | [] => none
  | _ :: rest => some (text.takeWhile (· ≠ c), rest)

/-! ## Heads -/

structure HttpResponse where
  status : Nat
  headers : Headers
  body : List UInt8

structure ResponseHead where
  status : Nat
  headers : Headers

inductive BodyFraming where
  | empty | length (length : Nat) | chunked
deriving DecidableEq, Repr

def parseStatus (line : List Char) : Except StreamError Nat :=
  let parts := line.splitOn ' '
  let version := parts.headD []
  if version ≠ "HTTP/1.1".toList ∧ version ≠ "HTTP/1.0".toList then
    .error (invalidData "response is not HTTP/1.x")
  else
    match (parts[1]?.bind (fromStrRadix 10 16)).filter fun code => 100 ≤ code && code ≤ 599 with
    | some code => .ok code
    | none => .error (invalidData "response has no valid status code")

def isInformational (status : Nat) : Bool := 100 ≤ status && status < 200

def framingOf (headers : Headers) (status : Nat) (toHeadRequest : Bool) : Except StreamError BodyFraming :=
  if toHeadRequest ∨ isInformational status ∨ status = 204 ∨ status = 304 then .ok .empty
  else
    match headers["transfer-encoding"]? with
    | some encoding =>
      if eqIgnoreAsciiCase encoding "chunked" then .ok .chunked
      else .error (invalidData "unsupported transfer-encoding")
    | none =>
      match headers["content-length"]? with
      | some value =>
        match fromStrRadix 10 64 value.toList with
        | some length => .ok (.length length)
        | none => .error (invalidData "content-length is not a number")
      | none => .error (invalidData "response declares no body framing")

/-- One header line: its name in lower case and its value, both trimmed. -/
def parseHeader (line : List Char) : Option (String × String) :=
  (splitOnce ':' line).map fun header =>
    (String.ofList ((trim header.1).map Char.toLower), String.ofList (trim header.2))

def parseHeaders : List (List Char) → Headers → Except StreamError Headers
  | [], headers => .ok headers
  | line :: lines, headers =>
    match parseHeader line with
    | some header => parseHeaders lines (headers.insert header.1 header.2)
    | none => .error (invalidData "response header is malformed")

/-! ## The reader -/

inductive BodyPart where
  | chunk (bytes : List UInt8) | finished | pending
deriving DecidableEq, Repr

structure BodyState where
  framing : BodyFraming
  read : Nat
  decoded : List UInt8
  complete : Bool
deriving DecidableEq, Repr

def BodyState.new (framing : BodyFraming) : BodyState := ⟨framing, 0, [], false⟩

structure ResponseReader where
  buffer : List UInt8
  head : Option ResponseHead
  body : Option BodyState
  bodyless : List Bool

def ResponseReader.new : ResponseReader := ⟨[], none, none, []⟩

/-- What a call does unless it panics: its result and the reader it leaves. -/
abbrev Call (α : Type) := ResponseReader → Except Panic (Except StreamError α × ResponseReader)

namespace ResponseReader

def sentRequest (method : String) : Call Unit := fun reader =>
  .ok (.ok (), { reader with bodyless := reader.bodyless ++ [eqIgnoreAsciiCase method "HEAD"] })

def feed (bytes : List UInt8) : Call Unit := fun reader => do
  let buffer ← extend reader.buffer bytes
  .ok (.ok (), { reader with buffer })

def takeHead : Call (Option ResponseHead) := fun reader =>
  if reader.body.isSome then .ok (.ok none, reader)
  else
    match find (crlf ++ crlf) reader.buffer with
    | none => .ok (.ok none, reader)
    | some headEnd => do
      let bytes ← slice reader.buffer 0 headEnd
      match fromUtf8 bytes with
      | none => .ok (.error (invalidData "response head is not utf-8"), reader)
      | some text =>
        let lines := splitCrlf text
        match parseStatus (lines.headD []) with
        | .error e => .ok (.error e, reader)
        | .ok status =>
          match parseHeaders lines.tail ∅ with
          | .error e => .ok (.error e, reader)
          | .ok headers =>
            -- an interim response does not consume the entry of its request
            let toHeadRequest := !isInformational status && reader.bodyless.headD false
            let bodyless := if isInformational status then reader.bodyless else reader.bodyless.tail
            match framingOf headers status toHeadRequest with
            | .error e => .ok (.error e, { reader with bodyless })
            | .ok framing => do
              let stop ← checkedAdd headEnd 4
              let (_, buffer) ← drain reader.buffer stop
              .ok (.ok (some ⟨status, headers⟩),
                { reader with buffer, body := some (.new framing), bodyless })

/-- What one round of the chunked loop finds. -/
inductive ChunkStep where
  | wait
  | failed (error : StreamError)
  | finish (rest : List UInt8)
  | chunk (data rest : List UInt8)
deriving DecidableEq, Repr

/-- The size a chunk header states. -/
def chunkSize (header : List UInt8) : Except StreamError Nat :=
  match fromUtf8 header with
  | none => .error (invalidData "chunk size is not utf-8")
  | some text =>
    match fromStrRadix 16 64 (trim (text.takeWhile (· ≠ ';'))) with
    | none => .error (invalidData "chunk size is not hexadecimal")
    | some size => .ok size

def chunkStep (buffer : List UInt8) : Except Panic ChunkStep :=
  match find crlf buffer with
  | none => .ok .wait
  | some lineEnd => do
    let header ← slice buffer 0 lineEnd
    match chunkSize header with
    | .error e => .ok (.failed e)
    | .ok size => do
      let start ← checkedAdd lineEnd 2
      if size = 0 then
        let stop ← checkedAdd start 2
        if buffer.length < stop then .ok .wait
        else
          let mark ← slice buffer start stop
          if mark ≠ crlf then .ok (.failed (invalidData "chunked trailers are not supported"))
          else
            let (_, rest) ← drain buffer stop
            .ok (.finish rest)
      else
        let dataEnd ← checkedAdd start size
        let stop ← checkedAdd dataEnd 2
        if buffer.length < stop then .ok .wait
        else
          let data ← slice buffer start dataEnd
          let (_, rest) ← drain buffer stop
          .ok (.chunk data rest)

/-- The chunked loop.  Each round but the last takes bytes out of the buffer, so that there are never
more rounds than bytes. -/
def chunkLoop : Nat → List UInt8 → List UInt8 →
    Except Panic (Except StreamError Bool × List UInt8 × List UInt8)
  | 0, buffer, decoded => .ok (.ok false, buffer, decoded)
  | rounds + 1, buffer, decoded => do
    match ← chunkStep buffer with
    | .wait => .ok (.ok false, buffer, decoded)
    | .failed e => .ok (.error e, buffer, decoded)
    | .finish rest => .ok (.ok true, rest, decoded)
    | .chunk data rest => do
      let decoded ← extend decoded data
      chunkLoop rounds rest decoded

/-- `advance`: as much of the body as the buffer holds. -/
def advance : Call Unit := fun reader =>
  match reader.body with
  | none => .ok (.ok (), reader)
  | some state =>
    if state.complete then .ok (.ok (), reader)
    else
      match state.framing with
      | .empty => .ok (.ok (), { reader with body := some { state with complete := true } })
      | .length length => do
        let missing ← checkedSub length state.read
        let take := min missing reader.buffer.length
        let (bytes, buffer) ← drain reader.buffer take
        let decoded ← extend state.decoded bytes
        let read ← checkedAdd state.read take
        .ok (.ok (), { reader with
          buffer, body := some { state with decoded, read, complete := decide (read = length) } })
      | .chunked => do
        let (result, buffer, decoded) ← chunkLoop reader.buffer.length reader.buffer state.decoded
        match result with
        | .error e => .ok (.error e, { reader with buffer, body := some { state with decoded } })
        | .ok complete =>
          .ok (.ok (), { reader with buffer, body := some { state with decoded, complete } })

def readBody : Call BodyPart := fun reader => do
  match ← advance reader with
  | (.error e, reader) => .ok (.error e, reader)
  | (.ok (), reader) =>
    match reader.body with
    | none => .ok (.ok .pending, reader)
    | some state =>
      if state.decoded ≠ [] then
        .ok (.ok (.chunk state.decoded), { reader with body := some { state with decoded := [] } })
      else if state.complete then .ok (.ok .finished, { reader with body := none })
      else .ok (.ok .pending, reader)

/-- The second half of `take`, once a head is there. -/
def takeBody : Call (Option HttpResponse) := fun reader => do
  match ← advance reader with
  | (.error e, reader) => .ok (.error e, reader)
  | (.ok (), reader) =>
    if ¬ reader.body.any (·.complete) then .ok (.ok none, reader)
    else
      match reader.head with
      | none => .error (.expect "a head was taken just above")
      | some head =>
        match reader.body with
        | none => .error (.expect "checked complete")
        | some state =>
          .ok (.ok (some ⟨head.status, head.headers, state.decoded⟩),
            { reader with head := none, body := none })

def take : Call (Option HttpResponse) := fun reader =>
  if reader.head.isSome then takeBody reader
  else do
    match ← takeHead reader with
    | (.error e, reader) => .ok (.error e, reader)
    | (.ok none, reader) => .ok (.ok none, reader)
    | (.ok (some head), reader) => takeBody { reader with head := some head }

end ResponseReader

/-! ## Runs -/

/-- One call of the reader. -/
inductive Action where
  | feed (bytes : List UInt8)
  | sentRequest (method : String)
  | takeHead | readBody | take
deriving DecidableEq, Repr

/-- The reader that a call leaves. -/
def Action.run (action : Action) (reader : ResponseReader) : Except Panic ResponseReader :=
  match action with
  | .feed bytes => (ResponseReader.feed bytes reader).map Prod.snd
  | .sentRequest method => (ResponseReader.sentRequest method reader).map Prod.snd
  | .takeHead => (ResponseReader.takeHead reader).map Prod.snd
  | .readBody => (ResponseReader.readBody reader).map Prod.snd
  | .take => (ResponseReader.take reader).map Prod.snd

end GaugeDesk.Relay
