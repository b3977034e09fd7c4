import EventPost.Gzip.Basic
import EventPost.Http.Head
import EventPost.Text.Blank

/-!
The body of a response. The head says where it ends: nowhere, after a number of bytes, with an
empty chunk, or when the connection is closed. A body may break off before its end; what came
until then is kept.
-/

namespace EventPost.Http

open Text (Bytes)

/-- What happens on a connection when all bytes have come. -/
inductive Ending
  | closed
  /-- Nothing more comes, and the connection stays open. -/
  | stalled
  deriving DecidableEq, Repr

def Ending.error (stage : Stage) : Ending → Error
  | .closed => .disconnected
  | .stalled => .timeout stage

inductive Framing
  | nothing
  | counted (length : Nat)
  | chunked
  | untilClosed
  deriving DecidableEq, Repr

structure Payload where
  bytes : Bytes
  error : Option Error
  deriving DecidableEq, Repr

namespace Framing

def isChunked (encodings : String) : Bool :=
  (encodings.splitToList (· == ',')).any fun s => s.trimAscii.toString.toLower = "chunked"

/-- What the headers say of the end. Chunks count before a length, and are unknown to the old
version of the protocol. -/
def declared (h : Head) : Except Error (Option Framing) :=
  let chunks := !h.old && (h.header? "transfer-encoding").any isChunked
  match h.header? "content-length" with
  | none => .ok (if chunks then some .chunked else none)
  | some s =>
    match Numeral.readWord s.toList with
    | .error _ => .error (.brokenProtocol "content-length header not a number")
    | .ok n => .ok (some (if chunks then .chunked else .counted n.toNat))

/-- Some statuses go without a body, and a redirection has one only if its head says so. -/
def ofHead (h : Head) : Except Error Framing :=
  match declared h with
  | .error e => .error e
  | .ok framing =>
    if h.status < 200 ∨ h.status = 204 ∨ h.status = 304 then .ok .nothing
    else .ok (framing.getD (if h.redirects then .nothing else .untilClosed))

end Framing

def splitLine? : Bytes → Option (Bytes × Bytes)
  | 0x0d :: 0x0a :: rest => some ([], rest)
  | b :: rest => (splitLine? rest).map fun (line, after) => (b :: line, after)
  | [] => none

def chunkLength (line : Bytes) : Except Error Nat :=
  match Text.decode? (line.takeWhile (· != 0x3b)) with
  | none => .error (.brokenProtocol "chunk length is not ascii")
  | some cs =>
    match Numeral.readUnsigned 16 Numeral.maxWord (Text.trimChars cs) with
    | .error _ => .error (.brokenProtocol "chunk length cannot be read as a number")
    | .ok n => .ok n

def trailerEnds : (fuel : Nat) → Bytes → Bool
  | 0, _ => false
  | fuel + 1, bs =>
    match splitLine? bs with
    | none => false
    | some ([], _) => true
    | some (_ :: _, rest) => trailerEnds fuel rest

def readChunks (ending : Ending) : (fuel : Nat) → (seen : List Bytes) → Bytes → Payload
  | 0, seen, _ => ⟨seen.reverse.flatten, some (ending.error .receiveBody)⟩
  | fuel + 1, seen, bs =>
    match splitLine? bs with
    | none => ⟨seen.reverse.flatten, some (ending.error .receiveBody)⟩
    | some (line, rest) =>
      match chunkLength line with
      | .error e => ⟨seen.reverse.flatten, some e⟩
      | .ok 0 =>
        ⟨seen.reverse.flatten,
          if trailerEnds rest.length rest then none else some (ending.error .receiveBody)⟩
      | .ok n =>
        let chunk := rest.take n
        let seen := chunk :: seen
        match rest.drop n with
        | 0x0d :: 0x0a :: rest => readChunks ending fuel seen rest
        | [] | [0x0d] => ⟨seen.reverse.flatten, some (ending.error .receiveBody)⟩
        | _ =>
          ⟨seen.reverse.flatten,
            some (.brokenProtocol "chunk expected crlf as next character")⟩

def Payload.read (framing : Framing) (ending : Ending) (bs : Bytes) : Payload :=
  match framing with
  | .nothing => ⟨[], none⟩
  | .counted n =>
    let taken := bs.take n
    ⟨taken, if taken.length = n then none else some (ending.error .receiveBody)⟩
  | .chunked => readChunks ending (bs.length + 1) [] bs
  | .untilClosed =>
    ⟨bs, match ending with
      | .closed => none
      | .stalled => some (ending.error .receiveBody)⟩

structure Response where
  head : Head
  payload : Payload
  deriving DecidableEq, Repr

namespace Response

def status (r : Response) : Nat := r.head.status

def isSuccess (r : Response) : Bool := 200 ≤ r.status && r.status ≤ 299

def packed (r : Response) : Bool := r.head.header? "content-encoding" = some "gzip"

def maxBody : Nat := 10 * 1024 * 1024

def received (r : Response) : Except Error Bytes :=
  if maxBody ≤ r.payload.bytes.length then .error (.bodyExceedsLimit maxBody)
  else match r.payload.error with
    | some e => .error e
    | none => .ok r.payload.bytes

def content (r : Response) : Except Error Bytes :=
  if r.packed then
    match r.received with
    | .error e => .error (.unpacking e.innerMessage)
    | .ok bs => (Gzip.unpack bs).mapError fun e => .unpacking e.message
  else r.received

def text? (r : Response) : Option String :=
  match r.content with
  | .error _ => none
  | .ok bs => Text.decodeString? bs

/-- A head that breaks off counts as whole if it says where else to go. -/
def ofPartial (h : Head) : Option Response :=
  if 300 ≤ h.status ∧ h.status ≤ 399 ∧ (h.lastHeader? "location").isSome then
    some ⟨h, ⟨[], none⟩⟩
  else none

def maxHead : Nat := 64 * 1024

/-- What is made of `length` bytes in which no head ends, and of the head that they begin. -/
def ofStart (start : Option Head) (length : Nat) (ending : Ending) : Except Error Response :=
  if maxHead < length then .error (.headExceedsLimit length maxHead)
  else match ending, start.bind ofPartial with
    | .closed, some r => .ok r
    | _, _ => .error (ending.error .receiveHead)

/-- The first head is that of the response, whatever its status: no request asks for one before. -/
def read (bs : Bytes) (ending : Ending) : Except Error Response :=
  match Head.read bs with
  | .error e => .error (.brokenProtocol e.message)
  | .ok none => ofStart none bs.length ending
  | .ok (some (h, none)) => ofStart (some h) bs.length ending
  | .ok (some (h, some rest)) =>
    match Framing.ofHead h with
    | .error e => .error e
    | .ok framing =>
      if maxHead < bs.length - rest.length then .error (.headExceedsLimit bs.length maxHead)
      else .ok ⟨h, Payload.read framing ending rest⟩

end Response

end EventPost.Http
