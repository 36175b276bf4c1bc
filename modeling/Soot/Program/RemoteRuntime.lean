import Mathlib.Data.List.Sort
import Soot.Program.Script.Archive
import Soot.Program.StringId

/-!
# Calls over the wire

A remote call is sent as text, one line `(name arg1 arg2 ...)`, parsed by the host, and answered
by text. How floating-point numbers are written and read is a parameter; a C string that a
pointer leads to is given with the pointer. The texts are carried by the frames of the nREPL, over
sockets that deliver the bytes sent to them in order, in portions of any size.
-/

set_option autoImplicit false

namespace Soot.Program

open Soot.Computation
open Script (littleEndian ofLittleEndian)

/-- The string id of a text: what follows a zero byte does not count.
SRCLINE: StringIdHash.cpp:5-13 -/
def textId (s : Text) : Word :=
  (s.takeWhile (· != 0)).foldl
    (fun hash byte => 0x100000001B3 * (hash ^^^ byte.toBitVec.signExtend 64)) 0xCBF29CE484222325

/-- A `Variant`, with the C string that a pointer leads to when it leads to one. -/
inductive Value where
  | null
  | int (value : I64)
  | float (value : BitVec 64)
  | pointer (address : Word) (content : Option Text)
  deriving DecidableEq

/-- What is used of the C library and of `fmt` for floating-point numbers: the text of a number,
and the number that is the whole of a C string, if `strtod` takes it all, narrowed to `f32`. -/
structure FloatText where
  format : BitVec 64 → Text
  strtod : Text → Option (BitVec 64)

namespace Value

/-- `to_string`. SRCLINE: Variant.hpp:481-491 -/
def toText (floats : FloatText) : Value → Text
  | .null => text "null"
  | .int i => intDigits i.toInt
  | .float x => floats.format x
  | .pointer address _ =>
    if address = 0 then text "null"
    else text "ptr:0x" ++ (Nat.toDigits 16 address.toNat).map fun c => byte c.toUpper

/-- `Variant(bool)`. -/
def ofBool (b : Bool) : Value := .int (if b then 1 else 0)

/-- `Variant(std::string)`: a new C string, or null where there is no room for one.
SRCLINE: Variant.hpp:323-333, 525-531 -/
def ofText (newString : Text → Option Word) (s : Text) : Value :=
  match newString s with
  | none => .null
  | some address => .pointer address (some (s.takeWhile (· != 0)))

end Value

/-! ## The client -/

/-- `quote_if_string`. SRCLINE: RemoteRuntime.cpp:45-51 -/
def quoteIfString (floats : FloatText) : Value → Text
  | .pointer _ _ => text "null"
  | .null => text "null"
  | v => v.toText floats

/-- The text of a call. SRCLINE: RemoteRuntime.cpp:97-109 -/
def callForm (floats : FloatText) (name : Text) (args : List Value) : Text :=
  byte '(' :: name ++ args.flatMap (fun arg => byte ' ' :: quoteIfString floats arg) ++ [byte ')']

/-- How a call ends: with a value, or with the text of an error. -/
abbrev CallResult := Except Text Value

/-- The reply as a result. SRCLINE: RemoteRuntime.cpp:118-126 -/
def replyResult (newString : Text → Option Word) (reply : Text) : CallResult :=
  if (text "ERROR: ").isPrefixOf reply then .error (reply.drop 7)
  else .ok (.ofText newString reply)

/-! ## The host -/

/-- A `std::runtime_error` of the parser: what it expected, and how much was left. -/
structure ParseError where
  left : ℕ
  what : String
  deriving DecidableEq

/-- SRCLINE: carbon/Main.cpp:104-106 -/
def ParseError.message (e : ParseError) (src : Text) : Text :=
  text "parse error at " ++ digits (src.length - e.left) ++ text ": " ++ text e.what

namespace CallParser

/-- SRCLINE: carbon/Main.cpp:108-113 -/
def isSpace (c : UInt8) : Bool :=
  c = byte ' ' || c = byte '\t' || c = byte '\r' || c = byte '\n'

/-- What ends a symbol. SRCLINE: carbon/Main.cpp:126-127 -/
def endsSymbol (c : UInt8) : Bool :=
  isSpace c || c = byte '(' || c = byte ')' || c = byte '"'

def skipWs (s : Text) : Text := s.dropWhile isSpace

/-- `read_symbol`: the symbol and what follows it. SRCLINE: carbon/Main.cpp:122-133 -/
def readSymbol (s : Text) : Text × Text := (s.takeWhile (!endsSymbol ·), s.dropWhile (!endsSymbol ·))

/-- The character that an escape stands for. SRCLINE: carbon/Main.cpp:149-155 -/
def unescape (e : UInt8) : UInt8 :=
  if e = byte 'n' then byte '\n'
  else if e = byte 't' then byte '\t'
  else if e = byte 'r' then byte '\r'
  else e

/-- The rest of a string after its opening quote. SRCLINE: carbon/Main.cpp:137-162 -/
def readQuoted : Text → Except ParseError (Text × Text)
  | [] => .error ⟨0, "unterminated string"⟩
  | c :: s =>
    if c = byte '"' then .ok ([], s)
    else if c = byte '\\' then
      match s with
      | [] => .error ⟨0, "dangling '\\'"⟩
      | e :: s => (readQuoted s).map fun (out, rest) => (unescape e :: out, rest)
    else (readQuoted s).map fun (out, rest) => (c :: out, rest)

/-- `read_symbol_or_string`. SRCLINE: carbon/Main.cpp:135-164 -/
def readSymbolOrString (s : Text) : Except ParseError (Text × Text) :=
  match s with
  | [] => .ok (readSymbol s)
  | c :: rest => if c = byte '"' then readQuoted rest else .ok (readSymbol s)

/-- `strtol` of base ten on the whole of a C string: white space, an optional sign and then
digits; a number out of range is the nearest in range. -/
def strtol (s : Text) : Option I64 :=
  let s := (s.takeWhile (· != 0)).dropWhile fun c => c = byte ' ' || 9 ≤ c && c ≤ 13
  let number (negative : Bool) (l : Text) : Option I64 :=
    if l.isEmpty || l.any (!isDigit ·) then none
    else
      let n := digitsValue l 0
      some (if negative then BitVec.ofInt 64 (-(min n (2 ^ 63) : ℕ))
        else BitVec.ofNat 64 (min n (2 ^ 63 - 1)))
  match s with
  | [] => none
  | c :: l =>
    if c = byte '-' then number true l
    else if c = byte '+' then number false l
    else number false s

/-- The value of a symbol. SRCLINE: carbon/Main.cpp:172-181 -/
def symbolValue (floats : FloatText) (token : Text) : Value :=
  match strtol token with
  | some i => .int i
  | none =>
    match floats.strtod (token.takeWhile (· != 0)) with
    | some x => .float x
    | none =>
      if token = text "true" ∨ token = text "#t" then .ofBool true
      else if token = text "false" ∨ token = text "#f" then .ofBool false
      else .int (textId token)

/-- `read_value`, of a text that is not empty. SRCLINE: carbon/Main.cpp:166-182 -/
def readValue (floats : FloatText) (newString : Text → Option Word) (s : Text) :
    Except ParseError (Value × Text) :=
  match s with
  | [] => .error ⟨0, "empty token"⟩
  | c :: rest =>
    if c = byte '"' then (readQuoted rest).map fun (out, rest) => (.ofText newString out, rest)
    else
      let (token, rest) := readSymbol s
      if token = [] then .error ⟨rest.length, "empty token"⟩
      else .ok (symbolValue floats token, rest)

/-- The loop over the arguments, with at most so many of them; each takes a byte.
SRCLINE: carbon/Main.cpp:88-96 -/
def readArgs (floats : FloatText) (newString : Text → Option Word) :
    ℕ → Text → Except ParseError (List Value × Text)
  | 0, s => .error ⟨s.length, "unexpected end of input"⟩
  | n + 1, s =>
    match skipWs s with
    | [] => .error ⟨0, "unexpected end of input"⟩
    | c :: rest =>
      if c = byte ')' then .ok ([], rest)
      else do
        let (v, rest) ← readValue floats newString (c :: rest)
        let (args, rest) ← readArgs floats newString n rest
        return (v :: args, rest)

/-- `parse`. SRCLINE: carbon/Main.cpp:79-101 -/
def parse (floats : FloatText) (newString : Text → Option Word) (src : Text) :
    Except ParseError (Text × List Value) :=
  match skipWs src with
  | [] => .error ⟨0, "expected '('"⟩
  | c :: s =>
    if c ≠ byte '(' then .error ⟨s.length + 1, "expected '('"⟩
    else do
      let (name, rest) ← readSymbolOrString (skipWs s)
      if name = [] then throw ⟨rest.length, "expected function name"⟩
      let (args, rest) ← readArgs floats newString (rest.length + 1) rest
      let left := skipWs rest
      if left ≠ [] then throw ⟨left.length, "trailing garbage after ')'"⟩
      return (name, args)

end CallParser

/-- `handle_eval`, for what `Carbon::call` does. SRCLINE: carbon/Main.cpp:188-199 -/
def handleEval (floats : FloatText) (newString : Text → Option Word)
    (call : Text → List Value → CallResult) (payload : Text) : Text :=
  match CallParser.parse floats newString payload with
  | .error e => text "ERROR: " ++ e.message payload
  | .ok (name, args) =>
    match call name args with
    | .error error => text "ERROR: " ++ error
    | .ok v => if v = .null then text "null" else v.toText floats

/-- A call of a client whose frames are delivered to the host, and the reply's to the client.
SRCLINE: RemoteRuntime.cpp:87-127 -/
def remoteCall (floats : FloatText) (hostString clientString : Text → Option Word)
    (call : Text → List Value → CallResult) (name : Text) (args : List Value) : CallResult :=
  replyResult clientString (handleEval floats hostString call (callForm floats name args))

/-! ## The frames -/

namespace ReplServerMessageType

/-- SRCLINE: ReplServer.h:9-23 -/
def PING : BitVec 32 := 0
@[inherit_doc PING] def EVAL : BitVec 32 := 10
@[inherit_doc PING] def EVAL_RESULT : BitVec 32 := 11

end ReplServerMessageType

open ReplServerMessageType

/-- SRCLINE: ReplServer.h:25-28 -/
structure ReplServerHeader where
  length : BitVec 32
  type : BitVec 32

namespace ReplServerHeader

/-- A header as it lies in memory. -/
def bytes (header : ReplServerHeader) : Text :=
  littleEndian 4 header.length.toNat ++ littleEndian 4 header.type.toNat

@[inherit_doc bytes] def ofBytes (b : Text) : ReplServerHeader :=
  ⟨BitVec.ofNat 32 (ofLittleEndian (b.take 4)), BitVec.ofNat 32 (ofLittleEndian (b.drop 4))⟩

end ReplServerHeader

/-- A header with its text, as the client and the server compose them.
SRCLINE: ReplClient.cpp:40-47, ReplServer.cpp:207-214 -/
def frame (type : BitVec 32) (payload : Text) : Text :=
  ReplServerHeader.bytes ⟨BitVec.ofNat 32 payload.length, type⟩ ++ payload

/-- What a socket will deliver, in the portions that reads find; at the end a read gives 0 or −1,
which its callers treat alike. A read that times out ends it too: accepted sockets have the
timeout of the listening one. SRCLINE: XSocketServer.cpp:66 -/
abbrev Arrivals := List Text

/-- The loop of `read_from_socket` until all of `want` bytes are there: each read takes what has
arrived, as far as it is wanted. SRCLINE: ReplServer.cpp:113-132, 160-183 -/
def readFully (want : ℕ) : Arrivals → Option (Text × Arrivals)
  | [] => if want = 0 then some ([], []) else none
  | part :: rest =>
    if want ≤ part.length then some (part.take want, part.drop want :: rest)
    else (readFully (want - part.length) rest).map fun (got, left) => (part ++ got, left)

/-- SRCLINE: ReplServer.h:38-42 -/
structure ReplServerMessage where
  socket : ℕ
  payload : Text
  type : BitVec 32
  deriving DecidableEq

/-- A `write_to_socket`, which takes all of the bytes, and the message that it answers if any. -/
structure Write where
  socket : ℕ
  answers : Option ReplServerMessage
  bytes : Text

/-- The clients in the order of `std::set`, what their sockets will deliver, what was written. -/
structure ReplServer where
  clientSockets : List ℕ
  arrivals : ℕ → Arrivals
  written : List Write

/-- What a call of `get_msg` finds after `select`: the client that connects, if one does, with what
it will deliver, and which sockets are readable. And whether the next frame is due afterwards. -/
structure Poll where
  connecting : Option (ℕ × Arrivals)
  ready : ℕ → Bool
  due : Bool

namespace ReplServer

def write (server : ReplServer) (socket : ℕ) (answers : Option ReplServerMessage) (bytes : Text) :
    ReplServer :=
  { server with written := server.written ++ [⟨socket, answers, bytes⟩] }

/-- `close_socket`, and the client is erased. -/
def drop (server : ReplServer) (socket : ℕ) : ReplServer :=
  { server with clientSockets := server.clientSockets.filter (· ≠ socket) }

def setArrivals (server : ReplServer) (socket : ℕ) (arrivals : Arrivals) : ReplServer :=
  { server with arrivals := Function.update server.arrivals socket arrivals }

/-- SRCLINE: ReplServer.cpp:44-47, version.h:9-10 -/
def pingText : Text := text "Connected to SOOT v1.0 nREPL!"

/-- A new connection. SRCLINE: ReplServer.cpp:79-103 -/
def acceptClient (server : ReplServer) (socket : ℕ) (arrivals : Arrivals) : ReplServer :=
  let server := (server.setArrivals socket arrivals).write socket none pingText
  if server.clientSockets.length < 50 then
    let others := server.clientSockets.erase socket
    { server with clientSockets := others.orderedInsert (· ≤ ·) socket }
  else
    server.write socket none (text "[ERROR]: Maximum clients reached. Rejecting connection.")

/-- A client in the loop over all of them: it may have sent a message.
SRCLINE: ReplServer.cpp:107-198 -/
def clientTurn (server : ReplServer) (socket : ℕ) : Option ReplServerMessage × ReplServer :=
  match readFully 8 (server.arrivals socket) with
  | none => (none, server.drop socket)
  | some (bytes, left) =>
    let header := ReplServerHeader.ofBytes bytes
    if header.type = PING then
      (none, (server.setArrivals socket left).write socket (some ⟨socket, [], PING⟩) pingText)
    else if header.length.toInt < 0 then (none, server.drop socket)
    else
      match readFully header.length.toNat left with
      | none => (none, server.drop socket)
      | some (payload, left) =>
        (some ⟨socket, payload, header.type⟩, server.setArrivals socket left)

/-- The loop over the clients that are still there, which ends with the first message.
SRCLINE: ReplServer.cpp:105-202 -/
def clientTurns (ready : ℕ → Bool) : List ℕ → ReplServer → Option ReplServerMessage × ReplServer
  | [], server => (none, server)
  | socket :: rest, server =>
    if socket ∉ server.clientSockets ∨ !ready socket then clientTurns ready rest server
    else
      match server.clientTurn socket with
      | (some message, server) => (some message, server)
      | (none, server) => clientTurns ready rest server

@[inherit_doc acceptClient] def accept (server : ReplServer) (poll : Poll) : ReplServer :=
  match poll.connecting with
  | none => server
  | some (socket, arrivals) => server.acceptClient socket arrivals

/-- A client that connects in a call is not read in it. SRCLINE: ReplServer.cpp:56-203 -/
def getMsg (server : ReplServer) (poll : Poll) : Option ReplServerMessage × ReplServer :=
  clientTurns poll.ready server.clientSockets (server.accept poll)

/-- SRCLINE: ReplServer.cpp:205-223 -/
def sendResult (server : ReplServer) (message : ReplServerMessage) (reply : Text) : ReplServer :=
  server.write message.socket (some message) (frame EVAL_RESULT reply)

end ReplServer

/-- A pass of `serve_loop`, for what `handle_eval` and `Carbon::tick` do to the host.
SRCLINE: carbon/Main.cpp:225-240 -/
def serveStep {σ : Type} (handle : σ → Text → Text × σ) (tick : σ → σ)
    (serving : ReplServer × σ) (poll : Poll) : ReplServer × σ :=
  let (server, carbon) := match serving.1.getMsg poll with
    | (none, server) => (server, serving.2)
    | (some message, server) =>
      let (reply, carbon) := handle serving.2 message.payload
      (server.sendResult message reply, carbon)
  (server, if poll.due then tick carbon else carbon)

def serveLoop {σ : Type} (handle : σ → Text → Text × σ) (tick : σ → σ)
    (serving : ReplServer × σ) (polls : List Poll) : ReplServer × σ :=
  polls.foldl (serveStep handle tick) serving

/-- The connection of a client: whether it is up, and what its socket will deliver. -/
structure ReplClient where
  isConnected : Bool
  arrivals : Arrivals

namespace ReplClient

/-- What `eval` does after its request was sent. A length is compared as a signed number, and the
result has all of its length. SRCLINE: ReplClient.cpp:36-93 -/
def eval (client : ReplClient) : Option Text × ReplClient :=
  if !client.isConnected then (none, client)
  else
    match readFully 8 client.arrivals with
    | none => (none, ⟨false, []⟩)
    | some (bytes, left) =>
      let header := ReplServerHeader.ofBytes bytes
      if header.type ≠ EVAL_RESULT then (none, ⟨true, left⟩)
      else
        match readFully header.length.toInt.toNat left with
        | none => (none, ⟨false, []⟩)
        | some (payload, left) =>
          (some (payload ++ List.replicate (header.length.toNat - payload.length) 0), ⟨true, left⟩)

def evals (client : ReplClient) : ℕ → List (Option Text)
  | 0 => []
  | n + 1 => client.eval.1 :: client.eval.2.evals n

end ReplClient

end Soot.Program
