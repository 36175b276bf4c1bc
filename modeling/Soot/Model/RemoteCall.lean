import Soot.Program.RemoteRuntime

/-!
# What a remote call owes to a local one

The host recovers the name and the arguments that the client sent, and the client has the result
that the call has on the host; a string is the same wherever it lies. What the frames owe to
the clients: each message answered once, in order.
-/

set_option autoImplicit false

namespace Soot.Model

open Soot.Program Soot.Computation ReplServerMessageType

/-- The same value in two processes: strings are the same when their characters are, and a pointer
to anything else is of no use elsewhere. -/
def SameValue : Value → Value → Prop
  | .null, .null => True
  | .int i, .int j => i = j
  | .float x, .float y => x = y
  | .pointer _ (some s), .pointer _ (some s') => s = s'
  | _, _ => False

def SameResult : CallResult → CallResult → Prop
  | .error _, .error _ => True
  | .ok v, .ok w => SameValue v w
  | _, _ => False

/-- An argument that a call is given: null, a boolean, an integer, a string id or a string. -/
def IsArgument : Value → Prop
  | .float _ => False
  | _ => True

variable (floats : FloatText) (hostString clientString : Text → Option Word)

def Recovered (name : Text) (args : List Value) : Prop :=
  ∃ args', CallParser.parse floats hostString (callForm floats name args) = .ok (name, args') ∧
    List.Forall₂ SameValue args args'

def CallsAgree (call : Text → List Value → CallResult) (name : Text) (args : List Value) : Prop :=
  Recovered floats hostString name args ∧
    SameResult (call name args) (remoteCall floats hostString clientString call name args)

def PlainName (name : Text) : Prop := name ≠ [] ∧ ∀ c ∈ name, CallParser.endsSymbol c = false

/-- A value that is the same as the string the client makes of its text: null, where there is no
room for a string, or the string that spells its own address. -/
def Survives (v : Value) : Prop :=
  match v with
  | .null => clientString (text "null") = none
  | .pointer _ (some s) => clientString (v.toText floats) ≠ none ∧
      s = (v.toText floats).takeWhile (· != 0)
  | _ => False

/-! ## The frames -/

/-- A message that a client sends: its length is an `int`, and a ping has no text. -/
def Sends (message : BitVec 32 × Text) : Prop :=
  message.2.length < 2 ^ 31 ∧ (message.1 = PING → message.2 = [])

def frames (sent : List (BitVec 32 × Text)) : Text := sent.flatMap fun m => frame m.1 m.2

/-- The beginning of a message, whose end was lost with the connection. -/
def CutOff (tail : Text) : Prop :=
  ∃ m, Sends m ∧ tail <+: frame m.1 m.2 ∧ tail.length < (frame m.1 m.2).length

/-- A client that is connected will deliver these messages and no other. -/
def Delivers (sock : ℕ) (tail : Text) (sent : List (BitVec 32 × Text))
    (server : ReplServer) : Prop :=
  if sock ∈ server.clientSockets then (server.arrivals sock).flatten = frames sent ++ tail
  else sent = []

def writtenTo (sock : ℕ) (server : ReplServer) : List Write :=
  server.written.filter (·.socket = sock)

/-- What is written for a message: the welcome text for a ping, otherwise the result of the host
for the text, in a frame. -/
def RepliesTo {σ : Type} (handle : σ → Text → Text × σ) (sock : ℕ) (message : BitVec 32 × Text)
    (write : Write) : Prop :=
  write.answers = some ⟨sock, message.2, message.1⟩ ∧
    if message.1 = PING then write.bytes = ReplServer.pingText
    else ∃ carbon, write.bytes = frame EVAL_RESULT (handle carbon message.2).1

/-- Between two states the server takes the first of these messages in order, each once, and
answers each of them in that order. -/
def AnswersInOrder {σ : Type} (handle : σ → Text → Text × σ) (sock : ℕ) (tail : Text)
    (sent : List (BitVec 32 × Text)) (before after : ReplServer) : Prop :=
  ∃ done rest writes, sent = done ++ rest ∧
    writtenTo sock after = writtenTo sock before ++ writes ∧
    List.Forall₂ (RepliesTo handle sock) done writes ∧ Delivers sock tail rest after

end Soot.Model
