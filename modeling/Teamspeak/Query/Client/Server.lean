import Teamspeak.Query.Answers.Sent
import Teamspeak.Query.Client

/-!
# The client and the server at the other end

A stream carries each line written to it in order, or fails to, and the server answers
the commands that reach it in order: for each some lines of rows, then one `error` line,
with notifications anywhere between.

* `Wire`: what was written to a transport and has no answer yet, in order.
* `System`: the client, the wires of its transports, and the answers given.
* `System.step`: the client's own steps, and what its streams and the server do.

The rows of an answer are kept twice, as the server sent them and as the client is to
have them: without the one it takes for the row that an earlier create waited for in vain.
-/

namespace Teamspeak.Query

/-- A command that was written, with the rows of its answer so far. -/
structure Written where
  call : Nat
  command : Str
  rows : List Params := []
  /-- Those of them that are the client's to have. -/
  kept : List Params := []
  deriving DecidableEq

structure Wire where
  /-- Not out yet. -/
  outgoing : List Written := []
  /-- With the server. -/
  owed : List Written := []
  deriving DecidableEq

/-- What has no answer yet, in the order it was written. -/
def Wire.unanswered (wire : Wire) : List Written := wire.owed ++ wire.outgoing

def Wire.calls (wire : Wire) : List Nat := wire.unanswered.map Written.call

/-- A command with its whole answer. -/
structure Answered extends Written where
  transport : TransportID
  error : Params
  deriving DecidableEq

/-- What the whole answer comes to. -/
def Answered.result (integerOf : Str → Option Int) (a : Answered) : Result :=
  answerResult integerOf a.command a.kept a.error

structure System where
  client : Client := {}
  wires : TransportID → Wire := fun _ => {}
  answered : List Answered := []

namespace System

/-- The calls that have been answered, in order. -/
def answeredCalls (s : System) : List Nat := s.answered.map fun a => a.call

/-- What happens to a client and to its streams. -/
inductive Event
  /-- Of the client alone. -/
  | own (e : Query.Event)
  | write
  | gaveUp
  /-- The first line not out yet reaches the server. -/
  | flush (t : TransportID)
  /-- Or it does not. -/
  | writeFails (t : TransportID)
  /-- The server sends some rows of the first answer it owes. -/
  | rows (t : TransportID) (text : Str)
  /-- The server ends the first answer it owes. -/
  | error (t : TransportID) (text : Str)
  | notify (t : TransportID) (text : Str)
  deriving DecidableEq

variable (integerOf : Str → Option Int) (options : Options) (s : System)

def setWire (t : TransportID) (wire : Wire) : System :=
  { s with wires := fun u => if u = t then wire else s.wires u }

@[simp] theorem wires_setWire (t : TransportID) (wire : Wire) (u : TransportID) :
    (s.setWire t wire).wires u = if u = t then wire else s.wires u := rfl

/-- The call on the wire whose answer is still to come. -/
def current : Option Nat :=
  s.client.answers.pending.bind fun pending =>
    if pending.held.isSome then none else some pending.call

def write : System :=
  let client := s.client.write
  match s.client.answers.pending, client.answers.pending with
  | none, some pending =>
    let wire := s.wires pending.transport
    setWire { s with client } pending.transport
      { wire with
        outgoing := wire.outgoing ++ [{ call := pending.call, command := pending.command }] }
  | _, _ => { s with client }

/-- The command that runs is given up, its write being under way or done. -/
def gaveUp : System :=
  let sending := s.client.answers.pending.elim false fun pending =>
    ((s.wires pending.transport).outgoing.map Written.call).contains pending.call
  { s with client := s.client.gaveUp sending }

def flush (t : TransportID) : System :=
  match (s.wires t).outgoing with
  | [] => s
  | w :: outgoing => s.setWire t { outgoing, owed := (s.wires t).owed ++ [w] }

def writeFails (t : TransportID) : System :=
  match (s.wires t).outgoing with
  | [] => s
  | w :: outgoing =>
    let client :=
      if s.current = some w.call then s.client.sendFails else s.client.lateSendFails t
    setWire { s with client } t { (s.wires t) with outgoing }

/-- The events of `own` that are the client's alone. -/
def isOwn : Query.Event → Bool
  | .write => false
  | .sendFails => false
  | .gaveUp _ => false
  | .lateSendFails _ => false
  | .line _ _ => false
  | _ => true

def own (e : Query.Event) : System :=
  if isOwn e then { s with client := Query.step integerOf options s.client e } else s

/-- A line comes from transport `t`. -/
def hear (t : TransportID) (text : Str) : System :=
  { s with client := s.client.line options integerOf t text }

def sendRows (t : TransportID) (text : Str) : System :=
  match (s.wires t).owed, rowsOfLine text with
  | w :: owed, some rows =>
    let w :=
      { w with rows := w.rows ++ rows, kept := w.kept ++ keptRows s.client.answers rows }
    (s.hear integerOf options t text).setWire t { (s.wires t) with owed := w :: owed }
  | _, _ => s

/-- The server has ended the answer to `w`, the first it owed. -/
def answer (t : TransportID) (w : Written) (owed : List Written) (error : Params) : System :=
  { s.setWire t { (s.wires t) with owed } with
    answered := s.answered ++ [{ w with transport := t, error }] }

def sendError (t : TransportID) (text : Str) : System :=
  match (s.wires t).owed, errorOfLine text with
  | w :: owed, some error => (s.hear integerOf options t text).answer t w owed error
  | _, _ => s

/-- One event.  A stream that has ended carries nothing more. -/
def step : Event → System
  | .own e => s.own integerOf options e
  | .write => s.write
  | .gaveUp => s.gaveUp
  | .flush t => s.flush t
  | .writeFails t => s.writeFails t
  | .rows t text => if t ∈ s.client.ended then s else s.sendRows integerOf options t text
  | .error t text => if t ∈ s.client.ended then s else s.sendError integerOf options t text
  | .notify t text =>
    if t ∉ s.client.ended ∧ isNotification text then s.hear integerOf options t text else s

/-- Whether the client hears of a transport other than the one installed: a line, or the
failure of a write that was given up on. -/
def intrudes : Event → Bool
  | .writeFails t => s.client.transport.any (· ≠ t) && s.client.unsent.contains t
  | .rows t _ => s.client.transport.any (· ≠ t) && s.client.delivers options t
  | .error t _ => s.client.transport.any (· ≠ t) && s.client.delivers options t
  | _ => false

end System

end Teamspeak.Query
