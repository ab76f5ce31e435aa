import Teamspeak.Core.Token
import Teamspeak.Query.Client.Server

/-!
# WebQuery

`query/web.ts`: each command is a request of its own, and the JSON that answers it comes to
the client as the lines that a raw connection would have sent.

* `Response.lines`: the lines that an answer is turned into.
* `useLine`: what `use` is answered at once, without a request.
* `WebSystem`: the client, its requests in flight, and the answers that came.

A request whose command has ended is aborted: whatever comes for it then, its send rejects.
-/

namespace Teamspeak.Query

/-! ### Answers -/

/-- A value of an answer's row; a number by the text that `String` gives of it. -/
inductive JsonValue
  | string (s : Str)
  | number (text : Str)
  | boolean (b : Bool)
  | other
  deriving DecidableEq

def valueText : JsonValue → Str
  | .string s => s
  | .number text => text
  | .boolean b => if b then .of "1" else .of "0"
  | .other => []

/-- The `Object.entries` of a row. -/
abbrev JsonRow := List (Str × JsonValue)

def rowFields (row : JsonRow) : List (Str × Str) := row.map fun e => (e.1, valueText e.2)

/-- A row as a line of fields, with no name before them. -/
def rowLine (row : JsonRow) : Str := (buildCommandOrdered [] (rowFields row)).drop 1

/-- The row itself. -/
def rowOf (row : JsonRow) : Params := InsertionMap.empty.setAll (rowFields row)

/-- An answer whose status has a number for its code, by the text that `String` gives of
it; its other texts empty where the status has none. -/
structure Response where
  rows : List JsonRow := []
  code : Str
  message : Str := []
  extraMessage : Str := []
  failedPermission : Str := []
  deriving DecidableEq

def Response.errorFields (r : Response) : List (Str × Str) :=
  [(.of "id", r.code), (.of "msg", r.message)] ++
    ((if r.extraMessage = [] then [] else [(.of "extra_msg", r.extraMessage)]) ++
      if r.failedPermission = [] then []
      else [(.of "failed_permission", r.failedPermission)])

def Response.errorLine (r : Response) : Str := buildCommandOrdered (.of "error") r.errorFields

def Response.lines (r : Response) : List Str := r.rows.map rowLine ++ [r.errorLine]

/-- The parameters of the `error` line. -/
def Response.error (r : Response) : Params := InsertionMap.empty.setAll r.errorFields

/-- `/^\d+$/`. -/
def isDigits (s : Str) : Bool := s ≠ [] ∧ s.all Str.isDigit

/-- `#use`: `use` with a server's id or port is answered with success. -/
def useLine (params : Params) : Str :=
  if (params.get? (.of "sid")).any isDigits ∨ (params.get? (.of "port")).any isDigits then
    .of "error id=0 msg=ok"
  else
    buildCommandOrdered (.of "error")
      [(.of "id", .of "1538"), (.of "msg", .of "invalid parameter")]

/-- The parameters of a line that is a `use`. -/
def useParams (line : Str) : Option Params :=
  match ((splitCommandRows line).filterMap parseCommand).head? with
  | none => none
  | some cmd => if cmd.name = .of "use" then some cmd.params else none

/-! ### The client and its requests -/

structure Request where
  call : Nat
  transport : TransportID
  /-- Its command was given up on, and its answer counted as one to let pass. -/
  abandonedByUs : Bool := false
  deriving DecidableEq

/-- A command with the answer that came for it. -/
structure Responded where
  call : Nat
  command : Str
  rows : List Params
  error : Params
  deriving DecidableEq

structure WebSystem where
  client : Client := {}
  inFlight : List Request := []
  responded : List Responded := []

namespace WebSystem

inductive Event
  /-- Of the client alone. -/
  | own (e : Query.Event)
  | write
  | gaveUp
  /-- An answer comes for the request of a call. -/
  | responds (call : Nat) (response : Response)
  /-- The request of a call fails, or what comes for it is no answer. -/
  | fails (call : Nat)
  deriving DecidableEq

variable (integerOf : Str → Option Int) (options : Options) (s : WebSystem)

def own (e : Query.Event) : WebSystem :=
  if System.isOwn e then { s with client := Query.step integerOf options s.client e } else s

/-- The line of the command whose turn it is. -/
def running : Str := s.client.running.elim [] Call.line

def hear (t : TransportID) (lines : List Str) : WebSystem :=
  { s with
    client := lines.foldl (fun client text => client.line options integerOf t text) s.client }

/-- A command is sent: `use` is answered at once, any other by a request. -/
def write : WebSystem :=
  let client := s.client.write
  match s.client.answers.pending, client.answers.pending with
  | none, some pending =>
    match useParams s.running with
    | some params =>
      { hear integerOf options { s with client } pending.transport [useLine params] with
        responded :=
          s.responded ++
            [{ call := pending.call
               command := pending.command
               rows := []
               error := (errorOfLine (useLine params)).getD .empty }] }
    | none =>
      { s with
        client
        inFlight := s.inFlight ++ [{ call := pending.call, transport := pending.transport }] }
  | _, _ => { s with client }

/-- The command that runs is given up, its request with it. -/
def gaveUp : WebSystem :=
  { s with
    client := s.client.gaveUp false
    inFlight :=
      match s.client.answers.pending with
      | none => s.inFlight
      | some pending =>
        s.inFlight.map fun r =>
          if r.call = pending.call then { r with abandonedByUs := pending.held.isNone } else r }

def isWaiting (call : Nat) : Bool := s.client.answers.pending.any (·.call = call)

/-- The send of a request rejects. -/
def rejects (r : Request) : Client :=
  if s.isWaiting r.call then s.client.sendFails
  else if r.abandonedByUs then
    { s.client with
      answers := { s.client.answers with abandoned := s.client.answers.abandoned - 1 } }
  else s.client

def responds (call : Nat) (response : Response) : WebSystem :=
  match s.inFlight.find? (·.call = call) with
  | none => s
  | some r =>
    let inFlight := s.inFlight.erase r
    if s.isWaiting call ∧ s.client.delivers options r.transport then
      { hear integerOf options { s with inFlight } r.transport response.lines with
        responded :=
          s.responded ++
            [{ call
               command := s.client.answers.pending.elim [] Pending.command
               rows := response.rows.map rowOf
               error := response.error }] }
    else { s with inFlight, client := s.rejects r }

def fails (call : Nat) : WebSystem :=
  match s.inFlight.find? (·.call = call) with
  | none => s
  | some r => { s with inFlight := s.inFlight.erase r, client := s.rejects r }

def step : Event → WebSystem
  | .own e => s.own integerOf options e
  | .write => s.write integerOf options
  | .gaveUp => s.gaveUp
  | .responds call response => s.responds integerOf options call response
  | .fails call => s.fails call

end WebSystem

end Teamspeak.Query
