import Teamspeak.Core.Errors
import Teamspeak.Lib.Run

/-!
# Matching answers to commands

`commands.ts`: the `CommandTracker`, which gives the server's rows to the commands
in flight, and the answer specs of `command/responses.ts` it goes by.  A row is an
object the tracker hands on as it is and reads fields of, so its type `ρ` is left
open.

The tracker's `trace` is no field of the class: it records the return codes given
out and the promises resolved, in order.
-/

namespace Teamspeak

/-! ### Answer specs -/

/-- Notifications that answer a command wherever they fall against its `error`. -/
structure Correlated where
  notifications : List Str
  /-- The request parameter the answer echoes back. -/
  key : Str
  /-- A notification that reports failure rather than data. -/
  failure : Option Str := none
  deriving DecidableEq

/-- How the voice protocol delivers one command's data. -/
structure ResponseSpec where
  notifications : Option (List Str) := none
  /-- Keep only rows whose `invokerid` is the client itself. -/
  ownRowsOnly : Bool := false
  echoKey : Option Str := none
  correlated : Option Correlated := none
  deriving DecidableEq

/-- `spec.notifications?.includes(name)`. -/
def ResponseSpec.includes (spec : ResponseSpec) (name : Str) : Bool :=
  (spec.notifications.getD []).contains name

namespace Client

variable {ρ : Type*}

/-! ### State -/

structure CommandResult (ρ : Type*) where
  err : Option Failure
  data : List ρ
  deriving DecidableEq

/-- A row waiting for the `error` that says which command it answered. -/
structure BufferedRow (ρ : Type*) where
  /-- The notification that carried it, or empty for a nameless row. -/
  source : Str
  params : ρ
  deriving DecidableEq

structure PendingCommand (ρ : Type*) where
  spec : Option ResponseSpec
  /-- The request's value for `spec.correlated.key`, when there is one. -/
  correlation : Option Str
  /-- The request's value for `spec.echoKey`, when there is one. -/
  echo : Option Str
  /-- Correlated answers that arrived before the command's own `error`. -/
  correlated : List ρ := []
  /-- The command's `error` result, held while its correlated answer is due. -/
  settled : Option (CommandResult ρ) := none
  deriving DecidableEq

/-- What a caller of the tracker sees. -/
inductive Tracked (ρ : Type*)
  /-- A return code was given to a command. -/
  | registered (rc : Nat) (command : PendingCommand ρ)
  /-- The command's promise was resolved. -/
  | settled (rc : Nat) (result : CommandResult ρ)
  deriving DecidableEq

structure CommandTracker (ρ : Type*) where
  pending : InsertionMap Nat (PendingCommand ρ)
  nextRC : Nat
  buffered : List (BufferedRow ρ)
  welcomeComplete : Bool
  trace : List (Tracked ρ)
  deriving DecidableEq

def CommandTracker.new : CommandTracker ρ := ⟨.empty, 0, [], false, []⟩

namespace PendingCommand

/-- The correlated spec and the value a row has to echo, if there are both. -/
def awaits (p : PendingCommand ρ) : Option (Correlated × Str) :=
  (p.spec.bind ResponseSpec.correlated).bind fun c => p.correlation.map fun v => (c, v)

variable [Fields ρ]

/-- Whether a notification is a correlated answer of the command. -/
def takes (p : PendingCommand ρ) (name : Str) (params : ρ) : Bool :=
  match p.awaits with
  | none => false
  | some (c, v) => c.notifications.contains name ∧ field? params c.key = some v

/-- Whether a correlated answer reports failure. -/
def failsOn (p : PendingCommand ρ) (name : Str) (params : ρ) : Bool :=
  match p.awaits with
  | none => false
  | some (c, _) => c.failure = some name ∧ (field? params (.of "status")).getD (.of "0") ≠ .of "0"

/-- Whether a buffered row answers the command; `own` is the client's id. -/
def answers (own : Nat) (p : PendingCommand ρ) (row : BufferedRow ρ) : Bool :=
  if row.source = [] then true
  else
    match p.spec with
    | none => false
    | some spec =>
      if spec.includes row.source = false then false
      else if spec.ownRowsOnly ∧ field? row.params (.of "invokerid") ≠ some (.ofNat own) then false
      else
        match spec.echoKey, p.echo with
        | some key, some echo =>
          match field? row.params key with
          | none => true
          | some value => value = echo
        | _, _ => true

end PendingCommand

namespace CommandTracker

/-! ### Operations -/

def log (t : CommandTracker ρ) (o : Tracked ρ) : CommandTracker ρ :=
  { t with trace := t.trace ++ [o] }

def settle (t : CommandTracker ρ) (rc : Nat) (result : CommandResult ρ) : CommandTracker ρ :=
  { t with pending := t.pending.delete rc }.log (.settled rc result)

/-- The value a row must echo: the tracker's own number is the one request field no
caller can supply. -/
def correlationOf (spec : Option ResponseSpec) (correlation : Option Str) (rc : Nat) :
    Option Str :=
  match spec.bind ResponseSpec.correlated with
  | some c => if c.key = .of "return_code" then some (.ofNat rc) else correlation
  | none => correlation

def register (t : CommandTracker ρ) (spec : Option ResponseSpec) (correlation echo : Option Str) :
    CommandTracker ρ :=
  let rc := t.nextRC + 1
  let p : PendingCommand ρ := { spec, correlation := correlationOf spec correlation rc, echo }
  { t with nextRC := rc, pending := t.pending.set rc p }.log (.registered rc p)

def unregister (t : CommandTracker ρ) (rc : Nat) : CommandTracker ρ :=
  { t with pending := t.pending.delete rc }

/-- Mark the end of the welcome sequence and drop what it left behind. -/
def signalWelcomeComplete (t : CommandTracker ρ) : CommandTracker ρ :=
  { t with welcomeComplete := true, buffered := [] }

/-- Whether some in-flight command declared `name` as its answer. -/
def expects (t : CommandTracker ρ) (name : Str) : Bool :=
  t.pending.entries.any fun e =>
    match e.2.spec with
    | none => false
    | some spec =>
      spec.includes name ∨ (spec.correlated.any fun c => c.notifications.contains name)

/-- Hold a row until the next `error` says which command it answered. -/
def buffer (t : CommandTracker ρ) (params : ρ) (source : Str) : CommandTracker ρ :=
  if t.welcomeComplete = false then t
  else if t.pending.size = 0 then t
  else { t with buffered := t.buffered ++ [⟨source, params⟩] }

variable [Fields ρ]

/-- The error a failure notification reports. -/
def failureOf (params : ρ) : Failure :=
  .server
    { code := parseErrorCode (field? params (.of "status"))
      serverMessage := (field? params (.of "msg")).getD []
      extraMessage := nonEmpty (field? params (.of "extra_msg")) }

/-- Offer a notification to the first command in flight that it answers. -/
def offerCorrelated (t : CommandTracker ρ) (name : Str) (params : ρ) : CommandTracker ρ :=
  match t.pending.entries.find? fun e => e.2.takes name params with
  | none => t
  | some (rc, p) =>
    if p.failsOn name params then t.settle rc ⟨some (failureOf params), []⟩
    else
      let p := { p with correlated := p.correlated ++ [params] }
      match p.settled with
      | some held => t.settle rc ⟨none, held.data ++ p.correlated⟩
      | none => { t with pending := t.pending.set rc p }

def resolve (t : CommandTracker ρ) (rc : Nat) (err : Option Failure) (own : Nat) :
    CommandTracker ρ :=
  let rows := t.buffered
  let t := { t with buffered := [] }
  match t.pending.get? rc with
  | none => t
  | some p =>
    let data := (rows.filter (p.answers own)).map BufferedRow.params
    match err with
    | some err => t.settle rc ⟨some err, data⟩
    | none =>
      -- Answered after the error: the result is held until the answer arrives.
      if p.awaits.isSome ∧ p.correlated.length = 0 then
        { t with pending := t.pending.set rc { p with settled := some ⟨none, data⟩ } }
      else t.settle rc ⟨none, data ++ p.correlated⟩

def discardBuffer (t : CommandTracker ρ) : CommandTracker ρ := { t with buffered := [] }

/-- Forget every command and fail it with `err`.  The counter is not restarted: a row
still in flight carries an old number. -/
def reset (t : CommandTracker ρ) (err : Failure) : CommandTracker ρ :=
  { t with
    pending := .empty
    buffered := []
    welcomeComplete := false
    trace := t.trace ++ t.pending.entries.map fun e => .settled e.1 ⟨some err, []⟩ }

/-- What `#handleCommandStr` does with a notification on the tracker. -/
def notified (t : CommandTracker ρ) (name : Str) (params : ρ) : CommandTracker ρ :=
  if t.expects name then (t.buffer params name).offerCorrelated name params else t

/-! ### Runs -/

end CommandTracker

/-- An operation on the tracker; `own` is the client's id at that time. -/
inductive Op (ρ : Type*)
  | register (spec : Option ResponseSpec) (correlation echo : Option Str)
  | unregister (rc : Nat)
  | signalWelcomeComplete
  | buffer (params : ρ) (source : Str)
  | offerCorrelated (name : Str) (params : ρ)
  | resolve (rc : Nat) (err : Option Failure) (own : Nat)
  | discardBuffer
  | reset (err : Failure)
  deriving DecidableEq

namespace CommandTracker

variable [Fields ρ]

def step (t : CommandTracker ρ) : Op ρ → CommandTracker ρ
  | .register spec correlation echo => t.register spec correlation echo
  | .unregister rc => t.unregister rc
  | .signalWelcomeComplete => t.signalWelcomeComplete
  | .buffer params source => t.buffer params source
  | .offerCorrelated name params => t.offerCorrelated name params
  | .resolve rc err own => t.resolve rc err own
  | .discardBuffer => t.discardBuffer
  | .reset err => t.reset err

/-- A new tracker after some operations. -/
def after (ops : List (Op ρ)) : CommandTracker ρ := run step .new ops

end CommandTracker

end Client

end Teamspeak
