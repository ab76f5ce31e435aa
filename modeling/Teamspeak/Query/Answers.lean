import Teamspeak.Core.Errors
import Teamspeak.Core.Rows

/-!
# Answers over ServerQuery

`late-rows.ts`, and `#handleLine` of `query/client.ts`: one command is on the wire at a
time, and the lines that come are its rows and the `error` line that ends them, but
for what commands that were given up on have still to get.

`Number` of a text is a parameter, `integerOf`: the integer it stands for, if it is one.
-/

namespace Teamspeak.Query

/-! ### Late rows -/

/-- The row a command's answer carries, and whether it carries several. -/
structure LateRows where
  /-- The keys the row is known by. -/
  keys : List Str
  /-- One row for each of several things it made. -/
  several : Bool := false
  /-- Any row is the answer: a read, which has no one key. -/
  any : Bool := false
  deriving DecidableEq

/-- `LATE_ROWS`. -/
def lateRowsTable : List (Str × LateRows) :=
  [(.of "channelcreate", { keys := [.of "cid"] }),
    (.of "servergroupadd", { keys := [.of "sgid"] }),
    (.of "servergroupcopy", { keys := [.of "sgid"] }),
    (.of "channelgroupadd", { keys := [.of "cgid"] }),
    (.of "channelgroupcopy", { keys := [.of "cgid"] }),
    (.of "banadd", { keys := [.of "banid"] }),
    (.of "banclient", { keys := [.of "banid"], several := true }),
    (.of "privilegekeyadd", { keys := [.of "token"] }),
    (.of "tokenadd", { keys := [.of "token"] }),
    (.of "apikeyadd", { keys := [.of "apikey"] }),
    (.of "servercreate", { keys := [.of "sid"] })]

/-- `READS.test(command)`: a `list`, `info` or `find`, a `get…`, `whoami`, `version`. -/
def reads (command : Str) : Bool :=
  [Str.of "list", .of "info", .of "find", .of "search"].any (·.isSuffixOf command) ||
    ((Str.of "get").isPrefixOf command && command.drop 3 ≠ [] &&
      (command.drop 3).all isKeyUnit) ||
    [Str.of "whoami", .of "version", .of "permfind", .of "permoverview", .of "permget"].contains
      command

/-- What is known of where a command's answer rows may fall. -/
def lateRowsOf (command : Str) : Option LateRows :=
  match lateRowsTable.lookup command with
  | some known => some known
  | none => if reads command then some { keys := [], any := true } else none

/-- Whether `rows` already hold what `lateRowsOf` says to wait for. -/
def hasLateRow (late : LateRows) (rows : List Params) : Bool :=
  if late.any then rows ≠ [] else rows.any fun row => late.keys.any fun k => row.has k

/-! ### The command on the wire -/

abbrev TransportID := Nat

/-- Why a command or an attempt failed. -/
inductive Cause
  | refused (failure : Failure)
  | notConnected
  /-- It timed out, or its caller gave it up. -/
  | gaveUp
  | sendFailed
  | openFailed
  /-- `events` on a transport that delivers no notifications. -/
  | eventsUnsupported
  deriving DecidableEq

abbrev Result := Except Cause (List Params)

/-- Set once the `error` line has been read: what follows is a late row or nothing. -/
structure Held where
  keys : List Str
  several : Bool
  any : Bool
  /-- How often its timer has been set. -/
  timer : Nat
  deriving DecidableEq

/-- The command on the wire; `call` is whose promise it settles, and `transport` what it
was written to. -/
structure Pending where
  call : Nat
  transport : TransportID
  command : Str
  rows : List Params := []
  held : Option Held := none
  deriving DecidableEq

structure Answers where
  pending : Option Pending := none
  /-- The key of a row that was waited for and did not come. -/
  strayKey : Option Str := none
  /-- Answers still to come for commands that gave up waiting. -/
  abandoned : Int := 0
  deriving DecidableEq

/-- What a line leaves: the answers, the call it settles, and the notifications it is. -/
structure Reading where
  answers : Answers
  settled : Option (Nat × Result) := none
  notifications : List Command := []

section

variable (integerOf : Str → Option Int)

/-- The refusal that a file transfer negotiation reports inside a successful answer. -/
def transferRefusal (command : Str) (rows : List Params) : Option Failure :=
  if command ≠ .of "ftinitupload" ∧ command ≠ .of "ftinitdownload" then none
  else
    match rows.head? with
    | none => none
    | some row =>
      if row.has (.of "ftkey") then none
      else
        match (row.get? (.of "status")).bind integerOf with
        | none => none
        | some status =>
          if status = 0 then none
          else
            some (.server
              { code := status, serverMessage := (row.get? (.of "msg")).getD [] })

/-- An `error` line, for the command on the wire.  One that made something, or read
something, and has no row yet is held for a moment. -/
def endAnswer (web : Bool) (answers : Answers) (pending : Pending) (params : Params) : Reading :=
  let answers := { answers with pending := none, strayKey := none }
  match (parseServerError params).1.orElse fun _ =>
      transferRefusal integerOf pending.command pending.rows with
  | some refusal => { answers, settled := some (pending.call, .error (.refused refusal)) }
  | none =>
    match if web then none else lateRowsOf pending.command with
    | none => { answers, settled := some (pending.call, .ok pending.rows) }
    | some late =>
      if hasLateRow late pending.rows ∧ late.several = false then
        { answers, settled := some (pending.call, .ok pending.rows) }
      else
        { answers :=
            { answers with
              pending := some
                { pending with
                  held := some
                    { keys := late.keys, several := late.several, any := late.any
                      timer := pending.held.elim 1 (·.timer + 1) } } } }

/-- The timer of a command that is held: its rows have stopped, or never came. -/
def graceEnds (answers : Answers) : Reading :=
  match answers.pending with
  | none => { answers }
  | some pending =>
    match pending.held with
    | none => { answers }
    | some held =>
      let got := (lateRowsOf pending.command).elim false (hasLateRow · pending.rows)
      { answers :=
          { answers with
            pending := none
            strayKey := if got then answers.strayKey else held.keys.head?.or answers.strayKey }
        settled := some (pending.call, .ok pending.rows) }

/-- The rows of a line, which ServerQuery separates with `|`. -/
def splitRows (line : Str) : List Str :=
  (((restOf line).splitOn pipe).filter fun row => row ≠ []).map (rowPrefix line ++ ·)

/-- Add a row to the answer on the wire, which ends one that was held for just this. -/
def pushRow (r : Reading) (params : Params) : Reading :=
  match r.answers.pending with
  | none => r
  | some pending =>
    let pending := { pending with rows := pending.rows ++ [params] }
    match pending.held with
    | none => { r with answers := { r.answers with pending := some pending } }
    | some held =>
      if held.any ∨ held.keys.any params.has then
        if held.several ∨ held.any then
          { r with
            answers :=
              { r.answers with
                pending := some
                  { pending with held := some { held with timer := held.timer + 1 } } } }
        else
          { r with
            answers := { r.answers with pending := none }
            settled := some (pending.call, .ok pending.rows) }
      else { r with answers := { r.answers with pending := some pending } }

/-- Whether a row has no key but the one that was waited for in vain. -/
def isStray (answers : Answers) (params : Params) : Bool :=
  match answers.strayKey with
  | none => false
  | some key => params.entries.map Prod.fst = [key]

/-- Whether the command on the wire has the stray key among its own. -/
def ownsStray (answers : Answers) : Bool :=
  match answers.strayKey, answers.pending.bind fun pending => lateRowsOf pending.command with
  | some key, some own => own.keys.contains key
  | _, _ => false

def Reading.dropStray (r : Reading) : Reading :=
  { r with answers := { r.answers with strayKey := none } }

/-- One row of an answer.  The late row of an earlier command, which gave up waiting for
it, is dropped, unless the command asking has that key for its own. -/
def takeRow (r : Reading) (row : Str) : Reading :=
  match parseCommand row with
  | none => r
  | some parsed =>
    if isStray r.answers parsed.params then
      if ownsStray r.answers then pushRow r.dropStray parsed.params else r.dropStray
    else pushRow r parsed.params

/-- `line.replace(/\r$/, "")`. -/
def trimReturn (line : Str) : Str :=
  if line.getLast? = some 0x0D then line.dropLast else line

/-- `#handleLine`. -/
def handleLine (web : Bool) (answers : Answers) (line : Str) : Reading :=
  match parseCommand (trimReturn line) with
  | none => { answers }
  | some cmd =>
    if cmd.name = .of "error" then
      if answers.abandoned > 0 then
        { answers := { answers with abandoned := answers.abandoned - 1 } }
      else
        match answers.pending with
        | none => { answers }
        | some pending => endAnswer integerOf web answers pending cmd.params
    else if (Str.of "notify").isPrefixOf cmd.name then
      { answers, notifications := (splitRows (trimReturn line)).filterMap parseCommand }
    else if answers.abandoned > 0 then { answers }
    else (splitRows (trimReturn line)).foldl takeRow { answers }

end

end Teamspeak.Query
