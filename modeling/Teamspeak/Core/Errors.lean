import Teamspeak.Core.Text

/-!
# Errors

`errors.ts`, as far as commands are answered with it: how an error id is read,
and the `ServerError` an `error` line or a failure notification turns into.
-/

namespace Teamspeak

/-- Read an unsigned 32-bit decimal. -/
def parseUint32 (raw : Option Str) : Option Nat :=
  raw.bind fun s =>
    if s ≠ [] ∧ s.all Str.isDigit ∧ s.digitsValue ≤ 0xffffffff then some s.digitsValue else none

/-- `ErrorCode.Undefined`. -/
def undefinedErrorCode : Nat := 1

/-- Read an error id; one that is missing or unreadable has still not said that
nothing went wrong. -/
def parseErrorCode (raw : Option Str) : Nat := (parseUint32 raw).getD undefinedErrorCode

structure ServerError where
  code : Int
  serverMessage : Str
  extraMessage : Option Str := none
  failedPermissionID : Option Nat := none
  failedPermission : Option Str := none
  deriving DecidableEq

/-- An `Error`: what the server refused with, or another one, by its text. -/
inductive Failure
  | server (e : ServerError)
  | other (message : Str)
  deriving DecidableEq

/-- `raw || undefined`. -/
def nonEmpty (raw : Option Str) : Option Str := raw.filter fun s => s ≠ []

/-- Parse an `error` line: its error, if it is one, and the command it answers. -/
def parseServerError (params : Params) : Option Failure × Option Nat :=
  let code := parseErrorCode (params.get? (.of "id"))
  let err :=
    if code ≠ 0 then
      some (Failure.server
        { code
          serverMessage := (params.get? (.of "msg")).getD []
          extraMessage := nonEmpty (params.get? (.of "extra_msg"))
          failedPermissionID := parseUint32 (params.get? (.of "failed_permid"))
          failedPermission := nonEmpty (params.get? (.of "failed_permission")) })
    else none
  (err, parseUint32 (params.get? (.of "return_code")))

end Teamspeak
