import Teamspeak.Core.Text

/-!
# The command line

`command.ts`, `parser.ts` and `request.ts`: how a command is escaped and built, how
a request is rendered as a line, and how a line, or one row of it, is parsed.

* `escape`, `unescape`, `buildCommandOrdered`
* `parseCommand`
* `encodeRequest`
-/

namespace Teamspeak

/-- The code unit of a character. -/
def unit (c : Char) : UInt16 := UInt16.ofNat c.toNat

def backslash : UInt16 := unit '\\'
def space : UInt16 := unit ' '
def pipe : UInt16 := unit '|'
def equalSign : UInt16 := unit '='
def dash : UInt16 := unit '-'

/-- `s.split(c).join(r)`. -/
def replaceAll (c : UInt16) (r s : Str) : Str := r.intercalate (s.splitOn c)

/-- `ESCAPE_MAP`. -/
def escapeMap : List (UInt16 × Str) :=
  [(backslash, .of "\\\\"), (unit '/', .of "\\/"), (space, .of "\\s"), (pipe, .of "\\p"),
    (0x07, .of "\\a"), (0x08, .of "\\b"), (0x0C, .of "\\f"), (0x0A, .of "\\n"),
    (0x0D, .of "\\r"), (0x09, .of "\\t"), (0x0B, .of "\\v")]

def escape (s : Str) : Str := escapeMap.foldl (fun result e => replaceAll e.1 e.2 result) s

/-- What stands for each character that can follow a backslash. -/
def unescapeTable : List (UInt16 × UInt16) :=
  [(backslash, backslash), (unit '/', unit '/'), (unit 's', space), (unit 'p', pipe),
    (unit 'a', 0x07), (unit 'b', 0x08), (unit 'f', 0x0C), (unit 'n', 0x0A),
    (unit 'r', 0x0D), (unit 't', 0x09), (unit 'v', 0x0B)]

/-- Undo `escape`, in one pass: a backslash that starts no escape stands for itself. -/
def unescape : Str → Str
  | [] => []
  | [c] => [c]
  | c :: next :: s =>
    if c = backslash then
      match unescapeTable.lookup next with
      | some u => u :: unescape s
      | none => c :: unescape (next :: s)
    else c :: unescape (next :: s)

/-- `s.startsWith("-")`. -/
def isFlag (key : Str) : Bool := key.head? = some dash

/-- One parameter as `buildCommandOrdered` writes it; a flag is a bare switch. -/
def paramToken (param : Str × Str) : Str :=
  if isFlag param.1 ∧ param.2 = [] then escape param.1
  else escape param.1 ++ equalSign :: escape param.2

/-- `parts.join(" ")`. -/
def joinSpace (parts : List Str) : Str := [space].intercalate parts

/-- Build a command line preserving parameter order. -/
def buildCommandOrdered (cmd : Str) (params : List (Str × Str)) : Str :=
  joinSpace (escape cmd :: params.map paramToken)

/-! ### Parsing -/

structure Command where
  name : Str
  params : Params
  deriving DecidableEq

/-- A command name is a run of ASCII alphanumerics. -/
def isCommandName (token : Str) : Bool := token ≠ [] ∧ token.all Str.isAlphanumeric

def isPrintable (c : UInt16) : Bool := 32 ≤ c.toNat ∧ c.toNat ≤ 126

/-- The line from its first printable character on, or all of it where there is none. -/
def skipUnprintable (s : Str) : Str := s.drop ((s.findIdx? isPrintable).getD 0)

/-- Store what one token of a line says. -/
def readToken (params : Params) (p : Str) : Params :=
  if p = [] then params
  else
    match p.idxOf? equalSign with
    | some eqIdx => params.set (unescape (p.take eqIdx)) (unescape (p.drop (eqIdx + 1)))
    | none => params.set (unescape p) []

/-- Parse one command line, or one row of it. -/
def parseCommand (s : Str) : Option Command :=
  if s = [] then none
  else
    let parts := (skipUnprintable s).splitOn space
    let first := parts.headD []
    if first = [] then none
    else
      let name := if isCommandName first then first else []
      let start := if name = [] then 0 else 1
      some { name, params := (parts.drop start).foldl readToken .empty }

/-! ### Requests -/

/-- A value as a caller may supply it; a number by the text that `String` gives of it. -/
inductive ParamValue
  | string (s : Str)
  | number (text : Str)
  | bigint (n : Int)
  | boolean (b : Bool)
  | undefined
  deriving DecidableEq

/-- A command and its parameters, in the order they are sent.  A list left out is
an empty one. -/
structure CommandRequest where
  command : Str
  params : List (Str × ParamValue) := []
  rows : List (List (Str × ParamValue)) := []
  passwords : List Str := []
  deriving DecidableEq

/-- `String(n)` of a bigint. -/
def stringOfInt : Int → Str
  | .ofNat n => Str.ofNat n
  | .negSucc n => dash :: Str.ofNat (n + 1)

/-- Turn a value into its wire form; nothing for one that is omitted. -/
def encodeValue : ParamValue → Option Str
  | .undefined => none
  | .boolean b => some (if b then .of "1" else .of "0")
  | .string s => some s
  | .number text => some text
  | .bigint n => some (stringOfInt n)

def isKeyUnit (c : UInt16) : Bool := Str.isAlphanumeric c || c == unit '_'

/-- `VALID_KEY`: letters, digits and underscores, with one leading `-` for a flag. -/
def validKey (key : Str) : Bool :=
  let body := if isFlag key then key.tail else key
  body ≠ [] ∧ body.all isKeyUnit

/-- The `TypeError` of a key that is not a parameter name. -/
inductive TypeError
  | notAParameterName (key : Str)
  deriving DecidableEq

/-- What `encodeParams` pushes for one parameter whose key it accepts. -/
def encodeParam (passwords : List Str) (encodePassword : Str → Str) :
    Str × ParamValue → Option (Str × Str)
  | (key, value) =>
    if isFlag key then if value = .boolean true then some (key, []) else none
    else
      match value with
      | .string s =>
        if key ∈ passwords ∧ s ≠ [] then some (key, encodePassword s)
        else (encodeValue value).map (key, ·)
      | _ => (encodeValue value).map (key, ·)

def encodeParams (params : List (Str × ParamValue)) (passwords : List Str)
    (encodePassword : Str → Str) : Except TypeError (List (Str × Str)) :=
  match params with
  | [] => .ok []
  | (key, value) :: rest => do
    if !validKey key then throw (.notAParameterName key)
    let out ← encodeParams rest passwords encodePassword
    return (encodeParam passwords encodePassword (key, value)).toList ++ out

/-- Render a request as a command line. -/
def encodeRequest (request : CommandRequest) (encodePassword : Str → Str) :
    Except TypeError Str := do
  let encode := fun params => encodeParams params request.passwords encodePassword
  let first := request.rows.headD []
  let rest := request.rows.tail
  let line := buildCommandOrdered request.command
    ((← encode request.params) ++ (← encode first))
  let rows ← rest.mapM fun row => return (buildCommandOrdered [] (← encode row)).drop 1
  return [pipe].intercalate (line :: rows)

end Teamspeak
