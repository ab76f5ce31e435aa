import Teamspeak.Core.Command

/-!
# Streams on the wire

`wire.ts`: what the rows about a stream say of it, and how the numbers in them are
read.
-/

namespace Teamspeak

/-! ### Numbers -/

/-- The white space that `parseInt` skips. -/
def isWhiteSpace (c : UInt16) : Bool :=
  c ∈ [0x09, 0x0A, 0x0B, 0x0C, 0x0D, 0x20, 0xA0, 0x1680, 0x2028, 0x2029, 0x202F, 0x205F, 0x3000,
    0xFEFF] ∨ (0x2000 ≤ c ∧ c ≤ 0x200A)

/-- `parseInt(s, 10)`; `none` is `NaN`. -/
def parseInt (s : Str) : Option Int :=
  let s := s.dropWhile isWhiteSpace
  let negative := s.head? = some dash
  let s := if negative ∨ s.head? = some (unit '+') then s.tail else s
  let digits := s.takeWhile Str.isDigit
  if digits = [] then none
  else some (if negative then -(Str.digitsValue digits : Int) else Str.digitsValue digits)

/-- `helpers.ts`. -/
def parseUint16 (s : Str) : Nat :=
  match parseInt s with
  | none => 0
  | some v => if v < 0 ∨ v > 65535 then 0 else v.toNat

namespace Stream

/-- `/^-?\d{1,15}$/`, and its number. -/
def int (raw : Option Str) : Option Int :=
  raw.bind fun raw =>
    let negative := raw.head? = some dash
    let digits := if negative then raw.tail else raw
    if digits.all Str.isDigit ∧ 1 ≤ digits.length ∧ digits.length ≤ 15 then
      some (if negative then -(Str.digitsValue digits : Int) else Str.digitsValue digits)
    else none

/-- An unsigned 32-bit number of at most `maxDigits` digits, if they are bounded. -/
def uint32 (raw : Option Str) (maxDigits : Option Nat) : Option Nat :=
  raw.bind fun raw =>
    if raw ≠ [] ∧ raw.all Str.isDigit ∧ maxDigits.elim true (fun max => raw.length ≤ max) ∧
        Str.digitsValue raw ≤ 0xffffffff then
      some (Str.digitsValue raw)
    else none

/-! ### Value tables -/

/-- A value by its name, or by its wire number if it has none. -/
inductive Value
  | name (name : Str)
  | number (n : Nat)
  deriving DecidableEq

/-- The names of `type`, by wire number. -/
def sources : List (Option Str) :=
  ["none", "camera", "screen", "window", "session"].map fun s => some (.of s)

/-- The names of `accessibility`. -/
def accessibilities : List (Option Str) :=
  ["none", "public", "contacts", "private"].map fun s => some (.of s)

/-- The names of `mode`; 0 has none. -/
def transports : List (Option Str) := [none, some (.of "p2p")]

def fromWire (table : List (Option Str)) (n : Nat) : Value :=
  ((table[n]?).join).elim (.number n) .name

def sourceFromWire (n : Nat) : Value := fromWire sources n
def accessibilityFromWire (n : Nat) : Value := fromWire accessibilities n
def transportFromWire (n : Nat) : Value := fromWire transports n

/-! ### Rows -/

abbrev ClientID := Nat

structure StreamInfo where
  id : Str
  clientId : ClientID
  name : Str
  source : Option Value
  audio : Bool
  bitrate : Option Int
  accessibility : Option Value
  transport : Option Value
  viewerLimit : Option Int
  viewers : Option Int
  deriving DecidableEq

/-- The stream a row describes, over what is known of it. -/
def streamInfoFrom (params : Params) (known : Option StreamInfo) : Option StreamInfo :=
  let get (key : String) := params.get? (.of key)
  match get "id" with
  | none => none
  | some [] => none
  | some (c :: id) =>
    let type := uint32 (get "type") (some 15)
    let access := uint32 ((get "accessibility").or (get "access")) (some 15)
    let mode := uint32 (get "mode") (some 15)
    let clid := (get "clid").map parseUint16
    some
      { id := c :: id
        clientId :=
          match clid with
          | none => (known.map StreamInfo.clientId).getD 0
          | some 0 => (known.map StreamInfo.clientId).getD 0
          | some clid => clid
        name := ((get "name").or (known.map StreamInfo.name)).getD []
        source := (type.map sourceFromWire).or (known.bind StreamInfo.source)
        audio :=
          match get "audio" with
          | none => (known.map StreamInfo.audio).getD false
          | some audio => audio = .of "1"
        bitrate := (int (get "bitrate")).or (known.bind StreamInfo.bitrate)
        accessibility :=
          (access.map accessibilityFromWire).or (known.bind StreamInfo.accessibility)
        transport := (mode.map transportFromWire).or (known.bind StreamInfo.transport)
        viewerLimit := (int (get "viewer_limit")).or (known.bind StreamInfo.viewerLimit)
        viewers := (int (get "viewer")).or (known.bind StreamInfo.viewers) }

/-- Whether two descriptions of a stream say the same. -/
def sameInfo (a b : StreamInfo) : Bool := { a with id := b.id } = b

/-- A client a row names under `key`; 0 when it names none. -/
def clientOf (params : Params) (key : String) : ClientID :=
  parseUint16 ((params.get? (.of key)).getD [])

/-- The stop reason a row carries; 0 when it carries none. -/
def reasonOf (params : Params) : Nat := (uint32 (params.get? (.of "reason")) none).getD 0

/-- `/^m=audio[ \t]/m`: a line of the SDP that starts so. -/
def hasAudioSection (sdp : Str) : Bool :=
  (sdp.splitOnP fun c => c ∈ [0x0A, 0x0D, 0x2028, 0x2029]).any fun line =>
    (Str.of "m=audio ").isPrefixOf line ∨ (Str.of "m=audio\t").isPrefixOf line

end Stream

end Teamspeak
