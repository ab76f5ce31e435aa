import Teamspeak.Basic
import Mathlib.Logic.Function.Basic

/-!
# QuickLZ level 1 decompression

`quicklz.ts`, as the server compresses large commands.  The decoder keeps one
state, `QlzState`: the control word whose low bit says whether a reference or a
literal comes next, the positions in the source and the output, the output so
far, and the table of positions by hash.  A read past the end of a list gives
zero here where it gives `undefined` there; every read the decoder makes is
behind a length check.
-/

namespace Teamspeak.Transport

def maxDecompressedSize : Nat := 1048576

/-- How much larger than its compressed bytes a level-1 block may claim to be. -/
def maxExpansion : Nat := 128

/-- Why a QuickLZ block cannot be decompressed. -/
inductive QuickLZError
  | dataTooShort
  | unsupportedLevel
  | dataTooShortForHeader
  | exceeds (declared : Nat)
  | storedShort
  | cannotExpand (declared body : Nat)
  | endsEarly
  | referenceAhead
  | referenceOverruns
  deriving DecidableEq, Repr

namespace QuickLZError

def message : QuickLZError → String
  | dataTooShort => "QuickLZ: data too short"
  | unsupportedLevel => "QuickLZ: only level 1 is supported"
  | dataTooShortForHeader => "QuickLZ: data too short for header"
  | exceeds declared =>
    "QuickLZ: declared size " ++ toString declared ++ " exceeds " ++ toString maxDecompressedSize
  | storedShort => "QuickLZ: stored block is shorter than its declared size"
  | cannotExpand declared body =>
    "QuickLZ: declared size " ++ toString declared ++ " is more than " ++ toString body ++
      " bytes can expand to"
  | endsEarly => "QuickLZ: block ends early"
  | referenceAhead => "QuickLZ: back-reference points ahead of the output"
  | referenceOverruns => "QuickLZ: back-reference overruns the declared size"

end QuickLZError

structure QlzHeader where
  headerLen : Nat
  decompressedSize : Nat
  flags : UInt8

/-- Four bytes from `pos` on, low byte first. -/
def readUint32LE (data : Bytes) (pos : Nat) : Nat :=
  (data.getD pos 0).toNat + (data.getD (pos + 1) 0).toNat * 256 +
    (data.getD (pos + 2) 0).toNat * 65536 + (data.getD (pos + 3) 0).toNat * 16777216

def parseQlzHeader (data : Bytes) : Except QuickLZError QlzHeader :=
  if data.length < 3 then .error .dataTooShort
  else
    let flags := data.getD 0 0
    let level := (flags >>> 2) &&& 0x03
    if level ≠ 1 then .error .unsupportedLevel
    else
      let long := flags &&& 0x02 ≠ 0
      let headerLen := if long then 9 else 3
      if data.length < headerLen then .error .dataTooShortForHeader
      else
        let decompressedSize := if long then readUint32LE data 5 else (data.getD 2 0).toNat
        if decompressedSize > maxDecompressedSize then .error (.exceeds decompressedSize)
        else .ok { headerLen, decompressedSize, flags }

structure QlzState where
  control : Nat
  sourcePos : Nat
  destPos : Nat
  nextHashed : Nat
  dest : Bytes
  hashtable : Nat → Nat

namespace QlzState

/-- Refill the control word once its 31 bits are used up. -/
def ensureControl (data : Bytes) (st : QlzState) : Except QuickLZError QlzState :=
  if st.control ≠ 1 then .ok st
  else if st.sourcePos + 4 > data.length then .error .endsEarly
  else
    .ok { st with control := readUint32LE data st.sourcePos, sourcePos := st.sourcePos + 4 }

/-- The table slot of the three bytes at `pos` of the output. -/
def hashAt (dest : Bytes) (pos : Nat) : Nat :=
  let v := (dest.getD pos 0).toNat + (dest.getD (pos + 1) 0).toNat * 256 +
    (dest.getD (pos + 2) 0).toNat * 65536
  ((v >>> 12) ^^^ v) &&& 0xfff

/-- Enter the positions from `nextHashed` up to `nextHashed + n` in the table, as
far as three bytes follow. -/
def updateHashtable (st : QlzState) : Nat → QlzState
  | 0 => st
  | n + 1 =>
    if st.nextHashed + 3 > st.dest.length then st
    else
      updateHashtable
        { st with
          hashtable := Function.update st.hashtable (hashAt st.dest st.nextHashed) st.nextHashed
          nextHashed := st.nextHashed + 1 } n

/-- Copy `n` bytes from `from` on to the end of the output; the two may overlap. -/
def copyMatch (st : QlzState) (start : Nat) : Nat → QlzState
  | 0 => st
  | n + 1 =>
    copyMatch
      { st with dest := st.dest.set st.destPos (st.dest.getD start 0), destPos := st.destPos + 1 }
      (start + 1) n

def processReference (data : Bytes) (st : QlzState) : Except QuickLZError QlzState :=
  let st := { st with control := st.control / 2 }
  if st.sourcePos + 2 > data.length then .error .endsEarly
  else
    let b1 := (data.getD st.sourcePos 0).toNat
    let b2 := (data.getD (st.sourcePos + 1) 0).toNat
    let st := { st with sourcePos := st.sourcePos + 2 }
    let hash := (b1 / 16) ||| (b2 * 16)
    let short := b1 % 16
    if short = 0 ∧ st.sourcePos ≥ data.length then .error .endsEarly
    else
      let matchlen := if short ≠ 0 then short + 2 else (data.getD st.sourcePos 0).toNat
      let st := if short ≠ 0 then st else { st with sourcePos := st.sourcePos + 1 }
      let offset := st.hashtable hash
      if offset ≥ st.destPos then .error .referenceAhead
      else if st.destPos + matchlen > st.dest.length then .error .referenceOverruns
      else
        let st := st.copyMatch offset matchlen
        let stop := st.destPos + 1 - matchlen
        let st := st.updateHashtable (stop - st.nextHashed)
        .ok { st with nextHashed := st.destPos }

/-- One literal byte, with the control bit it uses. -/
def copyLiteral (data : Bytes) (st : QlzState) : QlzState :=
  { st with
    dest := st.dest.set st.destPos (data.getD st.sourcePos 0)
    destPos := st.destPos + 1
    sourcePos := st.sourcePos + 1
    control := st.control / 2 }

/-- The last bytes of the output: `n` literals, with the control word refilled
between them. -/
def copyTail (data : Bytes) (st : QlzState) : Nat → Except QuickLZError QlzState
  | 0 => .ok st
  | n + 1 => do
    let st ← ensureControl data st
    if st.sourcePos ≥ data.length then .error .endsEarly
    else copyTail data (copyLiteral data st) n

/-- A literal; the flag is set once the tail of the block has been copied. -/
def processLiteral (data : Bytes) (decompressedSize : Nat) (st : QlzState) :
    Except QuickLZError (QlzState × Bool) :=
  let threshold := max decompressedSize 10 - 10
  if st.destPos ≥ threshold then do
    let st ← copyTail data st (decompressedSize - st.destPos)
    .ok (st, true)
  else if st.sourcePos ≥ data.length then .error .endsEarly
  else
    let st := copyLiteral data st
    let stop := max (st.destPos - 2) 0
    let st := st.updateHashtable (stop - st.nextHashed)
    .ok (if st.nextHashed < stop then { st with nextHashed := stop } else st, false)

/-- The decoder's loop.  Every turn reads at least one byte of the source, so
`data.length + 1` turns are more than it can make. -/
def decodeLoop (data : Bytes) (decompressedSize : Nat) :
    Nat → QlzState → Except QuickLZError QlzState
  | 0, st => .ok st
  | fuel + 1, st =>
    if st.destPos < decompressedSize then do
      let st ← ensureControl data st
      if st.control % 2 ≠ 0 then
        let st ← processReference data st
        decodeLoop data decompressedSize fuel st
      else
        let (st, done) ← processLiteral data decompressedSize st
        if done then .ok st else decodeLoop data decompressedSize fuel st
    else .ok st

end QlzState

/-- `Qlz.decompress`. -/
def decompress (data : Bytes) : Except QuickLZError Bytes := do
  let { headerLen, decompressedSize, flags } ← parseQlzHeader data
  if flags &&& 0x01 = 0 then
    if headerLen + decompressedSize > data.length then .error .storedShort
    else .ok ((data.drop headerLen).take decompressedSize)
  else if decompressedSize > (data.length - headerLen) * maxExpansion then
    .error (.cannotExpand decompressedSize (data.length - headerLen))
  else do
    let st ← QlzState.decodeLoop data decompressedSize (data.length + 1)
      { control := 1, sourcePos := headerLen, destPos := 0, nextHashed := 0
        dest := List.replicate decompressedSize 0, hashtable := fun _ => 0 }
    if st.destPos ≠ decompressedSize then .error .endsEarly else .ok st.dest

/-- A stored block and a compressed one of five literals. -/
example : decompress [0x04, 6, 3, 65, 66, 67] = .ok [65, 66, 67] ∧
    decompress [0x05, 12, 5, 0, 0, 0, 0x80, 1, 2, 3, 4, 5] = .ok [1, 2, 3, 4, 5] := by
  decide

end Teamspeak.Transport
