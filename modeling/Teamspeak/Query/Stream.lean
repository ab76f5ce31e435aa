import Teamspeak.Basic
import Teamspeak.Core.Text
import Teamspeak.Lib.Pieces

/-!
# The lines of a stream

`lines.ts`, `trim.ts` and what `stream.ts` does with a chunk: a byte stream arrives in
chunks, `LineReader` cuts it into lines, and the transport passes them on, after the two
of the banner.  `decode` is `buffer.toString("utf8")`, of the bytes of a line.
-/

namespace Teamspeak.Query

/-- `text` without the `\r` characters at either end. -/
def trimCarriageReturns (text : Str) : Str :=
  ((text.dropWhile (· = 0x0D)).reverse.dropWhile (· = 0x0D)).reverse

/-- `MAX_LINE_BYTES`. -/
def maxLineBytes : Nat := 256 * 1024 * 1024

def isNewline (b : UInt8) : Bool := b = 0x0A

structure LineReader where
  /-- The chunks of the line still being read. -/
  parts : List Bytes := []
  length : Nat := 0
  length_eq : length = parts.flatten.length := by rfl

namespace LineReader

/-- The bytes of the line still being read. -/
def held (reader : LineReader) : Bytes := reader.parts.flatten

/-- `#add`: `none` where it throws a `LineTooLongError`. -/
def add (limit : Nat) (reader : LineReader) (part : Bytes) : Option LineReader :=
  if reader.length + part.length > limit then none
  else
    some
      { parts := if part.length > 0 then reader.parts ++ [part] else reader.parts
        length := reader.length + part.length
        length_eq := by
          rw [reader.length_eq]
          split
          · simp
          · rename_i h
            simp [List.eq_nil_of_length_eq_zero (Nat.eq_zero_of_not_pos h)] }

/-- The loop of `push`, over what the newlines of a chunk end and what is after them:
the lines completed, or `none` where it throws, which leaves the reader empty. -/
def pushPieces (limit : Nat) (decode : Bytes → Str) (reader : LineReader) :
    List Bytes → Bytes → LineReader × Option (List Str)
  | [], rest =>
    match reader.add limit rest with
    | none => ({}, none)
    | some reader => (reader, some [])
  | part :: parts, rest =>
    match reader.add limit part with
    | none => ({}, none)
    | some reader =>
      let pushed := pushPieces limit decode {} parts rest
      (pushed.1, pushed.2.map (trimCarriageReturns (decode reader.held) :: ·))

def push (limit : Nat) (decode : Bytes → Str) (reader : LineReader) (chunk : Bytes) :
    LineReader × Option (List Str) :=
  reader.pushPieces limit decode (pieces isNewline chunk).1 (pieces isNewline chunk).2

end LineReader

structure StreamTransport where
  reader : LineReader := {}
  /-- How many of the two banner lines are still to come. -/
  banner : Nat := 2
  bytesReceived : Nat := 0
  ended : Bool := false
  /-- The limit of the `LineTooLongError` it ended with. -/
  error : Option Nat := none
  /-- What `onLine` was given. -/
  delivered : List Str := []

namespace StreamTransport

/-- A line is passed on, unless it is one of the banner. -/
def deliver (s : StreamTransport) (line : Str) : StreamTransport :=
  if s.banner > 0 then { s with banner := s.banner - 1 }
  else { s with delivered := s.delivered ++ [line] }

/-- `#handleData`. -/
def handleData (limit : Nat) (decode : Bytes → Str) (s : StreamTransport) (chunk : Bytes) :
    StreamTransport :=
  if s.ended then s
  else
    let pushed := s.reader.push limit decode chunk
    let s := { s with bytesReceived := s.bytesReceived + chunk.length, reader := pushed.1 }
    match pushed.2 with
    | none => { s with error := some limit, ended := true }
    | some lines => lines.foldl deliver s

/-- The chunks of a stream, one after another. -/
def handleChunks (limit : Nat) (decode : Bytes → Str) (chunks : List Bytes) : StreamTransport :=
  chunks.foldl (handleData limit decode) {}

end StreamTransport

/-! ### The lines of the whole stream -/

/-- Some line is longer than the limit, one that has not ended included. -/
def Overlong (limit : Nat) (data : Bytes) : Prop :=
  ∃ line ∈ (pieces isNewline data).1 ++ [(pieces isNewline data).2], limit < line.length

instance (limit : Nat) (data : Bytes) : Decidable (Overlong limit data) :=
  inferInstanceAs (Decidable (∃ line ∈ (pieces isNewline data).1 ++ [(pieces isNewline data).2],
    limit < line.length))

/-- The lines that end before one that is too long. -/
def linesBefore (limit : Nat) (data : Bytes) : List Bytes :=
  (pieces isNewline data).1.takeWhile fun line => line.length ≤ limit

/-- What is to be passed on of a stream, however it is divided. -/
def linesOf (limit : Nat) (decode : Bytes → Str) (data : Bytes) : List Str :=
  ((linesBefore limit data).map fun line => trimCarriageReturns (decode line)).drop 2

/-- In the chunk that takes a line past the limit another line ends, which is no line of the
banner. -/
def Swallows (limit : Nat) (chunks : List Bytes) : Prop :=
  ∃ before chunk after, chunks = before ++ chunk :: after ∧ ¬Overlong limit before.flatten ∧
    Overlong limit (before ++ [chunk]).flatten ∧
    max 2 (pieces isNewline before.flatten).1.length <
      (linesBefore limit (before ++ [chunk]).flatten).length

end Teamspeak.Query
