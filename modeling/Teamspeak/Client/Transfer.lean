import Mathlib.Data.List.Infix
import Teamspeak.Basic
import Teamspeak.Core.Text
import Teamspeak.Lib.Transform

/-!
# The bytes of a file transfer

`transfer.ts` and `files.ts`: the filters between a file and its connection.  `skipBytes` drops
what the server holds already, `exactSize` passes on the bytes that were agreed on.

* `run_skipBytes`, `run_exactSize`: what each filter passes on.
* `transfer_sized`: together they pass on the expected bytes after the skipped ones, however the
  stream is divided, and fail when there are fewer or more.
-/

namespace Teamspeak.Client

/-- Who fixed the size. -/
inductive SizeSource
  | announced
  | declared
  deriving DecidableEq, Repr

def SizeSource.text : SizeSource → Str
  | .announced => .of "announced"
  | .declared => .of "declared"

/-- `FileTransferError`, by its message. -/
structure FileTransferError where
  message : Str
  deriving DecidableEq

def sentMore (what : SizeSource) (expected : Nat) : FileTransferError :=
  ⟨.of "file transfer sent more than the " ++ what.text ++ .of " " ++ .ofNat expected ++
    .of " bytes"⟩

def endedAfter (what : SizeSource) (expected received : Nat) : FileTransferError :=
  ⟨.of "file transfer ended after " ++ .ofNat received ++ .of " of the " ++ what.text ++ .of " " ++
    .ofNat expected ++ .of " bytes"⟩

/-- Passes exactly `expected` bytes; the state is how many came so far. -/
def exactSize (expected : Nat) (what : SizeSource) : Transform Nat UInt8 FileTransferError where
  transform received chunk :=
    let room := expected - received
    if chunk.length > room then
      { state := expected, pushed := [chunk.take room], error := some (sentMore what expected) }
    else { state := received + chunk.length, pushed := [chunk] }
  flush received := if received = expected then none else some (endedAfter what expected received)

/-- Drops the first bytes of a stream; the state is how many are left to drop. -/
def skipBytes : Transform Nat UInt8 FileTransferError where
  transform left chunk :=
    if left ≥ chunk.length then { state := left - chunk.length }
    else { state := 0, pushed := [chunk.drop left] }

/-- How many bytes a negotiated transfer moves; a position of the wire is not negative. -/
def bytesToMove (size seekPosition : Nat) : Except FileTransferError Nat :=
  if seekPosition > size then
    .error ⟨.of "the transfer starts at " ++ .ofNat seekPosition ++ .of ", outside a file of " ++
      .ofNat size ++ .of " bytes"⟩
  else .ok (size - seekPosition)

/-- The data phase of `uploadFileData` and `downloadFileData`: what reaches the other side of
the filter, and how the transfer fails if it does. -/
def moveExactly (expected : Nat) (what : SizeSource) (chunks : List Bytes) :
    List Bytes × Option FileTransferError :=
  (exactSize expected what).run 0 chunks

/-- The same of a stream whose first `skip` bytes the other side holds already. -/
def moveAfter (skip expected : Nat) (what : SizeSource) (chunks : List Bytes) :
    List Bytes × Option FileTransferError :=
  if skip = 0 then moveExactly expected what chunks
  else (skipBytes.pipe (exactSize expected what)).run (skip, 0) chunks

def downloadFileData (size seekPosition : Nat) (chunks : List Bytes) :
    List Bytes × Option FileTransferError :=
  match bytesToMove size seekPosition with
  | .error e => ([], some e)
  | .ok expected => moveExactly expected .announced chunks

/-- `uploadFile` and `uploadFileData`, of a stream that gives the whole file. -/
def uploadFile (size seekPosition : Nat) (chunks : List Bytes) :
    List Bytes × Option FileTransferError :=
  match bytesToMove size seekPosition with
  | .error e => ([], some e)
  | .ok expected => moveAfter seekPosition expected .declared chunks

/-- What has reached the other side when some chunks of the stream have come. -/
def movedSoFar (skip expected : Nat) (what : SizeSource) (chunks : List Bytes) : List Bytes :=
  if skip = 0 then ((exactSize expected what).feed 0 chunks).pushed
  else ((skipBytes.pipe (exactSize expected what)).feed (skip, 0) chunks).pushed

/-! ### The filters -/

theorem run_skipBytes (left : Nat) (chunks : List Bytes) :
    (skipBytes.run left chunks).1.flatten = chunks.flatten.drop left := by
  induction chunks generalizing left with
  | nil => rw [List.flatten_nil, List.drop_nil, Transform.run, List.flatten_nil]
  | cons chunk chunks ih =>
    rw [Transform.run, skipBytes, List.flatten_cons, List.drop_append]
    dsimp only
    by_cases hle : left ≥ chunk.length
    · rw [if_pos hle, List.drop_eq_nil_of_le hle]
      exact ih _
    · rw [if_neg hle, Nat.sub_eq_zero_of_le (Nat.le_of_not_le hle)]
      exact congrArg (chunk.drop left ++ ·) (ih 0)

/-- What the filter for the size does with the rest of a stream. -/
theorem run_exactSize {expected : Nat} (what : SizeSource) {received : Nat}
    (h : received ≤ expected) (chunks : List Bytes) :
    (((exactSize expected what).run received chunks).1.flatten =
        chunks.flatten.take (expected - received)) ∧
      ((exactSize expected what).run received chunks).2 =
        if received + chunks.flatten.length = expected then none
        else if expected < received + chunks.flatten.length then some (sentMore what expected)
        else some (endedAfter what expected (received + chunks.flatten.length)) := by
  induction chunks generalizing received with
  | nil =>
    refine ⟨by rw [List.flatten_nil, List.take_nil, Transform.run, List.flatten_nil], ?_⟩
    rw [List.flatten_nil, List.length_nil, Nat.add_zero, if_neg (Nat.not_lt.mpr h)]
    rfl
  | cons chunk chunks ih =>
    rw [Transform.run, exactSize, List.flatten_cons, List.take_append, List.length_append]
    dsimp only
    by_cases hmore : chunk.length > expected - received
    · rw [if_pos hmore]
      refine ⟨?_, ?_⟩
      · rw [Nat.sub_eq_zero_of_le (Nat.le_of_lt hmore), List.take_zero, List.append_nil]
        exact List.append_nil _
      · rw [if_neg (by omega), if_pos (by omega)]
    · rw [if_neg hmore]
      have hle : received + chunk.length ≤ expected := by omega
      obtain ⟨hpassed, hresult⟩ := ih hle
      refine ⟨?_, ?_⟩
      · rw [List.take_of_length_le (Nat.le_of_not_lt hmore), Nat.sub_sub]
        exact congrArg (chunk ++ ·) hpassed
      · rw [← Nat.add_assoc]
        exact hresult

/-- Whether or not there is something to skip, the size is that of what is not skipped. -/
theorem moveAfter_eq (skip expected : Nat) (what : SizeSource) (chunks : List Bytes) :
    moveAfter skip expected what chunks =
      moveExactly expected what (if skip = 0 then chunks else (skipBytes.run skip chunks).1) := by
  rw [moveAfter]
  split
  · rfl
  · refine Transform.run_pipe (fun left chunk => ?_) (fun _ => rfl) _ _ _ _
    rw [skipBytes]
    dsimp only
    split
    · rfl
    · rfl

theorem flatten_skipped (skip : Nat) (chunks : List Bytes) :
    (if skip = 0 then chunks else (skipBytes.run skip chunks).1).flatten =
      chunks.flatten.drop skip := by
  split
  · rename_i hzero
    rw [hzero, List.drop_zero]
  · exact run_skipBytes skip chunks

theorem flatten_moveAfter (skip expected : Nat) (what : SizeSource) (chunks : List Bytes) :
    (moveAfter skip expected what chunks).1.flatten =
      (chunks.flatten.drop skip).take expected := by
  rw [moveAfter_eq, moveExactly, (run_exactSize what (Nat.zero_le expected) _).1, flatten_skipped,
    Nat.sub_zero]

theorem moveAfter_eq_none_iff (skip expected : Nat) (what : SizeSource) (chunks : List Bytes) :
    (moveAfter skip expected what chunks).2 = none ↔
      (chunks.flatten.drop skip).length = expected := by
  rw [moveAfter_eq, moveExactly, (run_exactSize what (Nat.zero_le expected) _).2, flatten_skipped,
    Nat.zero_add]
  split
  · rename_i heq
    exact iff_of_true rfl heq
  · rename_i hne
    refine iff_of_false ?_ hne
    split <;> exact Option.some_ne_none _

theorem movedSoFar_isPrefix (skip expected : Nat) (what : SizeSource) (chunks rest : List Bytes) :
    movedSoFar skip expected what chunks <+: (moveAfter skip expected what (chunks ++ rest)).1 := by
  rw [movedSoFar, moveAfter]
  split
  · exact Transform.pushed_feed_isPrefix _ _ _ _
  · exact Transform.pushed_feed_isPrefix _ _ _ _

/-- **The size of a transfer**: for every division of a stream into chunks, what is passed on
are the expected bytes after the skipped ones, the transfer succeeds just when the stream ends
with them, and at no time were other bytes passed on. -/
theorem transfer_sized (skip expected : Nat) (what : SizeSource) (chunks : List Bytes) :
    (moveAfter skip expected what chunks).1.flatten = (chunks.flatten.drop skip).take expected ∧
      ((moveAfter skip expected what chunks).2 = none ↔
        (chunks.flatten.drop skip).length = expected) ∧
      ∀ first rest, chunks = first ++ rest →
        (movedSoFar skip expected what first).flatten <+:
          (chunks.flatten.drop skip).take expected := by
  have hpassed := flatten_moveAfter skip expected what chunks
  refine ⟨hpassed, moveAfter_eq_none_iff skip expected what chunks, ?_⟩
  rintro first rest rfl
  rw [← hpassed]
  exact (movedSoFar_isPrefix skip expected what first rest).flatten

/-- An upload sends the file from where the server has it to, and fails unless the stream gives
the size that was declared. -/
theorem uploadFile_resumed {size seekPosition : Nat} (h : seekPosition ≤ size)
    (chunks : List Bytes) :
    (chunks.flatten.length = size →
        (uploadFile size seekPosition chunks).1.flatten = chunks.flatten.drop seekPosition) ∧
      ((uploadFile size seekPosition chunks).2 = none ↔
        chunks.flatten.length - seekPosition = size - seekPosition) := by
  rw [uploadFile, bytesToMove, if_neg (Nat.not_lt.mpr h)]
  refine ⟨fun hlength => ?_, ?_⟩
  · rw [flatten_moveAfter, List.take_of_length_le]
    rw [List.length_drop, hlength]
  · rw [moveAfter_eq_none_iff, List.length_drop]

end Teamspeak.Client
