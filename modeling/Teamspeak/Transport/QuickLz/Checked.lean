import Teamspeak.Transport.QuickLz

/-!
# The QuickLZ decoder with every access checked

The decoder again, over memory that can fault.  The source is read through
`readByte`, which faults outside it; the output is a list of cells, `none` until
written, and a copy from an unwritten cell faults, as does a write past the end;
so does a loop that is out of turns, and a result with a cell nothing was written
to.  Only the table of positions, which hashes bytes ahead of the writer, reads a
cell without a check.

* `Sound`: the cells before `destPos` are written, and so many bytes are read.
* `Agrees r m`: the checked result `r` is the decoder's own result `m`, and no fault.
* `decodeLoop_agrees`: the loops agree as long as there are more turns than bytes
  left to read.
* `decompress_checked`: **the checked decoder is the decoder**: nothing faults, and
  what comes out has the declared size.
-/

namespace Teamspeak.Transport

/-- What stops the checked decoder: an error of the decoder itself, or an access
it should not have made. -/
inductive QlzFault
  | refused (error : QuickLZError)
  /-- a read outside the input -/
  | outside (pos : Nat)
  /-- a copy from a position not written yet -/
  | unwritten (pos : Nat)
  /-- a write outside the output -/
  | beyond (pos : Nat)
  /-- a loop that goes on -/
  | endless
  deriving DecidableEq

/-- The decoder's state with the output as cells, `none` where nothing is written. -/
structure CheckedState where
  control : Nat
  sourcePos : Nat
  destPos : Nat
  nextHashed : Nat
  dest : List (Option UInt8)
  hashtable : Nat → Nat

def readByte (data : Bytes) (pos : Nat) : Except QlzFault UInt8 :=
  match data[pos]? with
  | some b => .ok b
  | none => .error (.outside pos)

def checkedUint32LE (data : Bytes) (pos : Nat) : Except QlzFault Nat := do
  let b0 ← readByte data pos
  let b1 ← readByte data (pos + 1)
  let b2 ← readByte data (pos + 2)
  let b3 ← readByte data (pos + 3)
  .ok (b0.toNat + b1.toNat * 256 + b2.toNat * 65536 + b3.toNat * 16777216)

/-- `n` bytes from `pos` on, each of them read. -/
def readBytes (data : Bytes) (pos : Nat) : Nat → Except QlzFault Bytes
  | 0 => .ok []
  | n + 1 => do
    let b ← readByte data pos
    let bs ← readBytes data (pos + 1) n
    .ok (b :: bs)

namespace QlzState

/-- The copy of a match from where the table has `hash`. -/
def copyReference (st : QlzState) (hash matchlen : Nat) : Except QuickLZError QlzState :=
  if st.hashtable hash ≥ st.destPos then .error .referenceAhead
  else if st.destPos + matchlen > st.dest.length then .error .referenceOverruns
  else
    let st := st.copyMatch (st.hashtable hash) matchlen
    let st := st.updateHashtable (st.destPos + 1 - matchlen - st.nextHashed)
    .ok { st with nextHashed := st.destPos }

theorem processReference_eq (data : Bytes) (st : QlzState) :
    processReference data st =
      if st.sourcePos + 2 > data.length then .error .endsEarly
      else
        let b1 := (data.getD st.sourcePos 0).toNat
        let hash := (b1 / 16) ||| ((data.getD (st.sourcePos + 1) 0).toNat * 16)
        if b1 % 16 ≠ 0 then
          copyReference { st with control := st.control / 2, sourcePos := st.sourcePos + 2 } hash
            (b1 % 16 + 2)
        else if st.sourcePos + 2 ≥ data.length then .error .endsEarly
        else
          copyReference { st with control := st.control / 2, sourcePos := st.sourcePos + 2 + 1 } hash
            (data.getD (st.sourcePos + 2) 0).toNat := by
  rw [processReference]
  by_cases hshort : (data.getD st.sourcePos 0).toNat % 16 = 0
  · simp only [hshort, ne_eq, not_true_eq_false, if_false, true_and]
    rfl
  · simp only [hshort, ne_eq, not_false_eq_true, if_true, false_and, if_false]
    rfl

end QlzState

namespace CheckedState

/-- The output as the decoder's array holds it, zero where nothing is written. -/
def bytes (dest : List (Option UInt8)) : Bytes := dest.map (·.getD 0)

/-- The decoder's own state. -/
def erase (st : CheckedState) : QlzState where
  control := st.control
  sourcePos := st.sourcePos
  destPos := st.destPos
  nextHashed := st.nextHashed
  dest := bytes st.dest
  hashtable := st.hashtable

/-- Write one byte at `destPos`. -/
def put (st : CheckedState) (b : UInt8) : Except QlzFault CheckedState :=
  if st.destPos < st.dest.length then
    .ok { st with dest := st.dest.set st.destPos (some b), destPos := st.destPos + 1 }
  else .error (.beyond st.destPos)

def ensureControl (data : Bytes) (st : CheckedState) : Except QlzFault CheckedState :=
  if st.control ≠ 1 then .ok st
  else if st.sourcePos + 4 > data.length then .error (.refused .endsEarly)
  else do
    let control ← checkedUint32LE data st.sourcePos
    .ok { st with control, sourcePos := st.sourcePos + 4 }

def updateHashtable (st : CheckedState) : Nat → CheckedState
  | 0 => st
  | n + 1 =>
    if st.nextHashed + 3 > st.dest.length then st
    else
      updateHashtable
        { st with
          hashtable := Function.update st.hashtable
            (QlzState.hashAt (bytes st.dest) st.nextHashed) st.nextHashed
          nextHashed := st.nextHashed + 1 } n

def copyMatch (st : CheckedState) (start : Nat) : Nat → Except QlzFault CheckedState
  | 0 => .ok st
  | n + 1 =>
    match st.dest[start]? with
    | some (some b) => do
      let st ← st.put b
      copyMatch st (start + 1) n
    | _ => .error (.unwritten start)

/-- The copy of a match from where the table has `hash`. -/
def copyReference (st : CheckedState) (hash matchlen : Nat) : Except QlzFault CheckedState :=
  let offset := st.hashtable hash
  if offset ≥ st.destPos then .error (.refused .referenceAhead)
  else if st.destPos + matchlen > st.dest.length then .error (.refused .referenceOverruns)
  else do
    let st ← st.copyMatch offset matchlen
    let stop := st.destPos + 1 - matchlen
    let st := st.updateHashtable (stop - st.nextHashed)
    .ok { st with nextHashed := st.destPos }

def processReference (data : Bytes) (st : CheckedState) : Except QlzFault CheckedState :=
  let st := { st with control := st.control / 2 }
  if st.sourcePos + 2 > data.length then .error (.refused .endsEarly)
  else do
    let b1 ← readByte data st.sourcePos
    let b2 ← readByte data (st.sourcePos + 1)
    let st := { st with sourcePos := st.sourcePos + 2 }
    let hash := (b1.toNat / 16) ||| (b2.toNat * 16)
    let short := b1.toNat % 16
    if short ≠ 0 then st.copyReference hash (short + 2)
    else if st.sourcePos ≥ data.length then .error (.refused .endsEarly)
    else do
      let b ← readByte data st.sourcePos
      let st := { st with sourcePos := st.sourcePos + 1 }
      st.copyReference hash b.toNat

def copyLiteral (data : Bytes) (st : CheckedState) : Except QlzFault CheckedState := do
  let b ← readByte data st.sourcePos
  let st ← st.put b
  .ok { st with sourcePos := st.sourcePos + 1, control := st.control / 2 }

def copyTail (data : Bytes) (st : CheckedState) : Nat → Except QlzFault CheckedState
  | 0 => .ok st
  | n + 1 => do
    let st ← ensureControl data st
    if st.sourcePos ≥ data.length then .error (.refused .endsEarly)
    else do
      let st ← copyLiteral data st
      copyTail data st n

def processLiteral (data : Bytes) (decompressedSize : Nat) (st : CheckedState) :
    Except QlzFault (CheckedState × Bool) :=
  let threshold := max decompressedSize 10 - 10
  if st.destPos ≥ threshold then do
    let st ← copyTail data st (decompressedSize - st.destPos)
    .ok (st, true)
  else if st.sourcePos ≥ data.length then .error (.refused .endsEarly)
  else do
    let st ← copyLiteral data st
    let stop := max (st.destPos - 2) 0
    let st := st.updateHashtable (stop - st.nextHashed)
    .ok (if st.nextHashed < stop then { st with nextHashed := stop } else st, false)

def decodeLoop (data : Bytes) (decompressedSize : Nat) :
    Nat → CheckedState → Except QlzFault CheckedState
  | 0, st => if st.destPos < decompressedSize then .error .endless else .ok st
  | fuel + 1, st =>
    if st.destPos < decompressedSize then do
      let st ← ensureControl data st
      if st.control % 2 ≠ 0 then
        let st ← processReference data st
        decodeLoop data decompressedSize fuel st
      else
        let (st, done) ← processLiteral data decompressedSize st
        if done then .ok st else decodeLoop data decompressedSize fuel st
    else .ok st

end CheckedState

/-- The declared size: four bytes in a long header, one in a short. -/
def checkedSize (data : Bytes) (long : Bool) : Except QlzFault Nat :=
  if long then checkedUint32LE data 5
  else do
    let b ← readByte data 2
    .ok b.toNat

/-- The header, with the bytes it reads checked. -/
def checkedHeader (data : Bytes) : Except QlzFault QlzHeader :=
  if data.length < 3 then .error (.refused .dataTooShort)
  else do
    let flags ← readByte data 0
    let level := (flags >>> 2) &&& 0x03
    if level ≠ 1 then .error (.refused .unsupportedLevel)
    else
      let long := flags &&& 0x02 ≠ 0
      let headerLen := if long then 9 else 3
      if data.length < headerLen then .error (.refused .dataTooShortForHeader)
      else do
        let decompressedSize ← checkedSize data long
        if decompressedSize > maxDecompressedSize then
          .error (.refused (.exceeds decompressedSize))
        else .ok { headerLen, decompressedSize, flags }

/-- The output once every cell of it is written. -/
def allWritten (pos : Nat) : List (Option UInt8) → Except QlzFault Bytes
  | [] => .ok []
  | some b :: cells => do
    let bs ← allWritten (pos + 1) cells
    .ok (b :: bs)
  | none :: _ => .error (.unwritten pos)

/-- `Qlz.decompress` over checked memory. -/
def decompressChecked (data : Bytes) : Except QlzFault Bytes := do
  let { headerLen, decompressedSize, flags } ← checkedHeader data
  if flags &&& 0x01 = 0 then
    if headerLen + decompressedSize > data.length then .error (.refused .storedShort)
    else readBytes data headerLen decompressedSize
  else if decompressedSize > (data.length - headerLen) * maxExpansion then
    .error (.refused (.cannotExpand decompressedSize (data.length - headerLen)))
  else do
    let st ← CheckedState.decodeLoop data decompressedSize (data.length + 1)
      { control := 1, sourcePos := headerLen, destPos := 0, nextHashed := 0
        dest := List.replicate decompressedSize none, hashtable := fun _ => 0 }
    if st.destPos ≠ decompressedSize then .error (.refused .endsEarly)
    else allWritten 0 st.dest

/-! ### Agreement -/

/-- The checked result is the decoder's own, up to `R`, and not a fault. -/
def Agrees {α β : Type} (R : α → β → Prop) : Except QlzFault α → Except QuickLZError β → Prop
  | .ok a, .ok b => R a b
  | .error (.refused e), .error e' => e = e'
  | _, _ => False

theorem Agrees.bind {α β γ δ : Type} {R : α → β → Prop} {S : γ → δ → Prop}
    {x : Except QlzFault α} {y : Except QuickLZError β} {f : α → Except QlzFault γ}
    {g : β → Except QuickLZError δ} (h : Agrees R x y) (hfg : ∀ a b, R a b → Agrees S (f a) (g b)) :
    Agrees S (x >>= f) (y >>= g) := by
  cases x with
  | error fault =>
    cases fault <;> cases y
    case refused.error => exact h
    all_goals exact h.elim
  | ok a =>
    cases y with
    | error e => exact h.elim
    | ok b => exact hfg a b h

/-- Two tests of the same condition agree where their branches do. -/
theorem Agrees.ite {α β : Type} {R : α → β → Prop} {c d : Prop} [Decidable c] [Decidable d]
    {x x' : Except QlzFault α} {y y' : Except QuickLZError β} (hcd : c ↔ d)
    (hpos : c → Agrees R x y) (hneg : ¬c → Agrees R x' y') :
    Agrees R (if c then x else x') (if d then y else y') := by
  by_cases hc : c
  · rw [if_pos hc, if_pos (hcd.mp hc)]
    exact hpos hc
  · rw [if_neg hc, if_neg (fun hd => hc (hcd.mpr hd))]
    exact hneg hc

theorem Agrees.mono {α β : Type} {R S : α → β → Prop} {x : Except QlzFault α}
    {y : Except QuickLZError β} (h : Agrees R x y) (hRS : ∀ a b, R a b → S a b) : Agrees S x y := by
  cases x with
  | error fault => cases fault <;> cases y <;> exact h
  | ok a =>
    cases y with
    | error e => exact h.elim
    | ok b => exact hRS a b h

theorem Agrees.of_ok {α β : Type} {R : α → β → Prop} {x : Except QlzFault α} {b : β}
    (h : Agrees R x (.ok b)) : ∃ a, x = .ok a ∧ R a b := by
  cases x with
  | error fault => cases fault <;> exact h.elim
  | ok a => exact ⟨a, rfl, h⟩

/-- What agrees is what came out. -/
theorem Agrees.and_ok {α β : Type} {R : α → β → Prop} {x : Except QlzFault α}
    {y : Except QuickLZError β} (h : Agrees R x y) :
    Agrees (fun a b => R a b ∧ y = .ok b) x y := by
  cases x with
  | error fault => cases fault <;> cases y <;> exact h
  | ok a =>
    cases y with
    | error e => exact h.elim
    | ok b => exact ⟨h, rfl⟩

theorem Agrees.eq_mapError {α : Type} {x : Except QlzFault α} {y : Except QuickLZError α}
    (h : Agrees (· = ·) x y) : x = y.mapError .refused := by
  cases x with
  | error fault =>
    cases fault <;> cases y
    case refused.error => exact congrArg _ (congrArg _ h)
    all_goals exact h.elim
  | ok a =>
    cases y with
    | error e => exact h.elim
    | ok b => exact congrArg _ h

theorem readByte_of_lt {data : Bytes} {pos : Nat} (h : pos < data.length) :
    readByte data pos = .ok (data.getD pos 0) := by
  rw [readByte, List.getD_eq_getElem?_getD, List.getElem?_eq_getElem h]
  rfl

theorem checkedUint32LE_of_le {data : Bytes} {pos : Nat} (h : pos + 4 ≤ data.length) :
    checkedUint32LE data pos = .ok (readUint32LE data pos) := by
  rw [checkedUint32LE, readByte_of_lt (by omega), readByte_of_lt (by omega),
    readByte_of_lt (by omega), readByte_of_lt (by omega)]
  rfl

theorem readBytes_of_le {data : Bytes} : ∀ {pos n : Nat}, pos + n ≤ data.length →
    readBytes data pos n = .ok ((data.drop pos).take n)
  | _, 0, _ => by rw [List.take_zero]; rfl
  | pos, n + 1, h => by
    have hpos : pos < data.length := by omega
    rw [readBytes, readByte_of_lt hpos, readBytes_of_le (by omega),
      List.drop_eq_getElem_cons hpos, List.take_succ_cons, List.getD_eq_getElem?_getD,
      List.getElem?_eq_getElem hpos]
    rfl

namespace CheckedState

variable {data : Bytes} {size k : Nat}

theorem getD_bytes (dest : List (Option UInt8)) (pos : Nat) :
    (bytes dest).getD pos 0 = (dest.getD pos none).getD 0 := by
  rw [bytes, List.getD_eq_getElem?_getD, List.getElem?_map, List.getD_eq_getElem?_getD]
  cases dest[pos]? <;> rfl

@[simp] theorem length_bytes (dest : List (Option UInt8)) : (bytes dest).length = dest.length :=
  List.length_map ..

/-- What every turn keeps: the cells before `destPos` are written, and at least
`k` bytes of the source are behind `sourcePos`. -/
structure Sound (data : Bytes) (size k : Nat) (st : CheckedState) : Prop where
  length_eq : st.dest.length = size
  filled : ∀ i < st.destPos, ∃ b, st.dest[i]? = some (some b)
  read_le : st.sourcePos ≤ data.length
  le_read : k ≤ st.sourcePos

/-- The state the decoder is in where the checked one is in `ck`. -/
def Erases (data : Bytes) (size k : Nat) (ck : CheckedState) (st : QlzState) : Prop :=
  ck.erase = st ∧ Sound data size k ck

/-! ### One turn -/

theorem ensureControl_agrees {st : CheckedState} (h : Sound data size k st) :
    Agrees (fun ck s => Erases data size k ck s ∧ ck.destPos = st.destPos)
      (ensureControl data st) (QlzState.ensureControl data st.erase) := by
  refine .ite Iff.rfl (fun _ => ⟨⟨rfl, h⟩, rfl⟩) fun _ => .ite Iff.rfl (fun _ => rfl) fun hlen => ?_
  rw [checkedUint32LE_of_le (by omega)]
  have := h.le_read
  exact ⟨⟨rfl, ⟨h.length_eq, h.filled, by simp only; omega, by simp only; omega⟩⟩, rfl⟩

theorem put_of_lt {st : CheckedState} (b : UInt8) (h : Sound data size k st)
    (hlt : st.destPos < size) : ∃ ck, st.put b = .ok ck ∧ Sound data size k ck ∧
      ck.sourcePos = st.sourcePos ∧ ck.control = st.control ∧ ck.destPos = st.destPos + 1 ∧
      ck.erase = { st.erase with
        dest := (bytes st.dest).set st.destPos b, destPos := st.destPos + 1 } := by
  refine ⟨{ st with dest := st.dest.set st.destPos (some b), destPos := st.destPos + 1 },
    if_pos (by rw [h.length_eq]; exact hlt), ⟨?_, ?_, h.read_le, h.le_read⟩, rfl, rfl, rfl, ?_⟩
  · rw [List.length_set, h.length_eq]
  · intro i hi
    by_cases heq : i = st.destPos
    · exact ⟨b, by rw [heq, List.getElem?_set_self (by rw [h.length_eq]; exact hlt)]⟩
    · rw [List.getElem?_set_ne (Ne.symm heq)]
      exact h.filled i (by simp only at hi; omega)
  · simp only [erase, bytes, List.map_set, Option.getD_some]

theorem copyLiteral_of_lt {st : CheckedState} (h : Sound data size k st) (hlt : st.destPos < size)
    (hread : st.sourcePos < data.length) : ∃ ck, copyLiteral data st = .ok ck ∧
      Sound data size (k + 1) ck ∧ ck.destPos = st.destPos + 1 ∧
      ck.erase = QlzState.copyLiteral data st.erase := by
  obtain ⟨ck, hput, hs, hpos, hcontrol, hdest, herase⟩ := put_of_lt (data.getD st.sourcePos 0) h hlt
  refine ⟨{ ck with sourcePos := ck.sourcePos + 1, control := ck.control / 2 }, ?_, ?_, hdest, ?_⟩
  · rw [copyLiteral, readByte_of_lt hread]
    simp only [bind, Except.bind, hput]
  · have := hs.le_read
    exact ⟨hs.length_eq, hs.filled, by simp only; omega, by simp only; omega⟩
  · have hdestEq := congrArg QlzState.dest herase
    have hnext := congrArg QlzState.nextHashed herase
    have htable := congrArg QlzState.hashtable herase
    simp only [erase] at hdestEq hnext htable
    simp only [erase, QlzState.copyLiteral, hpos, hcontrol, hdest, hdestEq, hnext, htable]

theorem copyMatch_of_le (n start : Nat) {st : CheckedState} (h : Sound data size k st)
    (hstart : start < st.destPos) (hle : st.destPos + n ≤ size) :
    ∃ ck, st.copyMatch start n = .ok ck ∧ Sound data size k ck ∧
      ck.erase = st.erase.copyMatch start n := by
  induction n generalizing start st with
  | zero => exact ⟨st, rfl, h, rfl⟩
  | succ n ih =>
    obtain ⟨b, hb⟩ := h.filled start hstart
    obtain ⟨ck, hput, hs, -, -, hdest, herase⟩ := put_of_lt b h (by omega)
    obtain ⟨ck', hcopy, hs', herase'⟩ := ih (start + 1) hs (by omega) (by omega)
    refine ⟨ck', ?_, hs', ?_⟩
    · rw [copyMatch, hb]
      simp only [hput]
      exact hcopy
    · have hget : st.erase.dest.getD start 0 = b := by
        rw [erase, getD_bytes, List.getD_eq_getElem?_getD, hb]
        rfl
      rw [herase', herase, QlzState.copyMatch, hget]
      rfl

theorem updateHashtable_erase : ∀ (n : Nat) (st : CheckedState),
    (st.updateHashtable n).erase = st.erase.updateHashtable n ∧
      (st.updateHashtable n).sourcePos = st.sourcePos ∧
      (st.updateHashtable n).destPos = st.destPos ∧ (st.updateHashtable n).dest = st.dest
  | 0, _ => ⟨rfl, rfl, rfl, rfl⟩
  | n + 1, st => by
    rw [updateHashtable, QlzState.updateHashtable]
    by_cases hshort : st.nextHashed + 3 > st.dest.length
    · rw [if_pos hshort,
        if_pos (by simpa only [erase, length_bytes] using hshort)]
      exact ⟨rfl, rfl, rfl, rfl⟩
    · rw [if_neg hshort,
        if_neg (by simpa only [erase, length_bytes] using hshort)]
      exact updateHashtable_erase n _

theorem Sound.updateHashtable {st : CheckedState} (h : Sound data size k st) (n : Nat) :
    Sound data size k (st.updateHashtable n) := by
  obtain ⟨-, hsource, hpos, hdest⟩ := updateHashtable_erase n st
  exact ⟨by rw [hdest, h.length_eq], by rw [hdest, hpos]; exact h.filled,
    by rw [hsource]; exact h.read_le, by rw [hsource]; exact h.le_read⟩

theorem copyReference_agrees (st : CheckedState) (h : Sound data size k st) (hash matchlen : Nat) :
    Agrees (Erases data size k) (st.copyReference hash matchlen)
      (st.erase.copyReference hash matchlen) := by
  have hlen : st.erase.dest.length = st.dest.length := length_bytes st.dest
  refine .ite Iff.rfl (fun _ => rfl) fun hahead => .ite ?_ (fun _ => rfl) fun hover => ?_
  · rw [hlen]
    exact Iff.rfl
  rw [h.length_eq] at hover
  obtain ⟨ck, hcopy, hs, herase⟩ :=
    copyMatch_of_le matchlen (st.hashtable hash) h (by omega) (by omega)
  rw [hcopy]
  set n := ck.destPos + 1 - matchlen - ck.nextHashed
  obtain ⟨hupdate, -, hpos, -⟩ := updateHashtable_erase n ck
  have hs' := hs.updateHashtable n
  refine ⟨?_, ⟨hs'.length_eq, hs'.filled, hs'.read_le, hs'.le_read⟩⟩
  have hcopied : st.erase.copyMatch (st.erase.hashtable hash) matchlen = ck.erase := herase.symm
  simp only [hcopied]
  have hn : ck.erase.destPos + 1 - matchlen - ck.erase.nextHashed = n := rfl
  rw [hn, ← hupdate]
  rfl

theorem processReference_agrees {st : CheckedState} (h : Sound data size k st) :
    Agrees (Erases data size (k + 1)) (processReference data st)
      (QlzState.processReference data st.erase) := by
  have hread := h.le_read
  rw [QlzState.processReference_eq]
  refine .ite Iff.rfl (fun _ => rfl) fun hlen => ?_
  dsimp only at hlen ⊢
  rw [readByte_of_lt (by omega), readByte_of_lt (by omega)]
  refine .ite Iff.rfl (fun _ => ?_) fun _ => .ite Iff.rfl (fun _ => rfl) fun hend => ?_
  · exact copyReference_agrees
      { st with control := st.control / 2, sourcePos := st.sourcePos + 2 }
      ⟨h.length_eq, h.filled, by simp only; omega, by simp only; omega⟩ _ _
  · rw [readByte_of_lt (by omega)]
    exact copyReference_agrees
      { st with control := st.control / 2, sourcePos := st.sourcePos + 2 + 1 }
      ⟨h.length_eq, h.filled, by simp only; omega, by simp only; omega⟩ _ _

theorem copyTail_agrees : ∀ {n : Nat} {st : CheckedState}, Sound data size k st →
    st.destPos + n ≤ size → Agrees (Erases data size k) (copyTail data st n)
      (QlzState.copyTail data st.erase n)
  | 0, st, h, _ => ⟨rfl, h⟩
  | n + 1, st, h, hle => by
    rw [copyTail, QlzState.copyTail]
    refine (ensureControl_agrees h).bind fun ck s hck => ?_
    obtain ⟨⟨rfl, hs⟩, hdest⟩ := hck
    refine .ite Iff.rfl (fun _ => rfl) fun hend => ?_
    obtain ⟨ck', hcopy, hs', hdest', herase'⟩ := copyLiteral_of_lt hs (by omega) (by omega)
    rw [hcopy, ← herase']
    exact copyTail_agrees ⟨hs'.length_eq, hs'.filled, hs'.read_le, Nat.le_of_succ_le hs'.le_read⟩
      (by omega)

theorem processLiteral_agrees {st : CheckedState} (h : Sound data size k st)
    (hlt : st.destPos < size) :
    Agrees (fun a b => a.2 = b.2 ∧ Erases data size (if a.2 then k else k + 1) a.1 b.1)
      (processLiteral data size st) (QlzState.processLiteral data size st.erase) := by
  refine .ite Iff.rfl (fun _ => ?_) fun _ => .ite Iff.rfl (fun _ => rfl) fun hend => ?_
  · have htail : st.destPos + (size - st.destPos) ≤ size := by omega
    exact (copyTail_agrees h htail).bind fun ck s hck => ⟨rfl, hck⟩
  obtain ⟨ck, hcopy, hs, hdest, herase⟩ := copyLiteral_of_lt h hlt (by omega)
  rw [hcopy, ← herase]
  set stop := max (ck.destPos - 2) 0 with hstop
  obtain ⟨hupdate, -, -, -⟩ := updateHashtable_erase (stop - ck.nextHashed) ck
  have hs' := hs.updateHashtable (stop - ck.nextHashed)
  have hstop' : max (ck.erase.destPos - 2) 0 - ck.erase.nextHashed = stop - ck.nextHashed := rfl
  refine ⟨rfl, ?_, ?_⟩
  · simp only [hstop', ← hupdate]
    by_cases hnext : (ck.updateHashtable (stop - ck.nextHashed)).nextHashed < stop
    · rw [if_pos hnext, if_pos (show (erase _).nextHashed < max (ck.erase.destPos - 2) 0 from hnext)]
      rfl
    · rw [if_neg hnext, if_neg (show ¬(erase _).nextHashed < max (ck.erase.destPos - 2) 0 from hnext)]
  · simp only [Bool.false_eq_true, if_false]
    by_cases hnext : (ck.updateHashtable (stop - ck.nextHashed)).nextHashed < stop
    · rw [if_pos hnext]
      exact ⟨hs'.length_eq, hs'.filled, hs'.read_le, hs'.le_read⟩
    · rw [if_neg hnext]
      exact hs'

/-- **The loops agree** as long as there are more turns than bytes left to read. -/
theorem decodeLoop_agrees : ∀ {fuel k : Nat} {st : CheckedState}, Sound data size k st →
    data.length - k < fuel → k ≤ data.length →
    Agrees (Erases data size 0) (decodeLoop data size fuel st)
      (QlzState.decodeLoop data size fuel st.erase)
  | fuel + 1, k, st, h, hfuel, hk => by
    refine .ite Iff.rfl (fun hlt => ?_) fun _ =>
      ⟨rfl, ⟨h.length_eq, h.filled, h.read_le, Nat.zero_le _⟩⟩
    refine (ensureControl_agrees h).bind fun ck s hck => ?_
    obtain ⟨⟨rfl, hs⟩, hdest⟩ := hck
    refine .ite Iff.rfl (fun _ => ?_) fun _ => ?_
    · refine (processReference_agrees hs).bind fun ck' s' hck' => ?_
      obtain ⟨rfl, hs'⟩ := hck'
      have := hs'.le_read.trans hs'.read_le
      exact decodeLoop_agrees hs' (by omega) this
    · refine (processLiteral_agrees hs (by omega)).bind fun a b hab => ?_
      obtain ⟨ck', done⟩ := a
      obtain ⟨s', done'⟩ := b
      obtain ⟨rfl, rfl, hs'⟩ := hab
      cases done with
      | true => exact ⟨rfl, ⟨hs'.length_eq, hs'.filled, hs'.read_le, Nat.zero_le _⟩⟩
      | false =>
        have hs' : Sound data size (k + 1) ck' := hs'
        have := hs'.le_read.trans hs'.read_le
        exact decodeLoop_agrees hs' (by omega) this

end CheckedState

/-! ### The decoder -/

theorem checkedSize_of_le {data : Bytes} {long : Prop} [Decidable long] (hlen : 3 ≤ data.length)
    (h : ¬data.length < if long then 9 else 3) : checkedSize data (decide long) =
      .ok (if long then readUint32LE data 5 else (data.getD 2 0).toNat) := by
  by_cases hlong : long
  · rw [if_pos hlong] at h ⊢
    rw [checkedSize, if_pos (decide_eq_true hlong), checkedUint32LE_of_le (by omega)]
  · rw [checkedSize, if_neg (by simpa using hlong), if_neg hlong, readByte_of_lt (by omega)]
    rfl

theorem checkedHeader_agrees (data : Bytes) :
    Agrees (fun a b => a = b ∧ a.headerLen ≤ data.length ∧
      a.decompressedSize ≤ maxDecompressedSize) (checkedHeader data) (parseQlzHeader data) := by
  refine .ite Iff.rfl (fun _ => rfl) fun hlen => ?_
  rw [readByte_of_lt (by omega)]
  refine .ite Iff.rfl (fun _ => rfl) fun _ => .ite Iff.rfl (fun _ => rfl) fun hheader => ?_
  rw [checkedSize_of_le (by omega) hheader]
  exact .ite Iff.rfl (fun _ => rfl) fun hsize => ⟨rfl, by simp only; omega, by simp only; omega⟩

theorem allWritten_of_filled : ∀ {cells : List (Option UInt8)} (pos : Nat),
    (∀ i < cells.length, ∃ b, cells[i]? = some (some b)) →
      allWritten pos cells = .ok (CheckedState.bytes cells)
  | [], _, _ => rfl
  | cell :: cells, pos, h => by
    obtain ⟨b, hb⟩ := h 0 (Nat.zero_lt_succ _)
    rw [List.getElem?_cons_zero, Option.some.injEq] at hb
    subst hb
    have hcells : ∀ i < cells.length, ∃ b, cells[i]? = some (some b) := by
      intro i hi
      have := h (i + 1) (Nat.succ_lt_succ hi)
      rwa [List.getElem?_cons_succ] at this
    rw [allWritten, allWritten_of_filled (pos + 1) hcells]
    rfl

/-- **The checked decoder is the decoder**, whatever the bytes: no read outside the
input, no copy of an unwritten byte, no byte of the result left unwritten and no
endless loop; and a result has the declared size. -/
theorem decompress_checked (data : Bytes) :
    decompressChecked data = (decompress data).mapError .refused ∧
      ∀ out, decompress data = .ok out → ∃ header, parseQlzHeader data = .ok header ∧
        out.length = header.decompressedSize ∧ out.length ≤ maxDecompressedSize := by
  have hmain : Agrees (fun out out' => out = out' ∧ ∃ header, parseQlzHeader data = .ok header ∧
      out.length = header.decompressedSize ∧ out.length ≤ maxDecompressedSize)
      (decompressChecked data) (decompress data) := by
    refine (checkedHeader_agrees data).and_ok.bind fun header header' hheader => ?_
    obtain ⟨⟨rfl, hheader, hmax⟩, hparse⟩ := hheader
    obtain ⟨headerLen, decompressedSize, flags⟩ := header
    dsimp only at hheader hmax ⊢
    refine .ite Iff.rfl (fun _ => ?_) fun _ => ?_
    · refine .ite Iff.rfl (fun _ => rfl) fun hstored => ?_
      have hlen : headerLen + decompressedSize ≤ data.length := by omega
      rw [readBytes_of_le hlen]
      have hsize : ((data.drop headerLen).take decompressedSize).length = decompressedSize := by
        rw [List.length_take, List.length_drop]
        omega
      exact ⟨rfl, _, hparse, hsize, by rw [hsize]; exact hmax⟩
    refine .ite Iff.rfl (fun _ => rfl) fun _ => ?_
    have herase : QlzState.mk 1 headerLen 0 0 (List.replicate decompressedSize 0) (fun _ => 0) =
        (CheckedState.mk 1 headerLen 0 0 (List.replicate decompressedSize none)
          (fun _ => 0)).erase := by
      rw [CheckedState.erase, CheckedState.bytes, List.map_replicate]
      rfl
    have hstart : CheckedState.Sound data decompressedSize 0
        (.mk 1 headerLen 0 0 (List.replicate decompressedSize none) (fun _ => 0)) :=
      ⟨List.length_replicate .., fun i hi => absurd hi (Nat.not_lt_zero i), hheader, Nat.zero_le _⟩
    rw [herase]
    refine (CheckedState.decodeLoop_agrees hstart (by omega) (Nat.zero_le _)).bind
      fun ck st hck => ?_
    obtain ⟨rfl, hs⟩ := hck
    refine .ite Iff.rfl (fun _ => rfl) fun hdone => ?_
    have hdest : ck.destPos = decompressedSize := Decidable.not_not.mp hdone
    rw [allWritten_of_filled 0 (by rw [hs.length_eq, ← hdest]; exact hs.filled)]
    have hlen : (CheckedState.bytes ck.dest).length = decompressedSize := by
      rw [CheckedState.length_bytes, hs.length_eq]
    exact ⟨rfl, _, hparse, hlen, by rw [hlen]; exact hmax⟩
  constructor
  · exact Agrees.eq_mapError (hmain.mono fun _ _ h => h.1)
  · intro out hout
    rw [hout] at hmain
    obtain ⟨out', -, rfl, h⟩ := hmain.of_ok
    exact h

end Teamspeak.Transport
