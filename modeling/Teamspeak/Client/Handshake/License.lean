import Teamspeak.Basic
import Teamspeak.Core.Text
import Teamspeak.Lib.BigEndian
import Teamspeak.Lib.Reading

/-!
# License chains

`license.ts`, without the key derivation.  A chain is a version byte and blocks of four
layouts; `Encoded` is a block as it stands in a license.  SHA-512 and the text decoder are
node's, and the places that are read are recorded.

* `parseLicenseBlock_eq_ok`: what parses as a block is an encoded block.
* `parseLicenseBlock_accesses`: the places read for a block.
* `parseLicenses_sound`: a license is accepted exactly if it is the version byte and at most
  eight encoded blocks, and these are what it gives.
-/

namespace Teamspeak.Client.License

open Reading (byte fail)

inductive LicenseBlockType
  | intermediate
  | server
  | ts5Server
  | ephemeral
  deriving DecidableEq

namespace LicenseBlockType

/-- The number on the wire. -/
def toByte : LicenseBlockType → UInt8
  | intermediate => 0
  | server => 2
  | ts5Server => 8
  | ephemeral => 32

def ofByte (b : UInt8) : Option LicenseBlockType :=
  if b = 0 then some intermediate else if b = 2 then some server
  else if b = 8 then some ts5Server else if b = 32 then some ephemeral else none

end LicenseBlockType

/-- The errors that are thrown, the numbers in their texts included. -/
inductive LicenseError
  /-- `license too short` -/
  | tooShort
  /-- `unsupported license version` -/
  | unsupportedVersion
  /-- `license chain longer than … blocks` -/
  | chainTooLong (maxBlocks : Nat)
  /-- `wrong key kind in license: …` -/
  | wrongKeyKind (kind : UInt8)
  /-- `license times are invalid` -/
  | invalidTimes
  /-- `license block longer than the license` -/
  | blockTooLong
  /-- `invalid license block type: …` -/
  | invalidBlockType (blockType : UInt8)
  /-- `non-null-terminated issuer string` -/
  | unterminatedIssuer
  deriving DecidableEq

/-- A block; its dates are numbers of milliseconds. -/
structure LicenseBlock where
  key : Bytes
  hash : Bytes
  properties : List Bytes
  issuer : Str
  notValidBefore : Nat
  notValidAfter : Nat
  blockType : LicenseBlockType
  serverType : UInt8
  deriving DecidableEq

structure BlockPayload where
  issuer : Str
  serverType : UInt8
  properties : List Bytes
  read : Nat

def maxLicenseBlocks : Nat := 8
def minBlockLen : Nat := 42

/-- A timestamp of a license as a date. -/
def date (seconds : Nat) : Nat := 1000 * (0x50e22700 + seconds)

/-- `getUint32(i, false)`. -/
def uint32 (data : Bytes) (i : Nat) : Reading LicenseError Nat := do
  let a ← byte data i
  let b ← byte data (i + 1)
  let c ← byte data (i + 2)
  let d ← byte data (i + 3)
  return BigEndian.value [a, b, c, d]

/-- The loop of `readNullString` from `i` on, with `left` bytes to go: the place of a zero. -/
def nullFrom (data : Bytes) (i : Nat) : Nat → Reading LicenseError Nat
  | 0 => fail .unterminatedIssuer
  | left + 1 => do
    let b ← byte data i
    if b = 0 then return i else nullFrom data (i + 1) left

/-- The loop over the properties, with `count` of them to go. -/
def propertiesFrom (data : Bytes) (pos : Nat) : Nat → Reading LicenseError (List Bytes × Nat)
  | 0 => return ([], pos)
  | count + 1 =>
    if data.length ≤ pos then fail .tooShort
    else do
      let propLen ← byte data pos
      if data.length < pos + 1 + propLen.toNat then fail .tooShort
      else do
        let (properties, pos') ← propertiesFrom data (pos + 1 + propLen.toNat) count
        return ((data.drop (pos + 1)).take propLen.toNat :: properties, pos')

section Parse

variable (sha512 : Bytes → Bytes) (decode : Bytes → Str)

def readNullString (data : Bytes) : Reading LicenseError (Str × Nat) := do
  let i ← nullFrom data 0 data.length
  return (decode (data.take i), i)

def parseBlockPayload (blockType : LicenseBlockType) (data : Bytes) :
    Reading LicenseError BlockPayload :=
  match blockType with
  | .intermediate => do
    let (str, read) ← readNullString decode (data.drop 46)
    return { issuer := str, serverType := 0, properties := [], read := 5 + read }
  | .server => do
    let (str, read) ← readNullString decode (data.drop 47)
    let serverType ← byte data 42
    return { issuer := str, serverType, properties := [], read := 6 + read }
  | .ts5Server => do
    let propCount ← byte data 43
    let (properties, pos) ← propertiesFrom data 44 propCount.toNat
    let serverType ← byte data 42
    return { issuer := [], serverType, properties, read := pos - minBlockLen }
  | .ephemeral => return { issuer := [], serverType := 0, properties := [], read := 0 }

/-- The first block of what remains, and its length. -/
def parseLicenseBlock (data : Bytes) : Reading LicenseError (LicenseBlock × Nat) :=
  if data.length < minBlockLen then fail .tooShort
  else do
    let kind ← byte data 0
    if kind ≠ 0 then fail (.wrongKeyKind kind)
    else do
      let blockType ← byte data 33
      let notValidBefore ← uint32 data 34
      let notValidAfter ← uint32 data 38
      if date notValidAfter < date notValidBefore then fail .invalidTimes
      else
        match LicenseBlockType.ofByte blockType with
        | none => fail (.invalidBlockType blockType)
        | some blockType => do
          let payload ← parseBlockPayload decode blockType data
          let allLen := minBlockLen + payload.read
          if data.length < allLen then fail .blockTooLong
          else
            return (
              { key := (data.drop 1).take 32
                hash := (sha512 ((data.take allLen).drop 1)).take 32
                properties := payload.properties
                issuer := payload.issuer
                notValidBefore := date notValidBefore
                notValidAfter := date notValidAfter
                blockType
                serverType := payload.serverType }, allLen)

/-- The loop over the blocks, with `room` for so many more. -/
def blocksFrom : (room : Nat) → (remaining : Bytes) → Reading LicenseError (List LicenseBlock)
  | _, [] => return []
  | 0, _ :: _ => fail (.chainTooLong maxLicenseBlocks)
  | room + 1, b :: rest => do
    let (block, consumed) ← parseLicenseBlock sha512 decode (b :: rest)
    let blocks ← blocksFrom room ((b :: rest).drop consumed)
    return block :: blocks

def parseLicenses (data : Bytes) : Reading LicenseError (List LicenseBlock) :=
  if data.length < 1 then fail .tooShort
  else do
    let version ← byte data 0
    if version ≠ 1 then fail .unsupportedVersion
    else blocksFrom sha512 decode maxLicenseBlocks (data.drop 1)

end Parse

/-! ### Blocks as they stand in a license -/

/-- A property of at most 255 bytes, after its length. -/
def encodeProperty (p : Bytes) : Bytes := UInt8.ofNat p.length :: p

/-- What follows the times of a block, by its type. -/
inductive EncodedPayload
  | intermediate (unread issuer : Bytes) (hunread : unread.length = 4) (hissuer : 0 ∉ issuer)
  | server (serverType : UInt8) (unread issuer : Bytes) (hunread : unread.length = 4)
    (hissuer : 0 ∉ issuer)
  | ts5Server (serverType : UInt8) (properties : List Bytes) (hcount : properties.length < 256)
    (hproperties : ∀ p ∈ properties, p.length < 256)
  | ephemeral

namespace EncodedPayload

def blockType : EncodedPayload → LicenseBlockType
  | intermediate .. => .intermediate
  | server .. => .server
  | ts5Server .. => .ts5Server
  | ephemeral => .ephemeral

def encode : EncodedPayload → Bytes
  | intermediate unread issuer _ _ => unread ++ (issuer ++ [0])
  | server serverType unread issuer _ _ => serverType :: (unread ++ (issuer ++ [0]))
  | ts5Server serverType properties _ _ =>
    serverType :: UInt8.ofNat properties.length :: properties.flatMap encodeProperty
  | ephemeral => []

/-- What parses from it. -/
def parsed (decode : Bytes → Str) (w : EncodedPayload) : BlockPayload :=
  match w with
  | intermediate _ issuer _ _ => ⟨decode issuer, 0, [], w.encode.length⟩
  | server serverType _ issuer _ _ => ⟨decode issuer, serverType, [], w.encode.length⟩
  | ts5Server serverType properties _ _ => ⟨[], serverType, properties, w.encode.length⟩
  | ephemeral => ⟨[], 0, [], 0⟩

end EncodedPayload

/-- A block: its key, two times in seconds that are in order, and what its type has. -/
structure Encoded where
  key : Bytes
  length_key : key.length = 32
  before : Nat
  after : Nat
  before_le : before ≤ after
  after_lt : after < 2 ^ 32
  payload : EncodedPayload

namespace Encoded

def encode (w : Encoded) : Bytes :=
  0 :: (w.key ++ w.payload.blockType.toByte :: (BigEndian.bytes w.before 4 ++
    (BigEndian.bytes w.after 4 ++ w.payload.encode)))

/-- What parses from it; the hash takes in all of it but its first byte. -/
def parsed (sha512 : Bytes → Bytes) (decode : Bytes → Str) (w : Encoded) : LicenseBlock where
  key := w.key
  hash := (sha512 (w.encode.drop 1)).take 32
  properties := (w.payload.parsed decode).properties
  issuer := (w.payload.parsed decode).issuer
  notValidBefore := date w.before
  notValidAfter := date w.after
  blockType := w.payload.blockType
  serverType := (w.payload.parsed decode).serverType

end Encoded

theorem ofByte_eq_some {b : UInt8} {t : LicenseBlockType} :
    LicenseBlockType.ofByte b = some t ↔ b = t.toByte := by
  constructor
  · intro h
    rw [LicenseBlockType.ofByte] at h
    split at h
    · next hb => exact Option.some.inj h ▸ hb
    · split at h
      · next hb => exact Option.some.inj h ▸ hb
      · split at h
        · next hb => exact Option.some.inj h ▸ hb
        · split at h
          · next hb => exact Option.some.inj h ▸ hb
          · exact nomatch h
  · rintro rfl
    cases t <;> rfl

/-! ### The loops -/

theorem result_uint32 (data : Bytes) (i : Nat) :
    (uint32 data i).result = .ok (BigEndian.value [data.getD i 0, data.getD (i + 1) 0,
      data.getD (i + 2) 0, data.getD (i + 3) 0]) := by
  simp only [uint32, Reading.result_byte_bind, Reading.result_pure]

theorem uint32_append (front : Bytes) {four : Bytes} (h : four.length = 4) (rest : Bytes) :
    (uint32 (front ++ (four ++ rest)) front.length).result = .ok (BigEndian.value four) := by
  obtain ⟨a, b, c, d, rfl⟩ := List.length_eq_four.mp h
  have hget (k : Nat) : (front ++ ([a, b, c, d] ++ rest)).getD (front.length + k) 0 =
      ([a, b, c, d] ++ rest).getD k 0 := by
    rw [List.getD_eq_getElem?_getD, List.getElem?_append_right (Nat.le_add_right _ _),
      Nat.add_sub_cancel_left, List.getD_eq_getElem?_getD]
  have hzero := hget 0
  rw [Nat.add_zero] at hzero
  rw [result_uint32, hzero, hget 1, hget 2, hget 3]
  rfl

theorem drop_eq_cons {data : Bytes} {i : Nat} (h : i < data.length) :
    data.drop i = data.getD i 0 :: data.drop (i + 1) := by
  rw [List.drop_eq_getElem_cons h, List.getElem_eq_getD 0]

/-- A zero is found where the string that has none before it ends. -/
theorem nullFrom_eq_ok {data : Bytes} {i left n : Nat} (hleft : i + left = data.length) :
    (nullFrom data i left).result = .ok n ↔
      ∃ issuer rest, data.drop i = issuer ++ 0 :: rest ∧ 0 ∉ issuer ∧ n = i + issuer.length := by
  induction left generalizing i with
  | zero =>
    rw [nullFrom, Reading.result_fail, List.drop_eq_nil_of_le (by omega)]
    refine ⟨nofun, ?_⟩
    rintro ⟨issuer, rest, h, -, -⟩
    exact absurd h.symm (List.append_ne_nil_of_right_ne_nil _ (List.cons_ne_nil _ _))
  | succ left ih =>
    have hi : i < data.length := by omega
    have hdrop := drop_eq_cons hi
    rw [nullFrom, Reading.result_byte_bind, hdrop]
    split
    · next hzero =>
      rw [Reading.result_pure, hzero]
      constructor
      · intro h
        exact ⟨[], _, rfl, List.not_mem_nil, (Except.ok.inj h).symm⟩
      · rintro ⟨issuer, rest, h, hissuer, rfl⟩
        cases issuer with
        | nil => rfl
        | cons b issuer =>
          rw [List.cons_append, List.cons.injEq] at h
          exact absurd (h.1 ▸ List.mem_cons_self) hissuer
    · next hne =>
      rw [ih (by omega)]
      constructor
      · rintro ⟨issuer, rest, h, hissuer, rfl⟩
        refine ⟨data.getD i 0 :: issuer, rest, by rw [h]; rfl, ?_, by rw [List.length_cons]; omega⟩
        rw [List.mem_cons]
        rintro (h | h)
        · exact hne h.symm
        · exact hissuer h
      · rintro ⟨issuer, rest, h, hissuer, rfl⟩
        cases issuer with
        | nil =>
          rw [List.nil_append, List.cons.injEq] at h
          exact absurd h.1 hne
        | cons b issuer =>
          rw [List.cons_append, List.cons.injEq] at h
          exact ⟨issuer, rest, h.2, fun hmem => hissuer (List.mem_cons_of_mem _ hmem),
            by rw [List.length_cons]; omega⟩

theorem toNat_length {p : Bytes} (h : p.length < 256) :
    (UInt8.ofNat p.length).toNat = p.length := by
  rw [UInt8.toNat_ofNat']
  exact Nat.mod_eq_of_lt h

/-- The loop reads as many properties, and stops where the last of them ends. -/
theorem propertiesFrom_eq_ok {data : Bytes} {pos count : Nat} {properties : List Bytes}
    {pos' : Nat} :
    (propertiesFrom data pos count).result = .ok (properties, pos') ↔
      properties.length = count ∧ (∀ p ∈ properties, p.length < 256) ∧
        data.drop pos = properties.flatMap encodeProperty ++ data.drop pos' ∧
        pos' = pos + (properties.flatMap encodeProperty).length := by
  induction count generalizing pos properties pos' with
  | zero =>
    rw [propertiesFrom, Reading.result_pure, Except.ok.injEq, Prod.mk.injEq]
    constructor
    · rintro ⟨rfl, rfl⟩
      exact ⟨rfl, nofun, rfl, rfl⟩
    · rintro ⟨hcount, -, -, rfl⟩
      rw [List.length_eq_zero_iff] at hcount
      subst hcount
      exact ⟨rfl, rfl⟩
  | succ count ih =>
    rw [propertiesFrom]
    constructor
    · intro h
      split at h
      · exact nomatch h
      · next hpos =>
        rw [Reading.result_byte_bind] at h
        split at h
        · exact nomatch h
        · next hend =>
          obtain ⟨⟨rest, end'⟩, hrest, h⟩ := Reading.result_bind_eq_ok.mp h
          rw [Reading.result_pure, Except.ok.injEq, Prod.mk.injEq] at h
          obtain ⟨rfl, rfl⟩ := h
          obtain ⟨hcount, hlengths, hdrop, rfl⟩ := ih.mp hrest
          have hlt := (data.getD pos 0).toNat_lt
          have hp : ((data.drop (pos + 1)).take (data.getD pos 0).toNat).length =
              (data.getD pos 0).toNat := by
            rw [List.length_take, List.length_drop]
            omega
          have hsplit : data.drop (pos + 1) =
              (data.drop (pos + 1)).take (data.getD pos 0).toNat ++
                data.drop (pos + 1 + (data.getD pos 0).toNat) := by
            rw [← List.drop_drop (j := pos + 1), List.take_append_drop]
          refine ⟨congrArg Nat.succ hcount, ?_, ?_, ?_⟩
          · intro p hmem
            rcases List.mem_cons.mp hmem with rfl | hmem
            · rw [hp]
              exact hlt
            · exact hlengths p hmem
          · rw [drop_eq_cons (by omega), List.flatMap_cons, encodeProperty, hp,
              UInt8.ofNat_toNat, List.cons_append, List.cons_append, List.append_assoc, ← hdrop,
              ← hsplit]
          · rw [List.flatMap_cons, List.length_append, encodeProperty, List.length_cons, hp]
            omega
    · rintro ⟨hcount, hlengths, hdrop, rfl⟩
      cases properties with
      | nil => exact absurd hcount (by simp)
      | cons p properties =>
        have hp := hlengths p List.mem_cons_self
        have hlength := congrArg List.length hdrop
        rw [List.flatMap_cons, encodeProperty, List.cons_append, List.cons_append] at hdrop hlength
        rw [List.length_drop, List.length_cons, List.length_append, List.length_append] at hlength
        have hpos : pos < data.length := by omega
        rw [drop_eq_cons hpos, List.cons.injEq, List.append_assoc] at hdrop
        have hfits : ¬data.length < pos + 1 + p.length := by
          have h := congrArg List.length hdrop.2
          rw [List.length_drop, List.length_append] at h
          omega
        rw [if_neg (Nat.not_le_of_gt hpos), Reading.result_byte_bind, hdrop.1, toNat_length hp,
          if_neg hfits, hdrop.2, List.take_left]
        refine Reading.result_bind_eq_ok.mpr ⟨(properties, _), ih.mpr ⟨Nat.succ.inj hcount,
          fun q hq => hlengths q (List.mem_cons_of_mem _ hq), ?_, ?_⟩, rfl⟩
        · rw [← List.drop_drop, hdrop.2, List.drop_left]
          rfl
        · rw [List.flatMap_cons, encodeProperty, List.cons_append, List.length_cons,
            List.length_append]
          omega

/-! ### Payloads -/

section Sound

variable (sha512 : Bytes → Bytes) (decode : Bytes → Str)

theorem readNullString_eq_ok {data : Bytes} {str : Str} {n : Nat} :
    (readNullString decode data).result = .ok (str, n) ↔
      ∃ issuer rest, data = issuer ++ 0 :: rest ∧ 0 ∉ issuer ∧ str = decode issuer ∧
        n = issuer.length := by
  rw [readNullString, Reading.result_bind_eq_ok]
  constructor
  · rintro ⟨i, hi, h⟩
    obtain ⟨issuer, rest, hdata, hissuer, rfl⟩ := (nullFrom_eq_ok (Nat.zero_add _)).mp hi
    rw [Reading.result_pure, Except.ok.injEq, Prod.mk.injEq, Nat.zero_add] at h
    rw [List.drop_zero] at hdata
    obtain ⟨rfl, rfl⟩ := h
    refine ⟨issuer, rest, hdata, hissuer, ?_, rfl⟩
    rw [hdata, List.take_left]
  · rintro ⟨issuer, rest, rfl, hissuer, rfl, rfl⟩
    refine ⟨issuer.length, (nullFrom_eq_ok (Nat.zero_add _)).mpr ⟨issuer, rest, rfl, hissuer,
      (Nat.zero_add _).symm⟩, ?_⟩
    rw [Reading.result_pure, List.take_left]

theorem drop_header {header : Bytes} (h : header.length = 42) (tail : Bytes) (k : Nat) :
    (header ++ tail).drop (42 + k) = tail.drop k := by
  rw [List.drop_append, List.drop_eq_nil_of_le (by omega), List.nil_append, h,
    Nat.add_sub_cancel_left]

theorem getD_header {header : Bytes} (h : header.length = 42) (tail : Bytes) (k : Nat) :
    (header ++ tail).getD (42 + k) 0 = tail.getD k 0 := by
  rw [List.getD_eq_getElem?_getD, List.getElem?_append_right (by omega), h,
    Nat.add_sub_cancel_left, List.getD_eq_getElem?_getD]

/-- A payload that parses and fits is an encoded one. -/
theorem exists_encoded {header tail : Bytes} (hheader : header.length = 42)
    {t : LicenseBlockType} {p : BlockPayload}
    (h : (parseBlockPayload decode t (header ++ tail)).result = .ok p)
    (hfits : p.read ≤ tail.length) :
    ∃ (w : EncodedPayload) (rest : Bytes), w.blockType = t ∧ tail = w.encode ++ rest ∧
      p = w.parsed decode := by
  cases t with
  | intermediate =>
    obtain ⟨⟨str, n⟩, hstr, h⟩ := Reading.result_bind_eq_ok.mp h
    rw [drop_header hheader tail 4] at hstr
    obtain ⟨issuer, rest, htail, hissuer, rfl, rfl⟩ := (readNullString_eq_ok decode).mp hstr
    have hp := Except.ok.inj h
    have hlength := congrArg List.length htail
    rw [List.length_drop, List.length_append, List.length_cons] at hlength
    have hunread : (tail.take 4).length = 4 := by
      rw [List.length_take]
      omega
    refine ⟨.intermediate (tail.take 4) issuer hunread hissuer, rest, rfl, ?_, ?_⟩
    · show tail = tail.take 4 ++ (issuer ++ [0]) ++ rest
      rw [List.append_assoc, List.append_assoc, List.singleton_append, ← htail,
        List.take_append_drop]
    · rw [← hp]
      simp only [EncodedPayload.parsed, EncodedPayload.encode, List.length_append, hunread,
        List.length_singleton, BlockPayload.mk.injEq, true_and]
      omega
  | server =>
    obtain ⟨⟨str, n⟩, hstr, h⟩ := Reading.result_bind_eq_ok.mp h
    rw [drop_header hheader tail 5] at hstr
    obtain ⟨issuer, rest, htail, hissuer, rfl, rfl⟩ := (readNullString_eq_ok decode).mp hstr
    cases tail with
    | nil =>
      rw [List.drop_nil] at htail
      exact absurd htail.symm (List.append_ne_nil_of_right_ne_nil _ (List.cons_ne_nil _ _))
    | cons serverType tail =>
      rw [Reading.result_byte_bind, getD_header hheader (serverType :: tail) 0] at h
      have hp := Except.ok.inj h
      rw [List.drop_succ_cons] at htail
      have hlength := congrArg List.length htail
      rw [List.length_drop, List.length_append, List.length_cons] at hlength
      have hunread : (tail.take 4).length = 4 := by
        rw [List.length_take]
        omega
      refine ⟨.server serverType (tail.take 4) issuer hunread hissuer, rest, rfl, ?_, ?_⟩
      · show serverType :: tail = serverType :: (tail.take 4 ++ (issuer ++ [0]) ++ rest)
        rw [List.append_assoc, List.append_assoc, List.singleton_append, ← htail,
          List.take_append_drop]
      · rw [← hp]
        simp only [EncodedPayload.parsed, EncodedPayload.encode, List.length_append, hunread,
          List.length_cons, List.length_nil, BlockPayload.mk.injEq, true_and,
          List.getD_cons_zero]
        omega
  | ts5Server =>
    rw [parseBlockPayload, Reading.result_byte_bind] at h
    obtain ⟨⟨properties, pos⟩, hproperties, h⟩ := Reading.result_bind_eq_ok.mp h
    rw [Reading.result_byte_bind] at h
    have hp := Except.ok.inj h
    obtain ⟨hcount, hlengths, hdrop, rfl⟩ := propertiesFrom_eq_ok.mp hproperties
    have hread : p.read = 2 + (properties.flatMap encodeProperty).length := by
      rw [← hp]
      show 44 + _ - 42 = _
      omega
    rcases tail with - | ⟨serverType, - | ⟨propCount, tail⟩⟩
    · rw [hread, List.length_nil] at hfits
      omega
    · rw [hread, List.length_singleton] at hfits
      omega
    · rw [getD_header hheader _ 1, List.getD_cons_succ, List.getD_cons_zero] at hcount
      have hlt := propCount.toNat_lt
      rw [drop_header hheader _ 2, Nat.add_assoc 42 2, drop_header hheader, Nat.add_comm 2,
        List.drop_succ_cons, List.drop_succ_cons, List.drop_zero] at hdrop
      have hbyte : UInt8.ofNat properties.length = propCount := by rw [hcount, UInt8.ofNat_toNat]
      refine ⟨.ts5Server serverType properties (by omega) hlengths,
        tail.drop (properties.flatMap encodeProperty).length, rfl, ?_, ?_⟩
      · show serverType :: propCount :: tail = serverType :: UInt8.ofNat properties.length ::
          (properties.flatMap encodeProperty ++ _)
        rw [hbyte]
        exact congrArg (fun l => serverType :: propCount :: l) hdrop
      · rw [← hp, getD_header hheader _ 0, List.getD_cons_zero]
        simp only [EncodedPayload.parsed, EncodedPayload.encode, List.length_cons,
          BlockPayload.mk.injEq, true_and, minBlockLen]
        omega
  | ephemeral =>
    exact ⟨.ephemeral, tail, rfl, rfl, (Except.ok.inj h).symm⟩

/-- An encoded payload parses, whatever follows it. -/
theorem parseBlockPayload_encode {header : Bytes} (hheader : header.length = 42)
    (w : EncodedPayload) (rest : Bytes) :
    (parseBlockPayload decode w.blockType (header ++ (w.encode ++ rest))).result =
      .ok (w.parsed decode) := by
  cases w with
  | intermediate unread issuer hunread hissuer =>
    refine Reading.result_bind_eq_ok.mpr ⟨(decode issuer, issuer.length),
      (readNullString_eq_ok decode).mpr ⟨issuer, rest, ?_, hissuer, rfl, rfl⟩, ?_⟩
    · show (header ++ (unread ++ (issuer ++ [0]) ++ rest)).drop (42 + 4) = _
      rw [drop_header hheader, List.append_assoc, ← hunread, List.drop_left, List.append_assoc]
      rfl
    · simp only [Reading.result_pure, EncodedPayload.parsed, EncodedPayload.encode,
        List.length_append, hunread, List.length_singleton, Except.ok.injEq,
        BlockPayload.mk.injEq, true_and]
      omega
  | server serverType unread issuer hunread hissuer =>
    refine Reading.result_bind_eq_ok.mpr ⟨(decode issuer, issuer.length),
      (readNullString_eq_ok decode).mpr ⟨issuer, rest, ?_, hissuer, rfl, rfl⟩, ?_⟩
    · show (header ++ serverType :: (unread ++ (issuer ++ [0]) ++ rest)).drop (42 + 5) = _
      rw [drop_header hheader, List.drop_succ_cons, List.append_assoc, ← hunread, List.drop_left,
        List.append_assoc]
      rfl
    · rw [Reading.result_byte_bind, getD_header hheader _ 0]
      simp only [Reading.result_pure, EncodedPayload.parsed, EncodedPayload.encode,
        List.length_append, hunread, List.length_cons, List.length_nil, Except.ok.injEq,
        BlockPayload.mk.injEq, true_and, List.cons_append, List.getD_cons_zero]
      omega
  | ts5Server serverType properties hcount hproperties =>
    rw [EncodedPayload.blockType, parseBlockPayload, Reading.result_byte_bind,
      getD_header hheader _ 1]
    refine Reading.result_bind_eq_ok.mpr ⟨(properties, 44 + (properties.flatMap
      encodeProperty).length), propertiesFrom_eq_ok.mpr ⟨?_, hproperties, ?_, rfl⟩, ?_⟩
    · show properties.length = (UInt8.ofNat properties.length).toNat
      rw [UInt8.toNat_ofNat', Nat.mod_eq_of_lt hcount]
    · rw [drop_header hheader _ 2, Nat.add_assoc 42 2, drop_header hheader, Nat.add_comm 2]
      show properties.flatMap encodeProperty ++ rest = properties.flatMap encodeProperty ++
        (properties.flatMap encodeProperty ++ rest).drop _
      rw [List.drop_left]
    · rw [Reading.result_byte_bind, getD_header hheader _ 0]
      simp only [Reading.result_pure, EncodedPayload.parsed, EncodedPayload.encode,
        List.length_cons, Except.ok.injEq, BlockPayload.mk.injEq, true_and, List.cons_append,
        List.getD_cons_zero, minBlockLen]
      omega
  | ephemeral => rfl

/-! ### Blocks -/

/-- The first 42 bytes of a block. -/
def header (kind : UInt8) (key : Bytes) (t : UInt8) (before after : Bytes) : Bytes :=
  kind :: (key ++ t :: (before ++ after))

theorem exists_header {data : Bytes} (h : 42 ≤ data.length) :
    ∃ kind key t before after tail, data = header kind key t before after ++ tail ∧
      key.length = 32 ∧ before.length = 4 ∧ after.length = 4 := by
  have h₁ : ∃ kind rest, data = kind :: rest :=
    List.exists_cons_of_length_pos (by omega)
  obtain ⟨kind, rest, rfl⟩ := h₁
  rw [List.length_cons] at h
  obtain ⟨t, rest', hrest⟩ : ∃ t rest', rest.drop 32 = t :: rest' :=
    List.exists_cons_of_length_pos (by rw [List.length_drop]; omega)
  have hlength := congrArg List.length hrest
  rw [List.length_drop, List.length_cons] at hlength
  refine ⟨kind, rest.take 32, t, rest'.take 4, (rest'.drop 4).take 4, rest'.drop 8, ?_, ?_, ?_, ?_⟩
  · have h₈ : rest'.drop 8 = (rest'.drop 4).drop 4 := by rw [List.drop_drop]
    rw [header, List.cons_append, List.append_assoc, List.cons_append, List.append_assoc, h₈,
      List.take_append_drop, List.take_append_drop, ← hrest, List.take_append_drop]
  · rw [List.length_take]
    omega
  · rw [List.length_take]
    omega
  · rw [List.length_take, List.length_drop]
    omega

/-- What is made of the first block, by what its header says. -/
theorem parseLicenseBlock_header {key before after : Bytes} (hkey : key.length = 32)
    (hbefore : before.length = 4) (hafter : after.length = 4) (kind t : UInt8) (tail : Bytes) :
    (parseLicenseBlock sha512 decode (header kind key t before after ++ tail)).result =
      if kind ≠ 0 then .error (.wrongKeyKind kind)
      else if date (BigEndian.value after) < date (BigEndian.value before) then
        .error .invalidTimes
      else
        match LicenseBlockType.ofByte t with
        | none => .error (.invalidBlockType t)
        | some blockType =>
          match (parseBlockPayload decode blockType (header kind key t before after ++ tail)).result
          with
          | .error e => .error e
          | .ok payload =>
            if tail.length < payload.read then .error .blockTooLong
            else
              .ok (
                { key
                  hash := (sha512 (key ++ t :: (before ++ after) ++ tail.take payload.read)).take 32
                  properties := payload.properties
                  issuer := payload.issuer
                  notValidBefore := date (BigEndian.value before)
                  notValidAfter := date (BigEndian.value after)
                  blockType
                  serverType := payload.serverType }, 42 + payload.read) := by
  have hlength : (header kind key t before after).length = 42 := by
    rw [header, List.length_cons, List.length_append, List.length_cons, List.length_append, hkey,
      hbefore, hafter]
  generalize hdata : header kind key t before after ++ tail = data
  have hcons : data = kind :: (key ++ t :: (before ++ (after ++ tail))) := by
    rw [← hdata, header, List.cons_append, List.append_assoc, List.cons_append, List.append_assoc]
  have hmin : ¬data.length < minBlockLen := by
    rw [← hdata, List.length_append, hlength, minBlockLen]
    omega
  have hkind : data.getD 0 0 = kind := by rw [hcons, List.getD_cons_zero]
  have htype : data.getD 33 0 = t := by
    rw [hcons, List.getD_cons_succ, List.getD_eq_getElem?_getD,
      List.getElem?_append_right (Nat.le_of_eq hkey), hkey]
    rfl
  have hfirst : (uint32 data 34).result = .ok (BigEndian.value before) := by
    have h := uint32_append (kind :: (key ++ [t])) hbefore (after ++ tail)
    rw [List.length_cons, List.length_append, hkey, List.cons_append, List.append_assoc,
      List.singleton_append, ← hcons] at h
    exact h
  have hsecond : (uint32 data 38).result = .ok (BigEndian.value after) := by
    have h := uint32_append (kind :: (key ++ t :: before)) hafter tail
    rw [List.length_cons, List.length_append, List.length_cons, hkey, hbefore, List.cons_append,
      List.append_assoc, List.cons_append, ← hcons] at h
    exact h
  have hkeyBytes : (data.drop 1).take 32 = key := by
    rw [hcons, List.drop_succ_cons, List.drop_zero, ← hkey, List.take_left]
  have hhash (n : Nat) :
      (data.take (42 + n)).drop 1 = key ++ t :: (before ++ after) ++ tail.take n := by
    rw [← hdata, List.take_append, List.take_of_length_le (by omega), hlength,
      Nat.add_sub_cancel_left]
    rfl
  have hfits (n : Nat) : data.length < 42 + n ↔ tail.length < n := by
    rw [← hdata, List.length_append, hlength]
    omega
  rw [parseLicenseBlock, if_neg hmin, Reading.result_byte_bind, hkind]
  split
  · rw [Reading.result_fail]
  · rw [Reading.result_byte_bind, htype, Reading.result_bind_of_ok hfirst,
      Reading.result_bind_of_ok hsecond]
    split
    · rw [Reading.result_fail]
    · cases LicenseBlockType.ofByte t with
      | none => rw [Reading.result_fail]
      | some blockType =>
        simp only
        cases hpayload : (parseBlockPayload decode blockType data).result with
        | error e => simp only [Reading.result_bind_of_error hpayload]
        | ok payload =>
          simp only [Reading.result_bind_of_ok hpayload, minBlockLen, hfits, hkeyBytes,
            hhash]
          split
          · rw [Reading.result_fail]
          · rw [Reading.result_pure]

namespace Encoded

theorem encode_eq (w : Encoded) : w.encode =
    header 0 w.key w.payload.blockType.toByte (BigEndian.bytes w.before 4)
      (BigEndian.bytes w.after 4) ++ w.payload.encode := by
  rw [encode, header, List.cons_append, List.append_assoc, List.cons_append, List.append_assoc]

theorem length_encode (w : Encoded) : w.encode.length = 42 + w.payload.encode.length := by
  rw [encode_eq, List.length_append, header, List.length_cons, List.length_append,
    List.length_cons, List.length_append, w.length_key, BigEndian.length_bytes,
    BigEndian.length_bytes]

theorem read_parsed (w : EncodedPayload) : (w.parsed decode).read = w.encode.length := by
  cases w <;> rfl

theorem hash_parsed (w : Encoded) :
    (w.parsed sha512 decode).hash = (sha512 (w.encode.drop 1)).take 32 := rfl

end Encoded

/-- An encoded block parses, whatever follows it. -/
theorem parseLicenseBlock_encode (w : Encoded) (rest : Bytes) :
    (parseLicenseBlock sha512 decode (w.encode ++ rest)).result =
      .ok (w.parsed sha512 decode, w.encode.length) := by
  have hvalue {n : Nat} (h : n < 2 ^ 32) : BigEndian.value (BigEndian.bytes n 4) = n :=
    BigEndian.value_bytes h
  have hbefore := hvalue (Nat.lt_of_le_of_lt w.before_le w.after_lt)
  have hafter := hvalue w.after_lt
  have htimes : ¬date w.after < date w.before := by
    have h := w.before_le
    rw [date, date]
    omega
  have htype : LicenseBlockType.ofByte w.payload.blockType.toByte = some w.payload.blockType :=
    ofByte_eq_some.mpr rfl
  have hheader : (header 0 w.key w.payload.blockType.toByte (BigEndian.bytes w.before 4)
      (BigEndian.bytes w.after 4)).length = 42 := by
    rw [header, List.length_cons, List.length_append, List.length_cons, List.length_append,
      w.length_key, BigEndian.length_bytes, BigEndian.length_bytes]
  have hpayload := parseBlockPayload_encode decode hheader w.payload rest
  have hfits : ¬(w.payload.encode ++ rest).length < w.payload.encode.length := by
    rw [List.length_append]
    omega
  rw [Encoded.encode_eq, List.append_assoc, parseLicenseBlock_header sha512 decode w.length_key
    (BigEndian.length_bytes _ _) (BigEndian.length_bytes _ _)]
  simp only [ne_eq, not_true_eq_false, if_false, hbefore, hafter, htimes, htype, hpayload,
    Encoded.read_parsed, hfits, List.take_left]
  rw [← Encoded.encode_eq, Encoded.length_encode]
  simp only [Encoded.parsed, Encoded.encode_eq, header, List.cons_append, List.drop_succ_cons,
    List.drop_zero]

/-- What parses as a block is an encoded one, and what follows it. -/
theorem exists_block {data : Bytes} {block : LicenseBlock} {n : Nat}
    (h : (parseLicenseBlock sha512 decode data).result = .ok (block, n)) :
    ∃ (w : Encoded) (rest : Bytes), data = w.encode ++ rest ∧ block = w.parsed sha512 decode ∧
      n = w.encode.length := by
  have hlength : 42 ≤ data.length := by
    by_contra hlt
    have hmin : data.length < minBlockLen := Nat.lt_of_not_le hlt
    rw [parseLicenseBlock, if_pos hmin] at h
    exact nomatch h
  obtain ⟨kind, key, t, before, after, tail, rfl, hkey, hbefore, hafter⟩ := exists_header hlength
  have hheader : (header kind key t before after).length = 42 := by
    rw [header, List.length_cons, List.length_append, List.length_cons, List.length_append, hkey,
      hbefore, hafter]
  have hall := h
  rw [parseLicenseBlock_header sha512 decode hkey hbefore hafter] at h
  split at h
  · exact nomatch h
  · next hkind =>
    rw [not_not] at hkind
    subst hkind
    split at h
    · exact nomatch h
    · next htimes =>
      cases htype : LicenseBlockType.ofByte t with
      | none =>
        rw [htype] at h
        exact nomatch h
      | some blockType =>
        rw [htype] at h
        cases hpayload : (parseBlockPayload decode blockType
            (header 0 key t before after ++ tail)).result with
        | error e =>
          simp only [hpayload] at h
          exact nomatch h
        | ok payload =>
          simp only [hpayload] at h
          split at h
          · exact nomatch h
          · next hfits =>
            obtain ⟨w, rest, rfl, rfl, rfl⟩ :=
              exists_encoded decode hheader hpayload (Nat.le_of_not_lt hfits)
            have hbytes {four : Bytes} (h : four.length = 4) :
                BigEndian.bytes (BigEndian.value four) 4 = four := by
              have hvalue := BigEndian.bytes_value four
              rwa [h] at hvalue
            have hlt := BigEndian.value_lt after
            rw [hafter] at hlt
            have hle : BigEndian.value before ≤ BigEndian.value after := by
              rw [date, date] at htimes
              omega
            obtain ⟨w', hw'⟩ : ∃ w' : Encoded,
                header 0 key t before after ++ w.encode = w'.encode := by
              refine ⟨⟨key, hkey, _, _, hle, hlt, w⟩, ?_⟩
              rw [Encoded.encode_eq, hbytes hbefore, hbytes hafter, ofByte_eq_some.mp htype]
            have hdata : header 0 key t before after ++ (w.encode ++ rest) = w'.encode ++ rest := by
              rw [← hw', List.append_assoc]
            have hparsed := parseLicenseBlock_encode sha512 decode w' rest
            rw [← hdata, hall] at hparsed
            have hpair := Except.ok.inj hparsed
            rw [Prod.mk.injEq] at hpair
            exact ⟨w', rest, hdata, hpair⟩

/-! ### The places read -/

/-- A place at the end of a `Ts5Server` block that is cut short before the count of its
properties. -/
def CutShort (a : Access) : Prop :=
  LicenseBlockType.ofByte (a.data.getD 33 0) = some .ts5Server ∧
    42 ≤ a.data.length ∧ a.data.length ≤ a.index ∧ a.index ≤ 43

theorem nullFrom_within {data : Bytes} {i left : Nat} (hleft : i + left = data.length) :
    (nullFrom data i left).Within Access.Inside := by
  induction left generalizing i with
  | zero => exact Reading.within_fail _
  | succ left ih =>
    rw [nullFrom, Reading.within_bind, Reading.within_byte]
    refine ⟨show i < data.length by omega, fun b _ => ?_⟩
    split
    · exact Reading.within_pure _
    · exact ih (by omega)

theorem readNullString_within (data : Bytes) :
    (readNullString decode data).Within Access.Inside := by
  rw [readNullString, Reading.within_bind]
  exact ⟨nullFrom_within (Nat.zero_add _), fun i _ => Reading.within_pure _⟩

theorem propertiesFrom_within (data : Bytes) (pos count : Nat) :
    (propertiesFrom data pos count).Within Access.Inside := by
  induction count generalizing pos with
  | zero => exact Reading.within_pure _
  | succ count ih =>
    rw [propertiesFrom]
    split
    · exact Reading.within_fail _
    · next hpos =>
      rw [Reading.within_bind, Reading.within_byte]
      refine ⟨Nat.lt_of_not_le hpos, fun propLen _ => ?_⟩
      split
      · exact Reading.within_fail _
      · rw [Reading.within_bind]
        exact ⟨ih _, fun _ _ => Reading.within_pure _⟩

/-- The places of a payload: past the end only where the block is cut short, and then the
payload is as long as if it were not. -/
theorem parseBlockPayload_accesses {data : Bytes} (hmin : 42 ≤ data.length)
    {t : LicenseBlockType} (htype : LicenseBlockType.ofByte (data.getD 33 0) = some t) :
    (parseBlockPayload decode t data).Within Access.Inside ∨
      data.length < 44 ∧
        (parseBlockPayload decode t data).Within (fun a => a.Inside ∨ CutShort a) ∧
        ∃ payload, (parseBlockPayload decode t data).result = .ok payload ∧ payload.read = 2 := by
  cases t with
  | intermediate =>
    left
    rw [parseBlockPayload, Reading.within_bind]
    exact ⟨readNullString_within decode _, fun _ _ => Reading.within_pure _⟩
  | server =>
    left
    rw [parseBlockPayload, Reading.within_bind]
    refine ⟨readNullString_within decode _, ?_⟩
    rintro ⟨str, n⟩ hstr
    obtain ⟨issuer, rest, hdata, -, -, -⟩ := (readNullString_eq_ok decode).mp hstr
    have hlength := congrArg List.length hdata
    rw [List.length_drop, List.length_append, List.length_cons] at hlength
    rw [Reading.within_bind, Reading.within_byte]
    exact ⟨show 42 < data.length by omega, fun _ _ => Reading.within_pure _⟩
  | ts5Server =>
    by_cases hcut : data.length < 44
    · right
      have hzero : data.getD 43 0 = 0 := by
        rw [List.getD_eq_getElem?_getD, List.getElem?_eq_none (by omega)]
        rfl
      refine ⟨hcut, ?_, ?_⟩
      · rw [parseBlockPayload, Reading.within_bind, Reading.within_byte]
        refine ⟨?_, fun propCount _ => ?_⟩
        · rcases Nat.lt_or_ge 43 data.length with h | h
          · exact Or.inl h
          · exact Or.inr ⟨htype, hmin, h, Nat.le_refl 43⟩
        · rw [Reading.within_bind]
          refine ⟨(propertiesFrom_within _ _ _).mono fun _ => Or.inl, fun _ _ => ?_⟩
          rw [Reading.within_bind, Reading.within_byte]
          refine ⟨?_, fun _ _ => Reading.within_pure _⟩
          rcases Nat.lt_or_ge 42 data.length with h | h
          · exact Or.inl h
          · exact Or.inr ⟨htype, hmin, h, Nat.le_succ 42⟩
      · refine ⟨⟨[], data.getD 42 0, [], 2⟩, ?_, rfl⟩
        rw [parseBlockPayload, Reading.result_byte_bind, hzero]
        rfl
    · left
      rw [parseBlockPayload, Reading.within_bind, Reading.within_byte]
      refine ⟨show 43 < data.length by omega, fun propCount _ => ?_⟩
      rw [Reading.within_bind]
      refine ⟨propertiesFrom_within _ _ _, fun _ _ => ?_⟩
      rw [Reading.within_bind, Reading.within_byte]
      exact ⟨show 42 < data.length by omega, fun _ _ => Reading.within_pure _⟩
  | ephemeral => exact Or.inl (Reading.within_pure _)

theorem uint32_within {data : Bytes} {i : Nat} (h : i + 3 < data.length) :
    (uint32 data i).Within Access.Inside := by
  simp only [uint32, Reading.within_bind, Reading.within_byte, Reading.within_pure, implies_true,
    and_true, Access.Inside]
  exact ⟨by omega, fun _ _ => ⟨by omega, fun _ _ => ⟨by omega, fun _ _ => h⟩⟩⟩

/-- Of a header all places are read, and none outside. -/
theorem parseLicenseBlock_within {data : Bytes} (hmin : 42 ≤ data.length) {P : Access → Prop}
    (hP : ∀ a : Access, a.Inside → P a)
    (hpayload : ∀ t, LicenseBlockType.ofByte (data.getD 33 0) = some t →
      (parseBlockPayload decode t data).Within P) :
    (parseLicenseBlock sha512 decode data).Within P := by
  have hbyte {i : Nat} (h : i < 42) : P ⟨i, data⟩ := hP _ (Nat.lt_of_lt_of_le h hmin)
  have huint32 {i : Nat} (h : i < 39) : (uint32 data i).Within P :=
    (uint32_within (by omega)).mono hP
  rw [parseLicenseBlock]
  split
  · exact Reading.within_fail _
  · rw [Reading.within_bind, Reading.within_byte]
    refine ⟨hbyte (by decide), fun kind _ => ?_⟩
    split
    · exact Reading.within_fail _
    · rw [Reading.within_bind, Reading.within_byte]
      refine ⟨hbyte (by decide), fun blockType hblockType => ?_⟩
      have hblockType : data.getD 33 0 = blockType := Except.ok.inj hblockType
      rw [Reading.within_bind]
      refine ⟨huint32 (by decide), fun before _ => ?_⟩
      rw [Reading.within_bind]
      refine ⟨huint32 (by decide), fun after _ => ?_⟩
      split
      · exact Reading.within_fail _
      · split
        · exact Reading.within_fail _
        · next t ht =>
          rw [Reading.within_bind]
          refine ⟨hpayload t (hblockType ▸ ht), fun payload _ => ?_⟩
          dsimp only
          split
          · exact Reading.within_fail _
          · exact Reading.within_pure _

/-- A block that is accepted has room for its payload. -/
theorem payload_of_ok {data : Bytes} {block : LicenseBlock} {n : Nat}
    (h : (parseLicenseBlock sha512 decode data).result = .ok (block, n)) :
    ∃ t payload, LicenseBlockType.ofByte (data.getD 33 0) = some t ∧
      (parseBlockPayload decode t data).result = .ok payload ∧
      42 + payload.read ≤ data.length := by
  rw [parseLicenseBlock] at h
  split at h
  · exact nomatch h
  · rw [Reading.result_byte_bind] at h
    split at h
    · exact nomatch h
    · rw [Reading.result_byte_bind, Reading.result_bind_of_ok (result_uint32 _ _),
        Reading.result_bind_of_ok (result_uint32 _ _)] at h
      split at h
      · exact nomatch h
      · split at h
        · exact nomatch h
        · next t ht =>
          obtain ⟨payload, hpayload, h⟩ := Reading.result_bind_eq_ok.mp h
          dsimp only at h
          split at h
          · exact nomatch h
          · next hfits => exact ⟨t, payload, ht, hpayload, Nat.le_of_not_lt hfits⟩

/-- The places of a block: past the end only where it is cut short, and then it is
rejected. -/
theorem parseLicenseBlock_accesses (data : Bytes) :
    (parseLicenseBlock sha512 decode data).Within Access.Inside ∨
      (∃ e, (parseLicenseBlock sha512 decode data).result = .error e) ∧
        (parseLicenseBlock sha512 decode data).Within (fun a => a.Inside ∨ CutShort a) := by
  by_cases hmin : 42 ≤ data.length
  · by_cases hinside : ∀ t, LicenseBlockType.ofByte (data.getD 33 0) = some t →
        (parseBlockPayload decode t data).Within Access.Inside
    · exact Or.inl (parseLicenseBlock_within sha512 decode hmin (fun _ h => h) hinside)
    · simp only [not_forall] at hinside
      obtain ⟨t, ht, houtside⟩ := hinside
      obtain ⟨hcut, hwithin, payload, hpayload, hread⟩ :=
        (parseBlockPayload_accesses decode hmin ht).resolve_left houtside
      refine Or.inr ⟨?_, parseLicenseBlock_within sha512 decode hmin (fun _ => Or.inl) ?_⟩
      · cases hresult : (parseLicenseBlock sha512 decode data).result with
        | error e => exact ⟨e, rfl⟩
        | ok r =>
          obtain ⟨t', payload', ht', hpayload', hfits⟩ := payload_of_ok sha512 decode hresult
          obtain rfl : t' = t := Option.some.inj (ht'.symm.trans ht)
          obtain rfl : payload' = payload := Except.ok.inj (hpayload'.symm.trans hpayload)
          omega
      · intro t' ht'
        obtain rfl : t' = t := Option.some.inj (ht'.symm.trans ht)
        exact hwithin
  · have hshort : data.length < minBlockLen := Nat.lt_of_not_le hmin
    left
    rw [parseLicenseBlock, if_pos hshort]
    exact Reading.within_fail _

/-! ### Chains -/

theorem encode_ne_nil (w : Encoded) : w.encode ≠ [] := List.cons_ne_nil _ _

/-- What is accepted is a string of encoded blocks, and these are what it gives. -/
theorem blocksFrom_eq_ok {room : Nat} {remaining : Bytes} {blocks : List LicenseBlock} :
    (blocksFrom sha512 decode room remaining).result = .ok blocks ↔
      ∃ ws : List Encoded, ws.length ≤ room ∧ remaining = ws.flatMap Encoded.encode ∧
        blocks = ws.map (Encoded.parsed sha512 decode) := by
  induction room generalizing remaining blocks with
  | zero =>
    cases remaining with
    | nil =>
      rw [blocksFrom, Reading.result_pure, Except.ok.injEq]
      constructor
      · rintro rfl
        exact ⟨[], Nat.le_refl 0, rfl, rfl⟩
      · rintro ⟨ws, hlength, -, rfl⟩
        rw [List.length_eq_zero_iff.mp (Nat.le_zero.mp hlength)]
        rfl
    | cons b rest =>
      rw [blocksFrom, Reading.result_fail]
      refine ⟨nofun, ?_⟩
      rintro ⟨ws, hlength, h, -⟩
      rw [List.length_eq_zero_iff.mp (Nat.le_zero.mp hlength)] at h
      exact nomatch h
  | succ room ih =>
    cases remaining with
    | nil =>
      rw [blocksFrom, Reading.result_pure, Except.ok.injEq]
      constructor
      · rintro rfl
        exact ⟨[], Nat.zero_le _, rfl, rfl⟩
      · rintro ⟨ws, -, h, rfl⟩
        cases ws with
        | nil => rfl
        | cons w ws => exact absurd (List.append_eq_nil_iff.mp h.symm).1 (encode_ne_nil w)
    | cons b rest =>
      rw [blocksFrom, Reading.result_bind_eq_ok]
      constructor
      · rintro ⟨⟨block, consumed⟩, hblock, h⟩
        obtain ⟨blocks', hblocks', h⟩ := Reading.result_bind_eq_ok.mp h
        obtain ⟨w, rest', hdata, rfl, rfl⟩ := exists_block sha512 decode hblock
        rw [hdata, List.drop_left] at hblocks'
        obtain ⟨ws, hlength, rfl, rfl⟩ := ih.mp hblocks'
        exact ⟨w :: ws, Nat.succ_le_succ hlength, hdata, (Except.ok.inj h).symm⟩
      · rintro ⟨ws, hlength, h, rfl⟩
        cases ws with
        | nil => exact nomatch h
        | cons w ws =>
          rw [List.flatMap_cons] at h
          rw [h]
          refine ⟨_, parseLicenseBlock_encode sha512 decode w _, Reading.result_bind_eq_ok.mpr
            ⟨ws.map (Encoded.parsed sha512 decode), ?_, rfl⟩⟩
          rw [List.drop_left]
          exact ih.mpr ⟨ws, Nat.le_of_succ_le_succ hlength, rfl, rfl⟩

/-- More blocks than there is room for are refused as such. -/
theorem blocksFrom_tooLong {room : Nat} {ws : List Encoded} (h : room < ws.length) :
    (blocksFrom sha512 decode room (ws.flatMap Encoded.encode)).result =
      .error (.chainTooLong maxLicenseBlocks) := by
  induction room generalizing ws with
  | zero =>
    cases ws with
    | nil => exact absurd h (Nat.lt_irrefl 0)
    | cons w ws => rfl
  | succ room ih =>
    cases ws with
    | nil => exact absurd h (Nat.not_lt_zero _)
    | cons w ws =>
      have hblock := parseLicenseBlock_encode sha512 decode w (ws.flatMap Encoded.encode)
      have hrest := ih (Nat.lt_of_succ_lt_succ h)
      rw [← List.flatMap_cons] at hblock
      have hcons : ∃ b rest, (w :: ws).flatMap Encoded.encode = b :: rest :=
        ⟨_, _, List.flatMap_cons⟩
      obtain ⟨b, rest, hcons⟩ := hcons
      rw [hcons] at hblock ⊢
      rw [blocksFrom, Reading.result_bind_of_ok hblock]
      dsimp only
      rw [← hcons, List.flatMap_cons, List.drop_left, Reading.result_bind_of_error hrest]

theorem blocksFrom_accesses (room : Nat) (remaining : Bytes) :
    (blocksFrom sha512 decode room remaining).Within Access.Inside ∨
      (∃ e, (blocksFrom sha512 decode room remaining).result = .error e) ∧
        (blocksFrom sha512 decode room remaining).Within (fun a => a.Inside ∨ CutShort a) := by
  induction room generalizing remaining with
  | zero =>
    left
    cases remaining with
    | nil => exact Reading.within_pure _
    | cons b rest => exact Reading.within_fail _
  | succ room ih =>
    cases remaining with
    | nil => exact Or.inl (Reading.within_pure _)
    | cons b rest =>
      rw [blocksFrom, Reading.within_bind, Reading.within_bind]
      rcases parseLicenseBlock_accesses sha512 decode (b :: rest) with hblock | ⟨⟨e, he⟩, hblock⟩
      · cases hresult : (parseLicenseBlock sha512 decode (b :: rest)).result with
        | error e => exact Or.inl ⟨hblock, nofun⟩
        | ok r =>
          rcases ih ((b :: rest).drop r.2) with hrest | ⟨⟨e, he⟩, hrest⟩
          · refine Or.inl ⟨hblock, fun a ha => ?_⟩
            rw [← Except.ok.inj ha, Reading.within_bind]
            exact ⟨hrest, fun _ _ => Reading.within_pure _⟩
          · refine Or.inr ⟨⟨e, ?_⟩, hblock.mono fun _ => Or.inl, fun a ha => ?_⟩
            · rw [Reading.result_bind_of_ok hresult]
              exact Reading.result_bind_of_error he _
            · rw [← Except.ok.inj ha, Reading.within_bind]
              exact ⟨hrest, fun _ _ => Reading.within_pure _⟩
      · refine Or.inr ⟨⟨e, Reading.result_bind_of_error he _⟩, hblock, fun a ha => ?_⟩
        rw [he] at ha
        exact nomatch ha

/-- A license is accepted exactly if it is the version byte and at most eight encoded
blocks, and these are what it gives: a block is told from what follows it, and its hash takes
in all of it but its first byte.  More blocks are refused.  A place past the end is only read
in a `Ts5Server` block that is cut short before the count of its properties, and the license is
then rejected. -/
theorem parseLicenses_sound :
    (∀ (data : Bytes) (blocks : List LicenseBlock),
      (parseLicenses sha512 decode data).result = .ok blocks ↔
        ∃ ws : List Encoded, ws.length ≤ 8 ∧ data = 1 :: ws.flatMap Encoded.encode ∧
          blocks = ws.map (Encoded.parsed sha512 decode)) ∧
    (∀ w : Encoded,
      (w.parsed sha512 decode).hash = (sha512 (w.encode.drop 1)).take 32) ∧
    (∀ ws : List Encoded, 8 < ws.length →
      (parseLicenses sha512 decode (1 :: ws.flatMap Encoded.encode)).result =
        .error (.chainTooLong 8)) ∧
    ∀ data : Bytes, (parseLicenses sha512 decode data).Within Access.Inside ∨
      (∃ e, (parseLicenses sha512 decode data).result = .error e) ∧
        (parseLicenses sha512 decode data).Within (fun a => a.Inside ∨ CutShort a) := by
  have hversion (rest : Bytes) : (parseLicenses sha512 decode (1 :: rest)).result =
      (blocksFrom sha512 decode maxLicenseBlocks rest).result := by
    rw [parseLicenses, List.length_cons, if_neg (by omega), Reading.result_byte_bind,
      List.getD_cons_zero, if_neg (not_not_intro rfl), List.drop_succ_cons, List.drop_zero]
  refine ⟨fun data blocks => ?_, Encoded.hash_parsed sha512 decode, fun ws hws => ?_,
    fun data => ?_⟩
  · constructor
    · intro h
      cases data with
      | nil => exact nomatch h
      | cons version rest =>
        by_cases hone : version = 1
        · subst hone
          obtain ⟨ws, hlength, rfl, rfl⟩ :=
            (blocksFrom_eq_ok sha512 decode).mp ((hversion rest).symm.trans h)
          exact ⟨ws, hlength, rfl, rfl⟩
        · rw [parseLicenses, List.length_cons, if_neg (by omega), Reading.result_byte_bind,
            List.getD_cons_zero, if_pos hone] at h
          exact nomatch h
    · rintro ⟨ws, hlength, rfl, rfl⟩
      rw [hversion]
      exact (blocksFrom_eq_ok sha512 decode).mpr ⟨ws, hlength, rfl, rfl⟩
  · rw [hversion]
    exact blocksFrom_tooLong sha512 decode hws
  · cases data with
    | nil => exact Or.inl (Reading.within_fail _)
    | cons version rest =>
      rw [parseLicenses, List.length_cons, if_neg (by omega), Reading.within_bind,
        Reading.within_bind, Reading.within_byte, Reading.within_byte]
      have hinside : Access.Inside ⟨0, version :: rest⟩ := Nat.succ_pos _
      rcases blocksFrom_accesses sha512 decode maxLicenseBlocks rest with hrest | ⟨⟨e, he⟩, hrest⟩
      · refine Or.inl ⟨hinside, fun v _ => ?_⟩
        split
        · exact Reading.within_fail _
        · exact hrest
      · refine Or.inr ⟨?_, Or.inl hinside, fun v _ => ?_⟩
        · rw [Reading.result_byte_bind]
          split
          · exact ⟨_, rfl⟩
          · exact ⟨e, he⟩
        · split
          · exact Reading.within_fail _
          · exact hrest

end Sound

/-- Nine blocks of the type 32. -/
theorem parseLicenses_nine :
    (parseLicenses (fun data => data) (fun _ => []) (1 :: (List.replicate 9
        (⟨List.replicate 32 7, rfl, 0, 0, Nat.le_refl 0, by decide, .ephemeral⟩ :
          Encoded)).flatMap Encoded.encode)).result = .error (.chainTooLong 8) :=
  (parseLicenses_sound (fun data => data) (fun _ => [])).2.2.1 _ (by decide)

/-- A block of the type 8 that ends with its times. -/
def shortBlock : Bytes := 0 :: (List.replicate 32 7 ++ 8 :: List.replicate 8 0)

/-- The count of its properties is read behind it. -/
theorem parseLicenses_outside :
    (parseLicenses (fun data => data) (fun _ => []) (1 :: shortBlock)).result =
        .error .blockTooLong ∧
      ⟨43, shortBlock⟩ ∈
        (parseLicenses (fun data => data) (fun _ => []) (1 :: shortBlock)).accesses ∧
      ¬∀ data : Bytes,
        (parseLicenses (fun data => data) (fun _ => []) data).Within Access.Inside := by
  have hmem : ⟨43, shortBlock⟩ ∈
      (parseLicenses (fun data => data) (fun _ => []) (1 :: shortBlock)).accesses := by
    decide
  exact ⟨by decide, hmem, fun h => absurd (h _ _ hmem) (by decide)⟩

end Teamspeak.Client.License
