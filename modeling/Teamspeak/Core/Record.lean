import Teamspeak.Core.Number

/-!
# Records read from rows

`command.ts`: how one field of a record is read, `readFields` over a table of fields, and a record
with changes applied.  The constructors of ids throw outside their range, so reading is in
`Except`; a `FieldSpec` carries that its reading never throws, and that it looks at its own keys
only.

* `readFields_eq`: reading a row, without the throws.
* `value_applyChanges`: what applying changes does to a field.
* `value_fieldsRead`, `value_changed`: a field of what was read, and with changes applied.
* `FieldSpec.Follows`: where these come to what is read from the merged row.
-/

namespace Teamspeak.Records

open Binary64 (Double)

/-! ### Ids -/

/-- Thrown by the constructor of an id. -/
structure RangeError where
  what : String
  value : Int
  deriving DecidableEq

def maxUint64 : Nat := 2 ^ 64 - 1

def uintInRange (value max : Nat) (what : String) : Except RangeError Nat :=
  if value > max then .error ⟨what, value⟩ else .ok value

def uint64 (value : Nat) (what : String) : Except RangeError Nat := uintInRange value maxUint64 what

def asChannelID (value : Nat) : Except RangeError Nat := uint64 value "a channel id"
def asClientDBID (value : Nat) : Except RangeError Nat := uint64 value "a client database id"
def asServerGroupID (value : Nat) : Except RangeError Nat := uint64 value "a server group id"
def asChannelGroupID (value : Nat) : Except RangeError Nat := uint64 value "a channel group id"
def asClientID (value : Nat) : Except RangeError Nat := uintInRange value u16 "a client id"

/-- A negative icon id is the signed form of one, and stored unsigned. -/
def asIconID (value : Int) : Except RangeError Nat :=
  if value < -2 ^ 31 ∨ value > 0xffffffff then .error ⟨"an icon id", value⟩
  else .ok (if value < 0 then (value + 2 ^ 32).toNat else value.toNat)

theorem uintInRange_ok {value max : Nat} (h : value ≤ max) (what : String) :
    uintInRange value max what = .ok value := if_neg (Nat.not_lt.mpr h)

/-! ### Values -/

/-- A field's value; a date is its time in milliseconds, if it is one that a `Date` can hold. -/
inductive FieldValue
  | text (s : Str)
  | number (n : Double)
  | flag (b : Bool)
  | id (n : Nat)
  | ids (l : List Nat)
  | date (time : Option Nat)
  deriving DecidableEq

/-- `big`: an unsigned 64-bit number, or 0 for anything else. -/
def bigOf (raw : Option Str) : Nat :=
  match raw with
  | none => 0
  | some raw =>
    if Client.allDigits raw then
      if Str.digitsValue raw > maxUint64 then 0 else Str.digitsValue raw
    else 0

/-- `str`. -/
def strOf (raw : Option Str) : Str := raw.getD []

/-- `bool`. -/
def boolOf (raw : Option Str) : Bool := numOf raw ≠ .finite 0

/-- `value * unit`, rounded. -/
def times (value : Double) (unit : Nat) : Double :=
  match value with
  | .finite v => Binary64.round (v * unit)
  | .infinite negative => .infinite negative

/-- `durationMs`. -/
def durationOf (raw : Option Str) (unitMs : Nat) : Double := times (numOf raw) unitMs

def millisecond : Nat := 1
def second : Nat := 1000

/-- The time of a `Date`, which holds no later one. -/
def newDate (time : Nat) : Option Nat := if time ≤ 8640000000000000 then some time else none

/-- `date`: a count of seconds since 1970, or of a finer unit, told by its size.  A text with a
minus is no date either way. -/
def dateOf (raw : Option Str) : Option FieldValue :=
  match raw with
  | none => none
  | some raw =>
    let value := Str.digitsValue raw
    if ¬ Client.allDigits raw ∨ value = 0 then none
    else if value < 10 ^ 11 then some (.date (newDate (value * 1000)))
    else if value < 10 ^ 14 then some (.date (newDate value))
    else if value < 10 ^ 17 then some (.date (newDate (value / 1000)))
    else some (.date (newDate (value / 1000000)))

/-- `parseIconID`: of the three forms of an icon id the unsigned one. -/
def parseIconID (raw : Option Str) : Except RangeError (Option Nat) :=
  let text := Client.trim (raw.getD [])
  let negative := text.head? = some dash
  let digits := if negative then text.tail else text
  if ¬(Client.allDigits digits ∧ digits.length ≤ 20) then .ok none
  else
    let value : Int := if negative then -(Str.digitsValue digits : Int) else Str.digitsValue digits
    let value := if value ≥ 2 ^ 64 - 2 ^ 31 ∧ value < 2 ^ 64 then value - 2 ^ 64 else value
    if value < -2 ^ 31 ∨ value ≥ 2 ^ 32 ∨ value = 0 then .ok none
    else (asIconID value).map some

/-- `/^\d{1,20}$/` and below `2 ^ 64`. -/
def isGroupID (s : Str) : Bool :=
  Client.allDigits s ∧ s.length ≤ 20 ∧ Str.digitsValue s < 2 ^ 64

/-- `parseServerGroups`: what is not an id is skipped. -/
def parseServerGroups (raw : Str) : Except RangeError (List Nat) :=
  if raw = [] then .ok []
  else ((raw.splitOn (unit ',')).filter isGroupID).mapM fun s => asServerGroupID (Str.digitsValue s)

/-! ### Fields -/

/-- How one field is read: the wire keys that carry it, in the order they are tried, and how the
one that is there is read; an `always` field is read also from a row without it. -/
structure FieldSpec where
  keys : List Str
  keys_ne : keys ≠ []
  always : Bool
  read : Params → Str → Except RangeError (Option FieldValue)
  /-- Reading never throws. -/
  total : ∀ row key, ∃ value, read row key = .ok value
  /-- Reading looks at the field's own keys. -/
  own : ∀ row row', (∀ k ∈ keys, row.get? k = row'.get? k) →
    ∀ key ∈ keys, read row key = read row' key

variable {κ : Type} [DecidableEq κ]

/-- A record or changes: each field by its name; one that is there as `none` is `undefined`. -/
abbrev Record (κ : Type) := InsertionMap κ (Option FieldValue)

/-- What a field is; a missing one and an undefined one are the same. -/
def value (r : Record κ) (name : κ) : Option FieldValue := (r.get? name).join

abbrev Table (κ : Type) := List (κ × FieldSpec)

namespace FieldSpec

/-- The key that a row has the field under. -/
def found (spec : FieldSpec) (row : Params) : Option Str := spec.keys.find? fun k => row.has k

/-- One turn of the loop: nothing, or what to keep. -/
def readFrom (spec : FieldSpec) (row : Params) (onlyPresent : Bool) :
    Except RangeError (Option (Option FieldValue)) :=
  let full := spec.always ∧ ¬ onlyPresent
  match spec.found row with
  | none => if full then (spec.read row (spec.keys.head spec.keys_ne)).map some else .ok none
  | some key =>
    (spec.read row key).map fun value =>
      if value ≠ none ∨ full ∨ onlyPresent then some value else none

end FieldSpec

def readFields (table : Table κ) (row : Params) (onlyPresent : Bool) :
    Except RangeError (Record κ) :=
  table.foldlM (fun out field =>
    (field.2.readFrom row onlyPresent).map fun kept =>
      kept.elim out fun value => out.set field.1 value) .empty

/-- One change: a field that is `undefined` is taken away. -/
def applyChange (next : Record κ) (change : κ × Option FieldValue) : Record κ :=
  match change.2 with
  | none => next.delete change.1
  | some v => next.set change.1 (some v)

/-- A record with changes applied. -/
def applyChanges (r changes : Record κ) : Record κ := changes.entries.foldl applyChange r

/-- `{ ...a, ...b }`. -/
def merge {α : Type*} (a b : InsertionMap κ α) : InsertionMap κ α := a.setAll b.entries

/-- A field that is read from the key it is found under. -/
def FieldSpec.under (keys : List Str) (keys_ne : keys ≠ []) (always : Bool)
    (read : Option Str → Except RangeError (Option FieldValue))
    (total : ∀ raw, ∃ value, read raw = .ok value) : FieldSpec where
  keys := keys
  keys_ne := keys_ne
  always := always
  read row key := read (row.get? key)
  total _ _ := total _
  own _ _ h key hkey := by rw [h key hkey]

/-- A field of one key. -/
def FieldSpec.one (key : String) (always : Bool)
    (read : Option Str → Except RangeError (Option FieldValue))
    (total : ∀ raw, ∃ value, read raw = .ok value) : FieldSpec :=
  .under [.of key] (List.cons_ne_nil _ _) always read total

/-- A field of one key whose reading cannot throw. -/
def FieldSpec.plain (key : String) (read : Option Str → Option FieldValue) (always : Bool) :
    FieldSpec :=
  .one key always (fun raw => .ok (read raw)) fun _ => ⟨_, rfl⟩

/-! ### What is read -/

variable {spec : FieldSpec} {table : Table κ} {a b row : Params}

/-- What a field reads as. -/
def FieldSpec.of (spec : FieldSpec) (row : Params) (key : Str) : Option FieldValue :=
  match spec.read row key with
  | .ok value => value
  | .error _ => none

theorem FieldSpec.read_eq (spec : FieldSpec) (row : Params) (key : Str) :
    spec.read row key = .ok (spec.of row key) := by
  obtain ⟨value, h⟩ := spec.total row key
  rw [FieldSpec.of, h]

/-- `readFrom`, without the throws. -/
def FieldSpec.kept (spec : FieldSpec) (row : Params) (onlyPresent : Bool) :
    Option (Option FieldValue) :=
  let full := spec.always ∧ ¬ onlyPresent
  match spec.found row with
  | none => if full then some (spec.of row (spec.keys.head spec.keys_ne)) else none
  | some key =>
    if spec.of row key ≠ none ∨ full ∨ onlyPresent then some (spec.of row key) else none

theorem FieldSpec.readFrom_eq (spec : FieldSpec) (row : Params) (onlyPresent : Bool) :
    spec.readFrom row onlyPresent = .ok (spec.kept row onlyPresent) := by
  rw [FieldSpec.readFrom, FieldSpec.kept]
  cases spec.found row with
  | none =>
    simp only [FieldSpec.read_eq]
    split_ifs <;> rfl
  | some key =>
    simp only [FieldSpec.read_eq]
    rfl

/-- What a table reads from a row. -/
def fieldsRead (table : Table κ) (row : Params) (onlyPresent : Bool) : Record κ :=
  table.foldl (fun out field =>
    (field.2.kept row onlyPresent).elim out fun value => out.set field.1 value) .empty

theorem readFields_eq (table : Table κ) (row : Params) (onlyPresent : Bool) :
    readFields table row onlyPresent = .ok (fieldsRead table row onlyPresent) := by
  rw [readFields, fieldsRead]
  generalize (InsertionMap.empty : Record κ) = out
  induction table generalizing out with
  | nil => rfl
  | cons field table ih =>
    rw [List.foldlM_cons, List.foldl_cons, FieldSpec.readFrom_eq]
    exact ih _

/-- The fields that are kept, set in turn. -/
def keptFields (table : Table κ) (row : Params) (onlyPresent : Bool) :
    List (κ × Option FieldValue) :=
  table.filterMap fun field => (field.2.kept row onlyPresent).map fun value => (field.1, value)

theorem fields_eq_setAll (table : Table κ) (row : Params) (onlyPresent : Bool) :
    fieldsRead table row onlyPresent =
      InsertionMap.empty.setAll (keptFields table row onlyPresent) := by
  rw [fieldsRead]
  generalize (InsertionMap.empty : Record κ) = out
  induction table generalizing out with
  | nil => rfl
  | cons field table ih =>
    rw [List.foldl_cons, ih, keptFields, keptFields, List.filterMap_cons]
    cases field.2.kept row onlyPresent with
    | none => rfl
    | some value => rfl

omit [DecidableEq κ] in
theorem mem_keptFields {onlyPresent : Bool} {name : κ} {value : Option FieldValue} :
    (name, value) ∈ keptFields table row onlyPresent ↔
      ∃ spec, (name, spec) ∈ table ∧ spec.kept row onlyPresent = some value := by
  simp only [keptFields, List.mem_filterMap, Option.map_eq_some_iff, Prod.mk.injEq, Prod.exists]
  constructor
  · rintro ⟨name', spec, hmem, value', hkept, rfl, rfl⟩
    exact ⟨spec, hmem, hkept⟩
  · rintro ⟨spec, hmem, hkept⟩
    exact ⟨name, spec, hmem, value, hkept, rfl, rfl⟩

omit [DecidableEq κ] in
theorem nodup_keptFields (hnames : (table.map Prod.fst).Nodup) (onlyPresent : Bool) :
    ((keptFields table row onlyPresent).map Prod.fst).Nodup := by
  refine hnames.sublist ?_
  induction table with
  | nil => exact .slnil
  | cons field table ih =>
    rw [List.map_cons, List.nodup_cons] at hnames
    rw [keptFields, List.filterMap_cons]
    cases field.2.kept row onlyPresent with
    | none => exact (ih hnames.2).cons _
    | some value => exact (ih hnames.2).cons_cons _

omit [DecidableEq κ] in
theorem eq_of_name (hnames : (table.map Prod.fst).Nodup) {name : κ} {spec spec' : FieldSpec}
    (h : (name, spec) ∈ table) (h' : (name, spec') ∈ table) : spec = spec' := by
  have := List.inj_on_of_nodup_map hnames h h' rfl
  exact congrArg Prod.snd this

theorem get?_fields_of_not_mem {name : κ} (h : name ∉ table.map Prod.fst) (onlyPresent : Bool) :
    (fieldsRead table row onlyPresent).get? name = none := by
  rw [fields_eq_setAll, InsertionMap.get?_setAll_of_not_mem, InsertionMap.get?_empty]
  rintro hmem
  obtain ⟨⟨name', value⟩, hkept, rfl⟩ := List.mem_map.mp hmem
  obtain ⟨spec, hspec, -⟩ := mem_keptFields.mp hkept
  exact h (List.mem_map_of_mem hspec)

theorem get?_fields {name : κ} (hnames : (table.map Prod.fst).Nodup)
    (h : (name, spec) ∈ table) (onlyPresent : Bool) :
    (fieldsRead table row onlyPresent).get? name = spec.kept row onlyPresent := by
  rw [fields_eq_setAll]
  cases hkept : spec.kept row onlyPresent with
  | some value =>
    exact InsertionMap.get?_setAll_of_nodup (nodup_keptFields hnames onlyPresent)
      (mem_keptFields.mpr ⟨spec, h, hkept⟩)
  | none =>
    rw [InsertionMap.get?_setAll_of_not_mem, InsertionMap.get?_empty]
    intro hmem
    obtain ⟨⟨name', value⟩, hkept', rfl⟩ := List.mem_map.mp hmem
    obtain ⟨spec', hspec', hsome⟩ := mem_keptFields.mp hkept'
    rw [eq_of_name hnames h hspec'] at hkept
    exact Option.some_ne_none _ (hsome.symm.trans hkept)

/-! ### Changes -/

theorem get?_merge {α : Type*} (m n : InsertionMap κ α) (k : κ) :
    (merge m n).get? k = (n.get? k).or (m.get? k) := by
  rw [merge, InsertionMap.get?_setAll]
  congr 1
  have hentries := InsertionMap.entries_setAll_of_nodup n.nodup
  rw [InsertionMap.get?, hentries, InsertionMap.get?]

theorem value_applyChange (r : Record κ) (change : κ × Option FieldValue) (name : κ) :
    value (applyChange r change) name = if change.1 = name then change.2 else value r name := by
  obtain ⟨key, v⟩ := change
  cases v with
  | none =>
    rw [value, applyChange, InsertionMap.get?_delete]
    split_ifs <;> rfl
  | some v =>
    rw [value, applyChange, InsertionMap.get?_set]
    split_ifs <;> rfl

/-- **What applying changes does to a field**: one that the changes lack stays. -/
theorem value_applyChanges (r changes : Record κ) (name : κ) :
    value (applyChanges r changes) name = (changes.get? name).getD (value r name) := by
  have hfold (l : List (κ × Option FieldValue)) (hl : (l.map Prod.fst).Nodup) (r : Record κ) :
      value (l.foldl applyChange r) name =
        ((l.find? fun e => e.1 = name).map Prod.snd).getD (value r name) := by
    induction l generalizing r with
    | nil => rfl
    | cons change l ih =>
      rw [List.map_cons, List.nodup_cons] at hl
      rw [List.foldl_cons, ih hl.2, value_applyChange, List.find?_cons]
      by_cases hname : change.1 = name
      · have hnone : (l.find? fun e => e.1 = name) = none := by
          refine List.find?_eq_none.mpr fun e he => ?_
          rw [decide_eq_true_eq]
          exact fun heq => hl.1 (List.mem_map.mpr ⟨e, he, heq.trans hname.symm⟩)
        simp [hname, hnone]
      · simp [hname]
  exact hfold changes.entries changes.nodup r

/-- What a full record has of a field. -/
def FieldSpec.full (spec : FieldSpec) (row : Params) : Option FieldValue :=
  match spec.found row with
  | none => if spec.always then spec.of row (spec.keys.head spec.keys_ne) else none
  | some key => spec.of row key

theorem FieldSpec.join_kept (spec : FieldSpec) (row : Params) :
    (spec.kept row false).join = spec.full row := by
  rw [FieldSpec.kept, FieldSpec.full]
  cases spec.found row with
  | none =>
    dsimp only
    split_ifs <;> simp_all
  | some key =>
    dsimp only
    cases hof : spec.of row key with
    | none => split_ifs <;> rfl
    | some v => simp

theorem FieldSpec.kept_present (spec : FieldSpec) (row : Params) :
    spec.kept row true = (spec.found row).map (spec.of row) := by
  rw [FieldSpec.kept]
  cases spec.found row with
  | none => simp
  | some key => simp

/-- Two rows that have the same under a field's keys read the same. -/
theorem FieldSpec.found_congr (h : ∀ k ∈ spec.keys, a.get? k = b.get? k) :
    spec.found a = spec.found b := by
  rw [FieldSpec.found, FieldSpec.found, ← List.head?_filter, ← List.head?_filter]
  congr 1
  exact List.filter_congr fun k hk => by rw [InsertionMap.has, InsertionMap.has, h k hk]

theorem FieldSpec.of_congr (h : ∀ k ∈ spec.keys, a.get? k = b.get? k) {key : Str}
    (hkey : key ∈ spec.keys) : spec.of a key = spec.of b key := by
  rw [FieldSpec.of, FieldSpec.of, spec.own a b h key hkey]

theorem FieldSpec.full_congr (h : ∀ k ∈ spec.keys, a.get? k = b.get? k) :
    spec.full a = spec.full b := by
  rw [FieldSpec.full, FieldSpec.full, FieldSpec.found_congr h]
  cases hfound : spec.found b with
  | none =>
    dsimp only
    rw [FieldSpec.of_congr h (List.head_mem _)]
  | some key =>
    exact FieldSpec.of_congr h (List.mem_of_find?_eq_some hfound)

/-- A change names a field under every key that the row has it under, or not at all. -/
def Agree (keys : List Str) (a b : Params) : Prop :=
  (∀ k ∈ keys, b.get? k = none) ∨ ∀ k ∈ keys, a.has k = true → b.has k = true

theorem agree_singleton (key : Str) (a b : Params) : Agree [key] a b := by
  cases hb : b.get? key with
  | none => exact Or.inl fun k hk => by rw [List.mem_singleton.mp hk, hb]
  | some v =>
    refine Or.inr fun k hk _ => ?_
    rw [List.mem_singleton.mp hk, InsertionMap.has, hb]
    rfl

/-- The merged row has of a field what the changes name, or else what the row had. -/
def FieldSpec.Follows (spec : FieldSpec) (a b : Params) : Prop :=
  spec.full (merge a b) = ((spec.found b).map (spec.of b)).getD (spec.full a)

theorem FieldSpec.follows_of_agree (h : Agree spec.keys a b) : spec.Follows a b := by
  rw [FieldSpec.Follows]
  cases hfound : spec.found b with
  | none =>
    have hnone : ∀ k ∈ spec.keys, b.get? k = none := fun k hk =>
      InsertionMap.has_eq_false.mp (Bool.eq_false_iff.mpr (List.find?_eq_none.mp hfound k hk))
    rw [Option.map_none, Option.getD_none]
    exact FieldSpec.full_congr fun k hk => by rw [get?_merge, hnone k hk, Option.none_or]
  | some key =>
    have hkey : key ∈ spec.keys := List.mem_of_find?_eq_some hfound
    have hhas : b.has key = true := List.find?_some hfound
    have hall : ∀ k ∈ spec.keys, a.has k = true → b.has k = true := by
      refine h.resolve_left fun hnone => ?_
      rw [InsertionMap.has, hnone key hkey] at hhas
      exact Bool.false_ne_true hhas
    have hsame : ∀ k ∈ spec.keys, (merge a b).get? k = b.get? k := by
      intro k hk
      rw [get?_merge]
      cases hb : b.get? k with
      | some v => rfl
      | none =>
        have ha : a.has k = false := by
          rw [Bool.eq_false_iff]
          intro ha
          have := hall k hk ha
          rw [InsertionMap.has, hb] at this
          exact Bool.false_ne_true this
        rw [InsertionMap.has_eq_false.mp ha, Option.or_none]
    rw [FieldSpec.full, FieldSpec.found_congr hsame, hfound]
    exact FieldSpec.of_congr hsame hkey

/-- The key that is tried first is the one that the merged row has, if the changes have it. -/
theorem FieldSpec.follows_of_head {key : Str} {keys : List Str} (hkeys : spec.keys = key :: keys)
    (hhas : b.has key = true) (hread : spec.of (merge a b) key = spec.of b key) :
    spec.Follows a b := by
  have hfound {row : Params} (h : row.has key = true) : spec.found row = some key := by
    rw [FieldSpec.found, hkeys, List.find?_cons, h]
  have hmerge : (merge a b).has key = true := by
    rw [InsertionMap.has] at hhas
    rw [InsertionMap.has, get?_merge, Option.isSome_or, hhas]
    rfl
  rw [FieldSpec.Follows, FieldSpec.full, hfound hmerge, hfound hhas]
  exact hread

/-! ### A field of a record -/

theorem value_fieldsRead {name : κ} (hnames : (table.map Prod.fst).Nodup)
    (h : (name, spec) ∈ table) : value (fieldsRead table row false) name = spec.full row := by
  rw [value, get?_fields hnames h, FieldSpec.join_kept]

/-- **What changes make of a field** of what was read: its change, if the row of changes has it. -/
theorem value_changed {r : Record κ} {name : κ} (hnames : (table.map Prod.fst).Nodup)
    (h : (name, spec) ∈ table) (hr : value r name = spec.full a) :
    value (applyChanges r (fieldsRead table b true)) name =
      ((spec.found b).map (spec.of b)).getD (spec.full a) := by
  rw [value_applyChanges, get?_fields hnames h, FieldSpec.kept_present, hr]

theorem value_unchanged {name : κ} (h : name ∉ table.map Prod.fst) (r : Record κ) :
    value (applyChanges r (fieldsRead table b true)) name = value r name := by
  rw [value_applyChanges, get?_fields_of_not_mem h, Option.getD_none]

end Teamspeak.Records
