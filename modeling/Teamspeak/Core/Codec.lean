import Teamspeak.Core.Token

/-!
# The codec

What `encodeRequest` renders is what `splitCommandRows` and `parseCommand` read.

* `ParamValue.sent?`: what a parameter should arrive as, if it is sent at all.
* `CommandRequest.said`: what row `i` of a request's line should say.
* `encodeRequest_eq`: the line, for a request whose keys are valid.
* `codec_round_trip`: the rows of that line say what they should.
-/

namespace Teamspeak

/-! ### What a request says -/

/-- What a parameter should arrive as: a flag that is set with no value, a password
as the transport encodes it, and any other value as its text. -/
def ParamValue.sent? (passwords : List Str) (encodePassword : Str → Str) (key : Str)
    (value : ParamValue) : Option Str :=
  if isFlag key then if value = .boolean true then some [] else none
  else
    match value with
    | .undefined => none
    | .boolean b => some (if b then .of "1" else .of "0")
    | .number text => some text
    | .bigint n => some (stringOfInt n)
    | .string s => some (if key ∈ passwords ∧ s ≠ [] then encodePassword s else s)

/-- What is said once one more parameter is given: one that is sent comes over what was
there. -/
def sayNext (passwords : List Str) (encodePassword : Str → Str) (params : Params)
    (p : Str × ParamValue) : Params :=
  match p.2.sent? passwords encodePassword p.1 with
  | some v => params.set p.1 v
  | none => params

namespace CommandRequest

/-- The rows of the line: the first one's parameters follow the request's own. -/
def lineRows (request : CommandRequest) : List (List (Str × ParamValue)) :=
  (request.params ++ request.rows.headD []) :: request.rows.tail

/-- The parameters given up to row `i`. -/
def given (request : CommandRequest) (i : Nat) : List (Str × ParamValue) :=
  (request.lineRows.take (i + 1)).flatten

/-- What row `i` should say: the parameters given up to it, a later one over an
earlier. -/
def said (request : CommandRequest) (encodePassword : Str → Str) (i : Nat) : Params :=
  (request.given i).foldl (sayNext request.passwords encodePassword) .empty

end CommandRequest

/-! ### Encoding -/

theorem encodeParam_eq (passwords : List Str) (encodePassword : Str → Str) (key : Str)
    (value : ParamValue) :
    encodeParam passwords encodePassword (key, value) =
      (value.sent? passwords encodePassword key).map (key, ·) := by
  unfold encodeParam ParamValue.sent?
  by_cases hflag : isFlag key = true
  · simp only [if_pos hflag]
    split <;> rfl
  · simp only [if_neg hflag]
    cases value with
    | string s =>
      simp only [encodeValue]
      split <;> rfl
    | _ => rfl

variable {passwords : List Str} {encodePassword : Str → Str}

theorem encodeParams_ok {params : List (Str × ParamValue)}
    (h : ∀ p ∈ params, validKey p.1 = true) :
    encodeParams params passwords encodePassword =
      .ok (params.filterMap (encodeParam passwords encodePassword)) := by
  induction params with
  | nil => rfl
  | cons p params ih =>
    rw [encodeParams, h p List.mem_cons_self, ih fun p hp => h p (List.mem_cons_of_mem _ hp)]
    cases hp : encodeParam passwords encodePassword p with
    | none => rw [List.filterMap_cons_none hp]; rfl
    | some q => rw [List.filterMap_cons_some hp]; rfl

theorem sendable_of_encodeParam {p : Str × ParamValue} (hkey : validKey p.1 = true)
    {q : Str × Str} (h : encodeParam passwords encodePassword p = some q) : Sendable q := by
  rw [encodeParam_eq] at h
  obtain ⟨v, hv, rfl⟩ := Option.map_eq_some_iff.mp h
  refine ⟨hkey, fun hflag => ?_⟩
  unfold ParamValue.sent? at hv
  rw [if_pos hflag] at hv
  split at hv
  · exact (Option.some.inj hv).symm
  · cases hv

theorem sendable_of_encodeParams {params : List (Str × ParamValue)}
    (h : ∀ p ∈ params, validKey p.1 = true) :
    ∀ q ∈ params.filterMap (encodeParam passwords encodePassword), Sendable q := by
  intro q hq
  obtain ⟨p, hp, hpq⟩ := List.mem_filterMap.mp hq
  exact sendable_of_encodeParam (h p hp) hpq

theorem mapM_ok {α β ε : Type} {f : α → Except ε β} {g : α → β} {l : List α}
    (h : ∀ a ∈ l, f a = .ok (g a)) : l.mapM f = .ok (l.map g) := by
  induction l with
  | nil => rfl
  | cons a l ih =>
    rw [List.mapM_cons, h a List.mem_cons_self, ih fun a ha => h a (List.mem_cons_of_mem _ ha)]
    rfl

/-- A row after the first is its tokens alone. -/
theorem drop_buildCommandOrdered (ps : List (Str × Str)) :
    (buildCommandOrdered [] ps).drop 1 = rowText ps := by
  unfold buildCommandOrdered joinSpace rowText joinSpace
  rw [escape_nil]
  cases ps with
  | nil => rfl
  | cons p ps => rw [List.map_cons, List.intercalate_cons_cons]; rfl

theorem buildCommandOrdered_name {name : Str} (hname : isCommandName name = true)
    {ps : List (Str × Str)} (hne : ps ≠ []) :
    buildCommandOrdered name ps = name ++ [space] ++ rowText ps := by
  unfold buildCommandOrdered joinSpace rowText joinSpace
  rw [escape_name hname, List.intercalate_cons_of_ne_nil (tokens_ne_nil hne)]

/-- The rows of a request, as its line holds them. -/
def sentRows (request : CommandRequest) (encodePassword : Str → Str) : List (List (Str × Str)) :=
  request.lineRows.map fun row => row.filterMap (encodeParam request.passwords encodePassword)

theorem sentRows_ne_nil {request : CommandRequest} : sentRows request encodePassword ≠ [] :=
  List.cons_ne_nil _ _

theorem intercalate_append_head (sep x y : Str) (zs : List Str) :
    sep.intercalate ((x ++ y) :: zs) = x ++ sep.intercalate (y :: zs) := by
  cases zs with
  | nil => simp
  | cons z zs => simp only [List.intercalate_cons_cons, List.append_assoc]

/-- The line of a request: its name, and its rows with a pipe between. -/
theorem encodeRequest_eq {request : CommandRequest}
    (hname : isCommandName request.command = true)
    (hkeys : ∀ row ∈ request.lineRows, ∀ p ∈ row, validKey p.1 = true)
    (hne : ∀ ps ∈ sentRows request encodePassword, ps ≠ []) :
    encodeRequest request encodePassword =
      .ok (request.command ++ [space] ++
        [pipe].intercalate ((sentRows request encodePassword).map rowText)) := by
  have hfirst := hkeys _ (List.mem_cons_self (l := request.rows.tail))
  have hrest : ∀ row ∈ request.rows.tail,
      (do return (buildCommandOrdered [] (← encodeParams row request.passwords
        encodePassword)).drop 1 : Except TypeError Str) =
          .ok (rowText (row.filterMap (encodeParam request.passwords encodePassword))) := by
    intro row hrow
    rw [encodeParams_ok (hkeys row (List.mem_cons_of_mem _ hrow))]
    exact congrArg Except.ok (drop_buildCommandOrdered _)
  unfold encodeRequest
  simp only
  rw [encodeParams_ok fun p hp => hfirst p (List.mem_append_left _ hp),
    encodeParams_ok fun p hp => hfirst p (List.mem_append_right _ hp), mapM_ok hrest]
  show Except.ok ([pipe].intercalate (buildCommandOrdered _ _ :: _)) = _
  rw [← List.filterMap_append, buildCommandOrdered_name hname (hne _ List.mem_cons_self),
    intercalate_append_head]
  unfold sentRows CommandRequest.lineRows
  rw [List.map_cons, List.map_cons, List.map_map]
  rfl

/-! ### Reading the line -/

section Named

variable {name : Str} (hname : isCommandName name = true)
include hname

theorem idxOf?_name (t : Str) : (name ++ [space] ++ t).idxOf? space = some name.length := by
  rw [List.append_assoc, List.singleton_append]
  exact idxOf?_append_cons (space_not_mem_name hname) t

theorem headName_named (t : Str) : headName (name ++ [space] ++ t) = name := by
  unfold headName
  rw [idxOf?_name hname]
  show (if isCommandName (List.take _ _) then List.take _ _ else []) = _
  rw [List.append_assoc, List.take_left, if_pos hname]

theorem restOf_named (t : Str) : restOf (name ++ [space] ++ t) = t := by
  unfold restOf
  rw [headName_named hname, if_neg (ne_nil_of_isCommandName hname), idxOf?_name hname]
  show List.drop _ _ = _
  rw [List.drop_left' (by rw [List.length_append]; rfl)]

theorem rowPrefix_named (t : Str) : rowPrefix (name ++ [space] ++ t) = name ++ [space] := by
  unfold rowPrefix
  rw [headName_named hname, if_neg (ne_nil_of_isCommandName hname)]

/-- **The rows of a line within the budget** are those that inherit all they can. -/
theorem splitCommandRows_named {rows : List (List (Str × Str))} (hrows : rows ≠ [])
    (h : ∀ ps ∈ rows, ps ≠ [] ∧ ∀ p ∈ ps, Sendable p)
    (hfits : fitsRowBudget (name ++ [space] ++ [pipe].intercalate (rows.map rowText))) :
    splitCommandRows (name ++ [space] ++ [pipe].intercalate (rows.map rowText)) =
      inheritedRows (name ++ [space]) [] (rows.map rowText) := by
  have hsplit : ([pipe].intercalate (rows.map rowText)).splitOn pipe = rows.map rowText := by
    apply List.splitOn_intercalate pipe _ (by simpa using hrows)
    intro text htext
    obtain ⟨ps, -, rfl⟩ := List.mem_map.mp htext
    exact pipe_not_mem_rowText ps
  unfold fitsRowBudget at hfits
  rw [restOf_named hname, rowPrefix_named hname, hsplit] at hfits
  unfold splitCommandRows
  rw [restOf_named hname, rowPrefix_named hname]
  by_cases hpipe : pipe ∈ [pipe].intercalate (rows.map rowText)
  · have hloop := rowsOf_eq (rowLimits_inherit_le _) (by rwa [Nat.zero_add])
    rw [if_neg (not_not_intro hpipe), hsplit]
    simp only
    rw [hloop, if_neg]
    intro hnil
    have hlength := length_inheritedRows (name ++ [space]) h []
    rw [hnil] at hlength
    exact hrows (List.length_eq_zero_iff.mp hlength.symm)
  · -- without a pipe there is one row, which is the line itself
    rw [if_pos hpipe]
    rw [List.splitOn_eq_singleton hpipe] at hsplit
    cases rows with
    | nil => exact absurd rfl hrows
    | cons ps rows =>
      rw [List.map_cons] at hsplit ⊢
      obtain ⟨htext, hnil⟩ := List.cons.inj hsplit
      obtain ⟨hne, hps⟩ := h ps List.mem_cons_self
      have hkeys : ∀ p ∈ ps, validKey p.1 = true := fun p hp => (hps p hp).key
      rw [htext, ← hnil, inheritedRows, if_neg (rowText_ne_nil hkeys hne), inheritedRows,
        tokensOf_rowText hkeys hne]
      rfl

end Named

/-! ### The round trip -/

theorem foldl_sayNext (given : List (Str × ParamValue)) (params : Params) :
    given.foldl (sayNext passwords encodePassword) params =
      params.setAll (given.filterMap (encodeParam passwords encodePassword)) := by
  induction given generalizing params with
  | nil => rfl
  | cons p given ih =>
    rw [List.foldl_cons, ih, List.filterMap_cons, encodeParam_eq, sayNext]
    cases p.2.sent? passwords encodePassword p.1 <;> rfl

theorem said_eq (request : CommandRequest) (encodePassword : Str → Str) (i : Nat) :
    request.said encodePassword i =
      InsertionMap.empty.setAll ((sentRows request encodePassword).take (i + 1)).flatten := by
  unfold CommandRequest.said CommandRequest.given sentRows
  rw [foldl_sayNext, ← List.map_take, List.filterMap_flatten]

/-- A key is said exactly when some parameter of that name is sent. -/
theorem has_said {request : CommandRequest} {i : Nat} {k : Str} :
    (request.said encodePassword i).has k = true ↔
      ∃ value, (k, value) ∈ request.given i ∧
        (value.sent? request.passwords encodePassword k).isSome = true := by
  unfold CommandRequest.said
  rw [foldl_sayNext, InsertionMap.has_setAll, List.mem_map]
  constructor
  · rintro (h | ⟨q, hq, rfl⟩)
    · exact absurd h (by simp [InsertionMap.has])
    · obtain ⟨⟨key, value⟩, hp, hpq⟩ := List.mem_filterMap.mp hq
      rw [encodeParam_eq] at hpq
      obtain ⟨v, hv, rfl⟩ := Option.map_eq_some_iff.mp hpq
      exact ⟨value, hp, by rw [hv]; rfl⟩
  · rintro ⟨value, hp, hsent⟩
    obtain ⟨v, hv⟩ := Option.isSome_iff_exists.mp hsent
    refine Or.inr ⟨(k, v), List.mem_filterMap.mpr ⟨_, hp, ?_⟩, rfl⟩
    rw [encodeParam_eq, hv]
    rfl

theorem has_said_flag {request : CommandRequest} {i : Nat} {k : Str} (hflag : isFlag k = true) :
    (request.said encodePassword i).has k = true ↔ (k, .boolean true) ∈ request.given i := by
  rw [has_said]
  unfold ParamValue.sent?
  simp only [if_pos hflag]
  constructor
  · rintro ⟨value, hmem, hsent⟩
    split at hsent
    · rename_i hvalue
      exact hvalue ▸ hmem
    · cases hsent
  · intro hmem
    exact ⟨_, hmem, by rw [if_pos rfl]; rfl⟩

theorem not_undefined_of_has_said {request : CommandRequest} {i : Nat} {k : Str}
    (h : (request.said encodePassword i).has k = true) :
    ∃ value, (k, value) ∈ request.given i ∧ value ≠ .undefined := by
  obtain ⟨value, hmem, hsent⟩ := has_said.mp h
  refine ⟨value, hmem, ?_⟩
  rintro rfl
  unfold ParamValue.sent? at hsent
  by_cases hflag : isFlag k = true
  · rw [if_pos hflag] at hsent
    cases hsent
  · rw [if_neg hflag] at hsent
    cases hsent

/-- What is parsed from a row, against what was said up to it. -/
structure Agrees (request : CommandRequest) (encodePassword : Str → Str) (i : Nat)
    (params : Params) : Prop where
  same : ∀ k, params.get? k = (request.said encodePassword i).get? k
  flag : ∀ k, isFlag k = true → (params.has k = true ↔ (k, .boolean true) ∈ request.given i)
  defined : ∀ k, params.has k = true → ∃ value, (k, value) ∈ request.given i ∧ value ≠ .undefined

theorem agrees_of_same {request : CommandRequest} {i : Nat} {params : Params}
    (h : ∀ k, params.get? k = (request.said encodePassword i).get? k) :
    Agrees request encodePassword i params := by
  have hhas : ∀ k, params.has k = (request.said encodePassword i).has k := by
    intro k
    unfold InsertionMap.has
    rw [h]
  refine ⟨h, ?_, ?_⟩
  · intro k hflag
    rw [hhas]
    exact has_said_flag hflag
  · intro k hk
    exact not_undefined_of_has_said (hhas k ▸ hk)

/-- **A request comes back as it was given.**  The line of a request with a valid name,
valid keys and something to send in every row, and with rows that fit the budget,
is split into as many rows as it has; row `i` is parsed as the same command, with
the parameters given up to it, a later one over an earlier. -/
theorem codec_round_trip (request : CommandRequest) (encodePassword : Str → Str)
    (hname : isCommandName request.command = true)
    (hkeys : ∀ row ∈ request.lineRows, ∀ p ∈ row, validKey p.1 = true)
    (hsent : ∀ row ∈ request.lineRows, ∃ p ∈ row,
      (p.2.sent? request.passwords encodePassword p.1).isSome = true)
    (hbudget : ∀ line, encodeRequest request encodePassword = .ok line → fitsRowBudget line) :
    ∃ line, encodeRequest request encodePassword = .ok line ∧
      (splitCommandRows line).length = request.lineRows.length ∧
      ∀ i < request.lineRows.length, ∃ row params, (splitCommandRows line)[i]? = some row ∧
        parseCommand row = some ⟨request.command, params⟩ ∧
        Agrees request encodePassword i params := by
  have hrows : ∀ ps ∈ sentRows request encodePassword, ps ≠ [] ∧ ∀ p ∈ ps, Sendable p := by
    intro ps hps
    obtain ⟨row, hrow, rfl⟩ := List.mem_map.mp hps
    refine ⟨?_, sendable_of_encodeParams (hkeys row hrow)⟩
    obtain ⟨⟨key, value⟩, hp, hv⟩ := hsent row hrow
    obtain ⟨v, hv⟩ := Option.isSome_iff_exists.mp hv
    apply List.ne_nil_of_mem
    exact List.mem_filterMap.mpr ⟨_, hp, (encodeParam_eq ..).trans (congrArg _ hv)⟩
  have hline := encodeRequest_eq hname hkeys fun ps hps => (hrows ps hps).1
  have hlength : (sentRows request encodePassword).length = request.lineRows.length :=
    List.length_map ..
  have hsplit := splitCommandRows_named hname sentRows_ne_nil hrows (hbudget _ hline)
  refine ⟨_, hline, ?_, ?_⟩
  · rw [hsplit, length_inheritedRows _ hrows, hlength]
  · intro i hi
    obtain ⟨row, hrow, hreads⟩ := reads_inheritedRows (request.command ++ [space]) hrows
      (m := .empty) (fun e he => absurd he List.not_mem_nil) (hlength ▸ hi)
    obtain ⟨params, hparse, hget⟩ := hreads.parseCommand hname
    refine ⟨row, params, ?_, hparse, agrees_of_same fun k => ?_⟩
    · rw [hsplit]
      exact hrow
    · rw [hget, said_eq]

/-- Two files, one of them of an awkward name, deleted from a channel with a password. -/
def deleteFiles : CommandRequest where
  command := .of "ftdeletefile"
  params := [(.of "cid", .number (.of "1")), (.of "cpw", .string (.of "a=b"))]
  rows := [[(.of "name", .string (.of "/a")), (.of "-force", .boolean true)],
    [(.of "name", .string (.of "b|\\s c")), (.of "skipped", .undefined)]]
  passwords := [.of "cpw"]

def deleteFilesLine : Str :=
  .of "ftdeletefile cid=1 cpw=b=a name=\\/a -force|name=b\\p\\\\s\\sc"

theorem codec_round_trip_deleteFiles :
    ∃ line, encodeRequest deleteFiles List.reverse = .ok line ∧
      (splitCommandRows line).length = deleteFiles.lineRows.length ∧
      ∀ i < deleteFiles.lineRows.length, ∃ row params, (splitCommandRows line)[i]? = some row ∧
        parseCommand row = some ⟨deleteFiles.command, params⟩ ∧
        Agrees deleteFiles List.reverse i params := by
  apply codec_round_trip deleteFiles List.reverse
  · decide
  · decide
  · decide
  · intro line hline
    have henc : encodeRequest deleteFiles List.reverse = .ok deleteFilesLine := by decide
    rw [← Except.ok.inj (henc.symm.trans hline)]
    decide

end Teamspeak
