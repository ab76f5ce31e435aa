import Teamspeak.Core.NumberText
import Teamspeak.Lib.Run
import Teamspeak.Query.Web.Hearing

/-!
# The JSON of an answer and what its command is told

`send` of `query/web.ts` writes the JSON that answers a command as lines, and `#handleLine` of
`query/client.ts` reads them again.

* `Json.response`: what `send` takes from an answer.
* `Json.outcome`: the answer itself, as its command is to be told of it.
* `fresh_run`: in every run a command on the wire has no rows before its answer comes.
* `transcription`: the lines tell it the outcome, but for a code that has no 32 bits.
-/

namespace Teamspeak.Query

open Binary64 (Double)

/-! ### JSON -/

/-- A value; a number by the value of its literal, and an object by its `Object.entries`. -/
inductive Json
  | null
  | boolean (b : Bool)
  | number (literal : ℚ)
  | string (s : Str)
  | array (items : List Json)
  | object (entries : List (Str × Json))

namespace Json

/-- `value?.[key]`. -/
def field (key : Str) : Json → Option Json
  | .object entries => entries.lookup key
  | _ => none

/-- The `Object.entries` of what is an object to `typeof`. -/
def entries? : Json → Option (List (Str × Json))
  | .array items => some (items.zipIdx.map fun e => (Str.ofNat e.2, e.1))
  | .object entries => some entries
  | _ => none

def value : Json → JsonValue
  | .string s => .string s
  | .number literal => .number (numberText (Binary64.round literal))
  | .boolean b => .boolean b
  | _ => .other

def row (item : Json) : Option JsonRow :=
  item.entries?.map fun entries => entries.map fun e => (e.1, e.2.value)

variable (answer : Json)

/-- The rows of `answer.body`. -/
def rows : List JsonRow :=
  match answer.field (.of "body") with
  | some (.array items) => items.filterMap row
  | _ => []

def status (key : Str) : Option Json := (answer.field (.of "status")).bind (field key)

/-- A text of the status, empty where it has none. -/
def statusText (key : Str) : Str :=
  match answer.status key with
  | some (.string s) => s
  | _ => []

/-- What `send` takes from an answer; nothing from one whose status has no code. -/
def response : Option Response :=
  match answer.status (.of "code") with
  | some (.number literal) =>
    some
      { rows := answer.rows
        code := numberText (Binary64.round literal)
        message := answer.statusText (.of "message")
        extraMessage := answer.statusText (.of "extra_message")
        failedPermission := answer.statusText (.of "failed_permission") }
  | _ => none

/-- The code of the status is the whole number `code`. -/
def HasCode (code : Int) : Prop :=
  ∃ literal, answer.status (.of "code") = some (.number literal) ∧
    Binary64.round literal = .finite code

/-- Every row has a field, and valid keys. -/
def HasValidRows : Prop := ∀ row ∈ answer.rows, row ≠ [] ∧ ∀ e ∈ row, validKey e.1 = true

/-- What the command of an answer with this code is to be told: the rows of one that succeeded,
or else the refusal. -/
def outcome (code : Nat) : Result :=
  if code = 0 then .ok (answer.rows.map rowOf)
  else
    .error (.refused (.server
      { code
        serverMessage := answer.statusText (.of "message")
        extraMessage := nonEmpty (some (answer.statusText (.of "extra_message")))
        failedPermission := nonEmpty (some (answer.statusText (.of "failed_permission"))) }))

end Json

/-! ### The status line -/

/-- A field that is left out where it is empty says no more than an empty one. -/
theorem nonEmpty_get?_optional {m : Params} {key : Str} (h : m.get? key = none) (value : Str) :
    nonEmpty ((m.setAll (if value = [] then [] else [(key, value)])).get? key) =
      nonEmpty (some value) := by
  split
  · rename_i hvalue
    rw [InsertionMap.setAll_nil, h, hvalue]
    rfl
  · rw [InsertionMap.setAll_cons, InsertionMap.setAll_nil, InsertionMap.get?_set_self]

/-- A field does not touch another. -/
theorem get?_optional_ne {m : Params} {key key' : Str} (h : key ≠ key') (value : Str) :
    (m.setAll (if value = [] then [] else [(key, value)])).get? key' = m.get? key' := by
  split
  · rfl
  · exact InsertionMap.get?_set_ne m value h

/-- **The `error` line is read as the refusal that the status is.** -/
theorem parseServerError_error (r : Response) :
    (parseServerError r.error).1 =
      if parseErrorCode (some r.code) = 0 then none
      else
        some (.server
          { code := parseErrorCode (some r.code)
            serverMessage := r.message
            extraMessage := nonEmpty (some r.extraMessage)
            failedPermission := nonEmpty (some r.failedPermission) }) := by
  have hfields : r.error = (((InsertionMap.empty.set (.of "id") r.code).set (.of "msg")
      r.message).setAll (if r.extraMessage = [] then [] else [(.of "extra_msg", r.extraMessage)])).setAll
      (if r.failedPermission = [] then [] else [(.of "failed_permission", r.failedPermission)]) := by
    rw [Response.error, Response.errorFields, InsertionMap.setAll_append,
      InsertionMap.setAll_append]
    rfl
  have hid : r.error.get? (.of "id") = some r.code := by
    rw [hfields, get?_optional_ne (by decide), get?_optional_ne (by decide),
      InsertionMap.get?_set_ne _ _ (by decide), InsertionMap.get?_set_self]
  have hmsg : r.error.get? (.of "msg") = some r.message := by
    rw [hfields, get?_optional_ne (by decide), get?_optional_ne (by decide),
      InsertionMap.get?_set_self]
  have hextra : nonEmpty (r.error.get? (.of "extra_msg")) = nonEmpty (some r.extraMessage) := by
    rw [hfields, get?_optional_ne (by decide)]
    refine nonEmpty_get?_optional ?_ _
    rw [InsertionMap.get?_set_ne _ _ (by decide), InsertionMap.get?_set_ne _ _ (by decide),
      InsertionMap.get?_empty]
  have hpermission : nonEmpty (r.error.get? (.of "failed_permission")) =
      nonEmpty (some r.failedPermission) := by
    rw [hfields]
    refine nonEmpty_get?_optional ?_ _
    rw [get?_optional_ne (by decide), InsertionMap.get?_set_ne _ _ (by decide),
      InsertionMap.get?_set_ne _ _ (by decide), InsertionMap.get?_empty]
  have hpermid : r.error.get? (.of "failed_permid") = none := by
    rw [hfields, get?_optional_ne (by decide), get?_optional_ne (by decide),
      InsertionMap.get?_set_ne _ _ (by decide), InsertionMap.get?_set_ne _ _ (by decide),
      InsertionMap.get?_empty]
  rw [parseServerError]
  dsimp only
  rw [hid, hmsg, hextra, hpermission, hpermid, Option.getD_some]
  by_cases hcode : parseErrorCode (some r.code) = 0
  · rw [if_neg (not_not_intro hcode), if_pos hcode]
  · rw [if_pos hcode, if_neg hcode]
    rfl

/-! ### Before an answer -/

namespace Client

variable {c : Client} {integerOf : Str → Option Int} {options : Options}

theorem fresh_fail (h : c.answers.Fresh) : c.fail.answers.Fresh := by
  rw [fail]
  split
  · exact h.idle
  · exact h.idle

theorem fresh_closeTransport (h : c.answers.Fresh) (transport : Option TransportID) :
    (transport.elim c (c.closeTransport options)).answers.Fresh := by
  cases transport with
  | none => exact h
  | some t => exact h

theorem fresh_handleClose (h : c.answers.Fresh) : (c.handleClose options).answers.Fresh := by
  have hdown : { c with transport := none, closed := true, status := .disconnected }.fail.answers.Fresh :=
    fresh_fail (c := { c with transport := none, closed := true, status := .disconnected }) h
  rw [handleClose]
  split
  · exact h
  · split
    · exact hdown
    · exact hdown

theorem fresh_failConnection (h : c.answers.Fresh) (k : Nat) :
    (c.failConnection options k).answers.Fresh := by
  have hdown : { c with transport := none, closed := true, status := .disconnected }.fail.answers.Fresh :=
    fresh_fail (c := { c with transport := none, closed := true, status := .disconnected }) h
  rw [failConnection]
  split
  · exact h
  · dsimp only
    split
    · exact fresh_closeTransport hdown c.transport
    · exact fresh_closeTransport hdown c.transport

theorem fresh_graceEnds (h : c.answers.Fresh) : (c.take (graceEnds c.answers)).answers.Fresh := by
  have hnothing : graceEnds c.answers = { answers := c.answers } := by
    cases hp : c.answers.pending with
    | none => exact graceEnds_of_idle hp
    | some p => simp only [graceEnds, hp, (h.pending p hp).1]
  rw [hnothing]
  exact h

/-- The client's own events bring no row. -/
theorem fresh_own (h : c.answers.Fresh) {e : Event} (hown : System.isOwn e = true) :
    (step integerOf options c e).answers.Fresh := by
  cases e with
  | connect =>
    rw [step, connect]
    split
    · exact h
    · exact h
  | disconnect =>
    rw [step, disconnect]
    split
    · exact h
    · exact fresh_closeTransport (fresh_fail (by exact h)) c.transport
  | tornDown =>
    rw [step, tornDown]
    split
    · exact h
    · exact h
  | retry =>
    rw [step, retry, connect]
    split
    · split
      · exact h
      · exact h
    · exact h
  | loopEnds =>
    rw [step, loopEnds]
    split
    · exact h
    · exact h
  | opened k notifications alive =>
    rw [step, opened]
    split
    · dsimp only
      split
      · exact h
      · split
        · exact h
        · exact Answers.fresh_empty
    · exact h
  | openFails k =>
    rw [step, openFails]
    split
    · exact h
    · exact h
  | discarded k =>
    rw [step, discarded]
    split
    · exact h
    · exact h
  | goesOn k =>
    rw [step, goesOn]
    split
    · exact h
    · split
      · exact h
      · exact h
    · exact h
  | fails k =>
    rw [step, fails]
    split
    · exact fresh_failConnection h k
    · exact h
  | exec line => exact h
  | turn aborted =>
    rw [step, turn]
    split
    · split
      · exact h
      · split
        · exact h
        · exact h
    · exact h
  | graceEnds => exact fresh_graceEnds h
  | closes t =>
    rw [step, closes]
    split
    · dsimp only
      split
      · exact fresh_handleClose (c := { c with ended := t :: c.ended }) h
      · exact h
    · exact h
  | write => cases hown
  | sendFails => cases hown
  | gaveUp sending => cases hown
  | lateSendFails t => cases hown
  | line t text => cases hown

theorem fresh_write (h : c.answers.Fresh) : c.write.answers.Fresh := by
  rw [write]
  split
  · split
    · exact h
    · split
      · exact h
      · split
        · exact h
        · refine ⟨h.stray, fun p hp => ?_⟩
          obtain rfl := Option.some.inj hp
          exact ⟨rfl, rfl⟩
  · exact h

theorem fresh_sendFails (h : c.answers.Fresh) : c.sendFails.answers.Fresh := by
  rw [sendFails]
  split
  · exact h
  · exact h.idle

theorem fresh_gaveUp (h : c.answers.Fresh) (sending : Bool) :
    (c.gaveUp sending).answers.Fresh := by
  rw [gaveUp]
  split
  · exact h
  · dsimp only
    split
    · exact h
    · split
      · exact h.idle
      · exact ⟨h.stray, fun p hp => by cases hp⟩

/-- The lines of an answer, delivered or not. -/
theorem fresh_lines (hweb : options.kind = .web) (h : c.answers.Fresh) (t : TransportID)
    (rows : List JsonRow) {text : Str} {error : Params} (herror : errorOfLine text = some error) :
    ((rows.map rowLine ++ [text]).foldl (fun c text => c.line options integerOf t text)
      c).answers.Fresh := by
  by_cases hdelivers : c.delivers options t = true
  · rw [foldl_line hweb hdelivers]
    exact fresh_response h rows herror
  · have hsame (lines : List Str) :
        lines.foldl (fun c text => c.line options integerOf t text) c = c := by
      induction lines with
      | nil => rfl
      | cons text lines ih => rw [List.foldl_cons, line, if_neg hdelivers, ih]
    rw [hsame]
    exact h

end Client

namespace WebSystem

variable {integerOf : Str → Option Int} {options : Options} {s : WebSystem}

theorem fresh_rejects (h : s.client.answers.Fresh) (r : Request) :
    (s.rejects r).answers.Fresh := by
  rw [rejects]
  split
  · exact Client.fresh_sendFails h
  · split
    · exact ⟨h.stray, h.pending⟩
    · exact h

theorem fresh_step (hweb : options.kind = .web) (s : WebSystem) (e : Event)
    (h : s.client.answers.Fresh) : (step integerOf options s e).client.answers.Fresh := by
  cases e with
  | own e =>
    rw [step, own]
    split
    · rename_i hown
      exact Client.fresh_own h hown
    · exact h
  | write =>
    have hwrite := Client.fresh_write h
    rw [step, write]
    dsimp only
    split
    · split
      · rename_i params _
        obtain ⟨error, herror⟩ := Option.isSome_iff_exists.mp (errorOfLine_useLine params)
        exact Client.fresh_lines hweb hwrite _ [] herror
      · exact hwrite
    · exact hwrite
  | gaveUp => exact Client.fresh_gaveUp h false
  | responds call response =>
    rw [step, responds]
    split
    · exact h
    · dsimp only
      split
      · exact Client.fresh_lines hweb h _ response.rows (errorOfLine_errorLine response)
      · exact fresh_rejects h _
  | fails call =>
    rw [step, fails]
    split
    · exact h
    · exact fresh_rejects h _

/-- **A command on the wire has no rows before its answer comes**, in any run. -/
theorem fresh_run (hweb : options.kind = .web) (es : List Event) :
    (run (step integerOf options) {} es).client.answers.Fresh :=
  run_invariant (fun s e h => fresh_step hweb s e h) es Answers.fresh_empty

end WebSystem

/-! ### The lines of an answer -/

/-- The code that `error` lines have room for. -/
def lineCode (code : Int) : Nat :=
  if 0 ≤ code ∧ code ≤ 0xffffffff then code.toNat else undefinedErrorCode

/-- The lines of the answer settle the command on the wire with the outcome for `code`, and
change nothing else. -/
def Transcribed (integerOf : Str → Option Int) (c : Client) (p : Pending) (answer : Json)
    (code : Nat) : Prop :=
  ∃ r, answer.response = some r ∧
    r.lines.foldl (Client.handle integerOf) c =
      ({ c with answers := { c.answers with pending := none }, running := none } :
        Client).settle p.call (answer.outcome code)

theorem response_of_hasCode {answer : Json} {code : Int} (h : answer.HasCode code) :
    ∃ r, answer.response = some r ∧ r.rows = answer.rows ∧
      parseErrorCode (some r.code) = lineCode code ∧
      r.message = answer.statusText (.of "message") ∧
      r.extraMessage = answer.statusText (.of "extra_message") ∧
      r.failedPermission = answer.statusText (.of "failed_permission") := by
  obtain ⟨literal, hstatus, hcode⟩ := h
  refine ⟨_, by rw [Json.response, hstatus], rfl, ?_, rfl, rfl, rfl⟩
  dsimp only
  rw [hcode]
  exact parseErrorCode_numberText hcode

/-- What the lines come to for a command that negotiates no transfer. -/
theorem answerResult_response {integerOf : Str → Option Int} {command : Str}
    (hcommand : command ≠ .of "ftinitupload" ∧ command ≠ .of "ftinitdownload") {answer : Json}
    {r : Response} {code : Nat} (hcode : parseErrorCode (some r.code) = code)
    (hmessage : r.message = answer.statusText (.of "message"))
    (hextra : r.extraMessage = answer.statusText (.of "extra_message"))
    (hpermission : r.failedPermission = answer.statusText (.of "failed_permission")) :
    answerResult integerOf command (answer.rows.map rowOf) r.error = answer.outcome code := by
  rw [answerResult, parseServerError_error, transferRefusal, if_pos hcommand, hcode, hmessage,
    hextra, hpermission, Json.outcome]
  by_cases hzero : code = 0
  · rw [if_pos hzero, if_pos hzero]
    rfl
  · rw [if_neg hzero, if_neg hzero]
    rfl

theorem transcribed_of_fresh (integerOf : Str → Option Int) {c : Client} {p : Pending}
    (hfresh : c.answers.Fresh) (hp : c.answers.pending = some p)
    (hcommand : p.command ≠ .of "ftinitupload" ∧ p.command ≠ .of "ftinitdownload")
    (hclear : c.answers.abandoned ≤ 0) {answer : Json} {code : Int} (hcode : answer.HasCode code)
    (hrows : answer.HasValidRows) : Transcribed integerOf c p answer (lineCode code) := by
  obtain ⟨r, hresponse, hrowsOf, hline, hmessage, hextra, hpermission⟩ := response_of_hasCode hcode
  obtain ⟨hheld, hempty⟩ := hfresh.pending p hp
  have hreads : ∀ row ∈ r.rows, ReadsBack row := fun row hrow =>
    readsBack_of_validKey (hrows row (hrowsOf ▸ hrow)).2 (hrows row (hrowsOf ▸ hrow)).1
  refine ⟨r, hresponse, ?_⟩
  rw [Response.lines, Client.foldl_handle_response r.rows hreads (errorOfLine_errorLine r) hclear
    hfresh.stray hp hheld hempty, hrowsOf,
    answerResult_response hcommand hline hmessage hextra hpermission]
  exact congrArg (fun strayKey =>
    ({ c with answers := { c.answers with pending := none, strayKey }, running := none } :
      Client).settle p.call (answer.outcome (lineCode code))) hfresh.stray.symm

theorem Json.outcome_inj {answer : Json} {code code' : Nat}
    (h : answer.outcome code = answer.outcome code') : code = code' := by
  rw [outcome, outcome] at h
  by_cases hzero : code = 0
  · by_cases hzero' : code' = 0
    · rw [hzero, hzero']
    · rw [if_pos hzero, if_neg hzero'] at h
      cases h
  · by_cases hzero' : code' = 0
    · rw [if_neg hzero, if_pos hzero'] at h
      cases h
    · rw [if_neg hzero, if_neg hzero'] at h
      injection h with h
      injection h with h
      injection h with h
      exact Int.ofNat_inj.mp (congrArg ServerError.code h)

/-- The lines of an answer tell of one code. -/
theorem Transcribed.code_eq {integerOf : Str → Option Int} {c : Client} {p : Pending}
    {answer : Json} {code code' : Nat} (h : Transcribed integerOf c p answer code)
    (h' : Transcribed integerOf c p answer code') : code = code' := by
  obtain ⟨r, hr, hlines⟩ := h
  obtain ⟨r', hr', hlines'⟩ := h'
  obtain rfl := Option.some.inj (hr.symm.trans hr')
  have htrace := congrArg Client.trace (hlines.symm.trans hlines')
  have hsettled := List.append_cancel_left htrace
  injection hsettled with hsettled
  injection hsettled with _ hresult
  exact Json.outcome_inj hresult

/-- With an answer to let pass the lines settle nothing. -/
theorem not_transcribed_of_owed {integerOf : Str → Option Int} {c : Client} {p : Pending}
    {answer : Json} {code : Nat} (howed : c.answers.abandoned > 0) (hrows : answer.rows = []) :
    ¬ Transcribed integerOf c p answer code := by
  rintro ⟨r, hr, hlines⟩
  have hnone : r.rows = [] := by
    rw [Json.response] at hr
    split at hr
    · obtain rfl := Option.some.inj hr
      exact hrows
    · cases hr
  have htrace := congrArg Client.trace hlines
  rw [Response.lines, hnone, List.map_nil, List.nil_append, List.foldl_cons, List.foldl_nil,
    Client.handle, handleLine_error integerOf true (errorOfLine_errorLine r), if_pos howed] at htrace
  have hlength := congrArg List.length htrace
  simp [Client.take, Client.settle] at hlength

/-- **The lines of an answer tell its command the outcome**: in every run of a web client, for
every answer with valid rows and a whole number for its code, where no answer is still to be let
pass.  A code that has no 32 bits is told as the undefined one. -/
theorem transcription (integerOf : Str → Option Int) {options : Options}
    (hweb : options.kind = .web) (es : List WebSystem.Event) {p : Pending}
    (hp : (run (WebSystem.step integerOf options) {} es).client.answers.pending = some p)
    (hcommand : p.command ≠ .of "ftinitupload" ∧ p.command ≠ .of "ftinitdownload")
    (hclear : (run (WebSystem.step integerOf options) {} es).client.answers.abandoned ≤ 0)
    {answer : Json} {code : Int} (hcode : answer.HasCode code) (hrows : answer.HasValidRows) :
    Transcribed integerOf (run (WebSystem.step integerOf options) {} es).client p answer
      (lineCode code) :=
  transcribed_of_fresh integerOf (WebSystem.fresh_run hweb es) hp hcommand hclear hcode hrows

/-! ### Two answers -/

/-- A row whose values look like the rest of a line. -/
def awkwardAnswer : Json :=
  .object
    [(.of "body", .array [.object [(.of "error", .string (.of "|notify=1 error id=1\n")),
      (.of "-uid", .boolean true)]]),
    (.of "status", .object [(.of "code", .number 0), (.of "message", .string (.of "ok"))])]

/-- An answer that is a status, and that only of a code. -/
def statusOnly (code : Nat) : Json :=
  .object [(.of "status", .object [(.of "code", .number code)])]

theorem hasCode_statusOnly {code : Nat} (h : code < 2 ^ 53) : (statusOnly code).HasCode code :=
  ⟨code, rfl, round_natCast h⟩

theorem hasValidRows_statusOnly (code : Nat) : (statusOnly code).HasValidRows := by
  intro row hrow
  cases hrow

/-- A command is sent; or it is given up on, and another is sent. -/
def asked (abandoned : Bool) : List WebSystem.Event :=
  [.own .connect, .own (.opened 1 false true), .own (.exec (.of "clientlist")), .own (.turn false),
    .write] ++
    if abandoned then [.gaveUp, .own (.exec (.of "whoami")), .own (.turn false), .write] else []

theorem transcription_awkwardAnswer :
    Transcribed (fun _ => none)
      (run (WebSystem.step (fun _ => none) { kind := .web }) {} (asked false)).client
      { call := 0, transport := 0, command := .of "clientlist" } awkwardAnswer (lineCode 0) :=
  transcription (fun _ => none) rfl (asked false) (by decide) (by decide) (by decide)
    ⟨0, rfl, by exact_mod_cast @round_natCast 0 (by decide)⟩ (by unfold Json.HasValidRows; decide)

/-- A code of 33 bits is told as another; and an answer that comes while another is let pass is
not told at all. -/
theorem not_transcribed :
    (¬ ∀ (integerOf : Str → Option Int) (options : Options) (es : List WebSystem.Event)
        (p : Pending) (answer : Json) (code : Nat), options.kind = .web →
        (run (WebSystem.step integerOf options) {} es).client.answers.pending = some p →
        p.command ≠ .of "ftinitupload" ∧ p.command ≠ .of "ftinitdownload" →
        (run (WebSystem.step integerOf options) {} es).client.answers.abandoned ≤ 0 →
        answer.HasCode code → answer.HasValidRows →
        Transcribed integerOf (run (WebSystem.step integerOf options) {} es).client p answer
          code) ∧
      ¬ ∀ (integerOf : Str → Option Int) (options : Options) (es : List WebSystem.Event)
        (p : Pending) (answer : Json) (code : Nat), options.kind = .web →
        (run (WebSystem.step integerOf options) {} es).client.answers.pending = some p →
        p.command ≠ .of "ftinitupload" ∧ p.command ≠ .of "ftinitdownload" →
        code ≤ 0xffffffff → answer.HasCode code → answer.HasValidRows →
        Transcribed integerOf (run (WebSystem.step integerOf options) {} es).client p answer
          code := by
  constructor
  · intro h
    have hpending : (run (WebSystem.step (fun _ => none) { kind := .web }) {}
        (asked false)).client.answers.pending =
          some { call := 0, transport := 0, command := .of "clientlist" } := by decide
    have hcode : (statusOnly 4294967296).HasCode (4294967296 : Nat) :=
      hasCode_statusOnly (by decide)
    have htold := h (fun _ => none) { kind := .web } (asked false) _ _ _ rfl hpending (by decide)
      (by decide) hcode (hasValidRows_statusOnly _)
    have hline := transcribed_of_fresh (fun _ => none) (WebSystem.fresh_run rfl (asked false))
      hpending (by decide) (by decide) hcode (hasValidRows_statusOnly _)
    exact absurd (htold.code_eq hline) (by decide)
  · intro h
    have htold := h (fun _ => none) { kind := .web } (asked true)
      { call := 1, transport := 0, command := .of "whoami" } (statusOnly 0) 0 rfl (by decide)
      (by decide) (by decide) (hasCode_statusOnly (by decide)) (hasValidRows_statusOnly 0)
    exact not_transcribed_of_owed (by decide) rfl htold

end Teamspeak.Query
