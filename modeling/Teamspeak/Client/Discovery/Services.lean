import Teamspeak.Basic
import Teamspeak.Client.Discovery.Address
import Teamspeak.Lib.Run

/-!
# The services that know where a server is

`lookupTSDNS` and `resolveNickname` of `resolver.ts`: what a TSDNS server and the nickname service
answer, as it comes in chunks.  `decode` is `toString("utf8")`.

* `Lookup`: one question to a TSDNS server, from the socket being made to the promise settled.
* `readLimited_eq`: the nickname service is read up to a bound, in whatever chunks.
* `lookupTSDNS_reads`: so is a TSDNS server, up to the first line break.
-/

namespace Teamspeak.Client

/-- `MAX_DISCOVERY_RESPONSE`. -/
def maxDiscoveryResponse : Nat := 8 * 1024

def lineFeed : UInt8 := 0x0A

/-! ### The nickname service -/

/-- The loop of `readLimited`, where `size` bytes were read before. -/
def readChunks (limit size : Nat) : List Bytes → Bytes
  | [] => []
  | value :: rest =>
    if size < limit then
      let part := value.take (limit - size)
      part ++ readChunks limit (size + part.length) rest
    else []

/-- What `fetch` gives: whether it is `ok`, and the chunks of its body, if it has one. -/
structure Response where
  ok : Bool
  body : Option (List Bytes)

def readLimited (limit : Nat) (decode : Bytes → Str) (resp : Response) : Str :=
  match resp.body with
  | none => []
  | some chunks => decode (readChunks limit 0 chunks)

/-- What comes of the answer; `none` where `fetch` or the reading throws. -/
def resolveNickname (decode : Bytes → Str) : Option Response → Option Str
  | none => none
  | some resp =>
    if resp.ok then
      let text := readLimited maxDiscoveryResponse decode resp
      let line := trim (text.takeWhile (· ≠ 0x0A))
      if line = [] then none else some line
    else none

theorem readChunks_eq (limit size : Nat) (chunks : List Bytes) :
    readChunks limit size chunks = chunks.flatten.take (limit - size) := by
  induction chunks generalizing size with
  | nil => rw [readChunks, List.flatten_nil, List.take_nil]
  | cons value rest ih =>
    rw [readChunks, List.flatten_cons, List.take_append]
    by_cases hsize : size < limit
    · rw [if_pos hsize]
      dsimp only
      rw [ih, List.length_take]
      congr 2
      omega
    · rw [if_neg hsize, Nat.sub_eq_zero_of_le (not_lt.mp hsize)]
      simp

/-- A body is read up to its bound, in whatever chunks it comes. -/
theorem readLimited_eq (limit : Nat) (decode : Bytes → Str) (ok : Bool) (chunks : List Bytes) :
    readLimited limit decode ⟨ok, some chunks⟩ = decode (chunks.flatten.take limit) := by
  simp only [readLimited, readChunks_eq, Nat.sub_zero]

/-! ### A TSDNS server -/

/-- `s.split(/\s+/)`, where `gap` says that white space was just before. -/
def splitWhiteSpace (gap : Bool) : Str → List Str
  | [] => [[]]
  | c :: s =>
    if isWhiteSpace c then if gap then splitWhiteSpace true s else [] :: splitWhiteSpace true s
    else
      match splitWhiteSpace false s with
      | [] => [[c]]
      | word :: words => (c :: word) :: words

/-- Why a signal aborted: for the caller's reason, or because the time is over. -/
inductive AbortReason
  | caller (reason : Nat)
  | budget
  deriving DecidableEq

inductive LookupError
  | teamspeak (message : Str)
  /-- `createConnection` threw. -/
  | badPort
  | socket (n : Nat)
  | aborted (reason : AbortReason)
  deriving DecidableEq

abbrev Outcome := Except LookupError (List Str)

inductive LookupState
  | reading (bytes : Bytes)
  | settled (outcome : Outcome)
  /-- There is no socket, and the promise is rejected, but the timer was set; `thrown` once it
  went off and `finish` threw, for the socket it has to destroy. -/
  | unmade (thrown : Bool)
  deriving DecidableEq

structure Lookup where
  server : Str
  host : Str
  /-- What was written to the socket. -/
  written : Str := []
  state : LookupState
  deriving DecidableEq

inductive SocketEvent
  | connected
  | data (chunk : Bytes)
  | ends
  | error (n : Nat)
  /-- The socket's own. -/
  | timeout
  /-- `TSDNS_TIMEOUT_MS` after the start. -/
  | timer
  | abort (reason : AbortReason)
  deriving DecidableEq

section

variable (isIP : Str → Nat) (decode : Bytes → Str)

/-- `TS_DNS_DEFAULT_PORT`. -/
def tsdnsDefaultPort : Str := .of "41144"

def answerOf (bytes : Bytes) : List Str :=
  let line := trim (decode bytes)
  if line = [] ∨ line = .of "404" ∨ line = .of "errors" then [] else splitWhiteSpace false line

namespace Lookup

/-- The port `createConnection` is given. -/
def targetPort (server : Str) : Nat :=
  Str.digitsValue (splitHostPort isIP server tsdnsDefaultPort).port

def start (signal : Option AbortReason) (server host : Str) : Lookup :=
  { server, host
    state :=
      match signal with
      | some reason => .settled (.error (.aborted reason))
      | none => if 65535 < targetPort isIP server then .unmade false else .reading [] }

/-- What its promise came to. -/
def outcome (s : Lookup) : Option Outcome :=
  match s.state with
  | .reading _ => none
  | .settled outcome => some outcome
  | .unmade _ => some (.error .badPort)

def timedOut (s : Lookup) : Outcome :=
  .error (.teamspeak (.of "the TSDNS server " ++ s.server ++ .of " did not answer in time"))

def unending (s : Lookup) : Outcome :=
  .error (.teamspeak (.of "the TSDNS server " ++ s.server ++ .of " sent 8192 bytes without " ++
    .of "ending its answer"))

def finish (s : Lookup) (outcome : Outcome) : Lookup :=
  match s.state with
  | .reading _ => { s with state := .settled outcome }
  | .settled _ => s
  | .unmade _ => { s with state := .unmade true }

def handleData (s : Lookup) (bytes chunk : Bytes) : Lookup :=
  let all := bytes ++ chunk
  match (all.idxOf? lineFeed).filter (· < maxDiscoveryResponse) with
  | some idx => s.finish (.ok (answerOf decode (all.take idx)))
  | none =>
    if maxDiscoveryResponse ≤ all.length then s.finish s.unending
    else { s with state := .reading all }

/-- What listens to the socket and to the signal does so until `finish`, and the timer is cleared
then; it is all there is where no socket was made. -/
def step (s : Lookup) (e : SocketEvent) : Lookup :=
  match s.state with
  | .settled _ => s
  | .unmade _ => if e = .timer then s.finish s.timedOut else s
  | .reading bytes =>
    match e with
    | .connected => { s with written := s.host ++ [0x0A] }
    | .data chunk => s.handleData decode bytes chunk
    | .ends => s.finish (.ok (answerOf decode bytes))
    | .error n => s.finish (.error (.socket n))
    | .timeout | .timer => s.finish s.timedOut
    | .abort reason => s.finish (.error (.aborted reason))

/-! ### What decides a lookup -/

/-- What the bytes that came decide, however they came. -/
def verdict (s : Lookup) (bytes : Bytes) : Option Outcome :=
  match (bytes.idxOf? lineFeed).filter (· < maxDiscoveryResponse) with
  | some idx => some (.ok (answerOf decode (bytes.take idx)))
  | none => if maxDiscoveryResponse ≤ bytes.length then some s.unending else none

end Lookup

/-- What another event decides, after these bytes. -/
def SocketEvent.outcome (s : Lookup) (bytes : Bytes) : SocketEvent → Option Outcome
  | .connected | .data _ => none
  | .ends => some (.ok (answerOf decode bytes))
  | .error n => some (.error (.socket n))
  | .timeout | .timer => some s.timedOut
  | .abort reason => some (.error (.aborted reason))

/-- What came before anything else was decided. -/
def arrived : List SocketEvent → Bytes
  | .connected :: es => arrived es
  | .data chunk :: es => chunk ++ arrived es
  | _ => []

/-- What happened first, but for what came. -/
def interrupts : List SocketEvent → Option SocketEvent
  | [] => none
  | .connected :: es | .data _ :: es => interrupts es
  | e :: _ => some e

/-- A word of an answer. -/
def IsWord (w : Str) : Prop := w ≠ [] ∧ ∀ c ∈ w, isWhiteSpace c = false

variable {isIP decode}

/-! ### An answer is words -/

theorem splitWhiteSpace_words {s : Str} (hs : s ≠ [])
    (hlast : ∀ c, s.getLast? = some c → isWhiteSpace c = false) :
    (∀ w ∈ splitWhiteSpace true s, IsWord w) ∧
      ∃ w ws, splitWhiteSpace false s = w :: ws ∧ (∀ c ∈ w, isWhiteSpace c = false) ∧
        (∀ w ∈ ws, IsWord w) ∧ ((∀ c, s.head? = some c → isWhiteSpace c = false) → w ≠ []) := by
  induction s with
  | nil => exact absurd rfl hs
  | cons c s ih =>
    cases s with
    | nil =>
      have hc := hlast c rfl
      have hone : ∀ gap, splitWhiteSpace gap [c] = [[c]] := by
        intro gap
        rw [splitWhiteSpace, if_neg (by rw [hc]; exact Bool.false_ne_true)]
        rfl
      have hword : IsWord [c] := by
        refine ⟨List.cons_ne_nil _ _, fun d hd => ?_⟩
        rw [List.mem_singleton.mp hd]
        exact hc
      rw [hone, hone]
      refine ⟨fun w hw => List.mem_singleton.mp hw ▸ hword, [c], [], rfl, hword.2, ?_, ?_⟩
      · exact fun w hw => absurd hw List.not_mem_nil
      · exact fun _ => hword.1
    | cons d s =>
      obtain ⟨htrue, w, ws, hfalse, hw, hws, -⟩ := ih (List.cons_ne_nil _ _) fun e he =>
        hlast e (by rw [List.getLast?_cons_cons]; exact he)
      by_cases hc : isWhiteSpace c = true
      · have hgap : splitWhiteSpace true (c :: d :: s) = splitWhiteSpace true (d :: s) := by
          rw [splitWhiteSpace, if_pos hc, if_pos rfl]
        have hnew : splitWhiteSpace false (c :: d :: s) = [] :: splitWhiteSpace true (d :: s) := by
          rw [splitWhiteSpace, if_pos hc, if_neg Bool.false_ne_true]
        rw [hgap, hnew]
        refine ⟨htrue, [], _, rfl, ?_, htrue, fun hhead => ?_⟩
        · exact fun e he => absurd he List.not_mem_nil
        · exact absurd hc (Bool.eq_false_iff.mp (hhead c rfl))
      · have hsplit : ∀ gap, splitWhiteSpace gap (c :: d :: s) = (c :: w) :: ws := by
          intro gap
          rw [splitWhiteSpace, if_neg hc, hfalse]
        have hcw : ∀ e ∈ c :: w, isWhiteSpace e = false := by
          intro e he
          rcases List.mem_cons.mp he with rfl | he
          · exact Bool.eq_false_iff.mpr hc
          · exact hw e he
        rw [hsplit, hsplit]
        refine ⟨fun v hv => ?_, c :: w, ws, rfl, hcw, hws, fun _ => List.cons_ne_nil _ _⟩
        rcases List.mem_cons.mp hv with rfl | hv
        · exact ⟨List.cons_ne_nil _ _, hcw⟩
        · exact hws v hv

theorem head?_trim {s : Str} {c : UInt16} (h : (trim s).head? = some c) :
    isWhiteSpace c = false := by
  obtain ⟨t, ht⟩ : trim s <+: s.dropWhile isWhiteSpace := List.rdropWhile_prefix _ _
  have hhead : (s.dropWhile isWhiteSpace).head? = some c := by
    rw [← ht, List.head?_append, h]
    rfl
  have hnot := List.head?_dropWhile_not isWhiteSpace s
  rw [hhead] at hnot
  exact hnot

theorem getLast?_trim {s : Str} {c : UInt16} (h : (trim s).getLast? = some c) :
    isWhiteSpace c = false := by
  have hne : trim s ≠ [] := by
    intro he
    rw [he] at h
    cases h
  have hlast := List.rdropWhile_last_not isWhiteSpace (s.dropWhile isWhiteSpace) hne
  rw [List.getLast?_eq_some_getLast hne, Option.some.injEq] at h
  rw [← h]
  exact Bool.eq_false_iff.mpr hlast

theorem answerOf_words (bytes : Bytes) : ∀ w ∈ answerOf decode bytes, IsWord w := by
  intro w hw
  rw [answerOf] at hw
  split at hw
  · exact absurd hw List.not_mem_nil
  · rename_i hline
    obtain ⟨-, v, vs, hsplit, hv, hvs, hne⟩ :=
      splitWhiteSpace_words (s := trim (decode bytes)) (fun he => hline (Or.inl he))
        fun c hc => getLast?_trim hc
    rw [hsplit] at hw
    rcases List.mem_cons.mp hw with rfl | hw
    · exact ⟨hne fun c hc => head?_trim hc, hv⟩
    · exact hvs w hw

/-! ### In whatever chunks -/

namespace Lookup

theorem idxOf?_append (b c : Bytes) (x : UInt8) :
    (b ++ c).idxOf? x = (b.idxOf? x).or ((c.idxOf? x).map (· + b.length)) := List.findIdx?_append

/-- What is decided stays so, whatever else comes. -/
theorem verdict_append {s : Lookup} {b : Bytes} {outcome : Outcome}
    (h : s.verdict decode b = some outcome) (c : Bytes) :
    s.verdict decode (b ++ c) = some outcome := by
  rw [verdict] at h ⊢
  rw [idxOf?_append]
  cases hidx : b.idxOf? lineFeed with
  | some i =>
    have hlt : i < b.length := (List.findIdx?_eq_some_iff_getElem.mp hidx).1
    have hor : (some i).or ((c.idxOf? lineFeed).map (· + b.length)) = some i := Option.some_or
    rw [hidx] at h
    rw [hor]
    by_cases hi : i < maxDiscoveryResponse
    · have hkept : (some i).filter (fun i => decide (i < maxDiscoveryResponse)) = some i :=
        Option.filter_some_pos (decide_eq_true hi)
      rw [hkept] at h ⊢
      dsimp only at h ⊢
      rw [List.take_append_of_le_length (Nat.le_of_lt hlt)]
      exact h
    · have hdropped : (some i).filter (fun i => decide (i < maxDiscoveryResponse)) = none :=
        Option.filter_some_neg (by simpa using hi)
      rw [hdropped] at h ⊢
      dsimp only at h ⊢
      rw [List.length_append]
      split at h
      · rw [if_pos (by omega)]
        exact h
      · cases h
  | none =>
    rw [hidx] at h
    dsimp only [Option.filter_none] at h
    split at h
    · rename_i hlong
      have hfar : ((none : Option Nat).or ((c.idxOf? lineFeed).map (· + b.length))).filter
          (fun i => decide (i < maxDiscoveryResponse)) = none := by
        rw [Option.none_or, Option.filter_eq_none_iff]
        intro i hi
        obtain ⟨j, -, rfl⟩ := Option.map_eq_some_iff.mp hi
        simp only [decide_eq_true_eq, not_lt]
        omega
      rw [hfar]
      dsimp only
      rw [List.length_append, if_pos (by omega)]
      exact h
    · cases h

/-- What decides nothing is short, and has no end. -/
theorem open_of_verdict {s : Lookup} {b : Bytes} (h : s.verdict decode b = none) :
    b.length < maxDiscoveryResponse ∧ lineFeed ∉ b := by
  rw [verdict] at h
  split at h
  · cases h
  · rename_i hnone
    split at h
    · cases h
    · rename_i hshort
      rw [not_le] at hshort
      refine ⟨hshort, fun hin => ?_⟩
      cases hidx : b.idxOf? lineFeed with
      | none => exact List.idxOf?_eq_none_iff.mp hidx hin
      | some i =>
        have hlt : i < b.length := (List.findIdx?_eq_some_iff_getElem.mp hidx).1
        have hkept : (some i).filter (fun i => decide (i < maxDiscoveryResponse)) = some i :=
          Option.filter_some_pos (decide_eq_true (lt_trans hlt hshort))
        rw [hidx, hkept] at hnone
        cases hnone

theorem handleData_eq {s : Lookup} {bytes : Bytes} (hs : s.state = .reading bytes)
    (chunk : Bytes) : s.handleData decode bytes chunk =
      { s with
        state :=
          match s.verdict decode (bytes ++ chunk) with
          | some outcome => .settled outcome
          | none => .reading (bytes ++ chunk) } := by
  rw [handleData, verdict]
  split
  · rw [finish, hs]
  · split
    · rw [finish, hs]
    · rfl

/-- What has no more listeners stays as it is. -/
theorem run_of_settled {s : Lookup} {outcome : Outcome} (hs : s.state = .settled outcome)
    (es : List SocketEvent) : run (step decode) s es = s := by
  refine run_invariant (I := fun t => t = s) (fun t e ht => ?_) es rfl
  rw [ht, step, hs]

/-- Only the timer is left, of a socket that was not made. -/
theorem run_of_unmade {s : Lookup} {thrown : Bool} (hs : s.state = .unmade thrown)
    (es : List SocketEvent) :
    (run (step decode) s es).state = .unmade (thrown || decide (.timer ∈ es)) := by
  induction es generalizing s thrown with
  | nil => simp [hs]
  | cons e es ih =>
    rw [run_cons]
    by_cases he : e = .timer
    · have hstep : (s.step decode e).state = .unmade true := by
        rw [step, hs]
        dsimp only
        rw [if_pos he, finish, hs]
      rw [ih hstep, he]
      simp
    · have hstep : s.step decode e = s := by
        rw [step, hs]
        exact if_neg he
      rw [hstep, ih hs]
      simp [Ne.symm he]

/-- From what came so far and decides nothing. -/
theorem run_of_reading {s : Lookup} {bytes : Bytes} (hs : s.state = .reading bytes)
    (hb : s.verdict decode bytes = none) (es : List SocketEvent) :
    (run (step decode) s es).state =
      match (s.verdict decode (bytes ++ arrived es)).or
        ((interrupts es).bind (SocketEvent.outcome decode s (bytes ++ arrived es))) with
      | some outcome => .settled outcome
      | none => .reading (bytes ++ arrived es) := by
  induction es generalizing s bytes with
  | nil =>
    have hnone : arrived [] = [] := rfl
    rw [hnone, List.append_nil, hb]
    exact hs
  | cons e es ih =>
    -- anything else settles it, and what came before decided nothing
    have hother : ∀ o, s.step decode e = s.finish o → arrived (e :: es) = [] →
        interrupts (e :: es) = some e → SocketEvent.outcome decode s bytes e = some o →
        (run (step decode) s (e :: es)).state =
          match (s.verdict decode (bytes ++ arrived (e :: es))).or ((interrupts (e :: es)).bind
            (SocketEvent.outcome decode s (bytes ++ arrived (e :: es)))) with
          | some outcome => .settled outcome
          | none => .reading (bytes ++ arrived (e :: es)) := by
      intro o hstep harrived hinterrupts ho
      have hdone : (s.finish o).state = .settled o := by rw [finish, hs]
      rw [run_cons, hstep, run_of_settled hdone, harrived, hinterrupts, List.append_nil, hb,
        Option.none_or, Option.bind_some, ho]
      exact hdone
    have hreading : ∀ e, s.step decode e =
        match e with
        | .connected => { s with written := s.host ++ [0x0A] }
        | .data chunk => s.handleData decode bytes chunk
        | .ends => s.finish (.ok (answerOf decode bytes))
        | .error n => s.finish (.error (.socket n))
        | .timeout | .timer => s.finish s.timedOut
        | .abort reason => s.finish (.error (.aborted reason)) := by
      intro e
      rw [step, hs]
    cases e with
    | connected =>
      rw [run_cons, hreading]
      exact ih (s := { s with written := s.host ++ [0x0A] }) hs hb
    | data chunk =>
      rw [run_cons, hreading]
      dsimp only
      rw [handleData_eq hs, arrived, interrupts, ← List.append_assoc]
      cases hv : s.verdict decode (bytes ++ chunk) with
      | none => exact ih (s := { s with state := .reading (bytes ++ chunk) }) rfl hv
      | some o =>
        have hdone : ({ s with state := .settled o } : Lookup).state = .settled o := rfl
        rw [run_of_settled hdone, verdict_append hv]
        rfl
    | ends => exact hother _ (hreading _) rfl rfl rfl
    | error n => exact hother _ (hreading _) rfl rfl rfl
    | timeout => exact hother _ (hreading _) rfl rfl rfl
    | timer => exact hother _ (hreading _) rfl rfl rfl
    | abort reason => exact hother _ (hreading _) rfl rfl rfl

theorem start_cases (isIP : Str → Nat) (signal : Option AbortReason) (server host : Str) :
    (∃ reason, signal = some reason ∧
        (start isIP signal server host).state = .settled (.error (.aborted reason))) ∨
      (signal = none ∧ 65535 < targetPort isIP server ∧
        (start isIP signal server host).state = .unmade false) ∨
      signal = none ∧ ¬65535 < targetPort isIP server ∧
        (start isIP signal server host).state = .reading [] := by
  cases signal with
  | some reason => exact Or.inl ⟨reason, rfl, rfl⟩
  | none =>
    by_cases hport : 65535 < targetPort isIP server
    · exact Or.inr (Or.inl ⟨rfl, hport, if_pos hport⟩)
    · exact Or.inr (Or.inr ⟨rfl, hport, if_neg hport⟩)

theorem words_of_verdict {s : Lookup} {bytes : Bytes} {entries : List Str}
    (h : s.verdict decode bytes = some (.ok entries)) : ∀ w ∈ entries, IsWord w := by
  rw [verdict] at h
  split at h
  · cases h
    exact answerOf_words _
  · split at h
    · cases h
    · cases h

theorem words_of_outcome {s : Lookup} {bytes : Bytes} {e : SocketEvent} {entries : List Str}
    (h : e.outcome decode s bytes = some (.ok entries)) : ∀ w ∈ entries, IsWord w := by
  cases e with
  | ends =>
    cases h
    exact answerOf_words _
  | connected => cases h
  | data chunk => cases h
  | error n => cases h
  | timeout => cases h
  | timer => cases h
  | abort reason => cases h

/-- **A TSDNS server's answer reads the same in whatever chunks it comes**: as the words of its
first line, if that ends within the bound, or of what there is when the connection ends; past the
bound it is an error, and whatever else happens first decides.  What is held of an answer that is
still read is below the bound.  Of a port that is none the promise is rejected, and when its timer
goes off it throws. -/
theorem lookupTSDNS_reads (isIP : Str → Nat) (decode : Bytes → Str) (signal : Option AbortReason)
    (server host : Str) (es : List SocketEvent) :
    let s := start isIP signal server host
    let s' := run (step decode) s es
    s'.outcome = s.outcome.or ((s.verdict decode (arrived es)).or
        ((interrupts es).bind (SocketEvent.outcome decode s (arrived es)))) ∧
      (∀ bytes, s'.state = .reading bytes →
        bytes = arrived es ∧ bytes.length < maxDiscoveryResponse ∧ lineFeed ∉ bytes) ∧
      (∀ entries, s'.outcome = some (.ok entries) → ∀ w ∈ entries, IsWord w) ∧
      (s'.state = .unmade true ↔
        signal = none ∧ 65535 < targetPort isIP server ∧ .timer ∈ es) := by
  intro s s'
  rcases start_cases isIP signal server host with ⟨reason, rfl, hs⟩ | ⟨rfl, hport, hs⟩ |
    ⟨rfl, hport, hs⟩
  · have hrun : s' = s := run_of_settled hs es
    have houtcome : s.outcome = some (.error (.aborted reason)) := by rw [outcome, hs]
    rw [hrun, houtcome, hs]
    exact ⟨rfl, fun _ h => (by cases h), fun _ h => (by cases h),
      ⟨fun h => (by cases h), fun h => (by cases h.1)⟩⟩
  · have hrun : s'.state = .unmade (false || decide (.timer ∈ es)) := run_of_unmade hs es
    have houtcome : s.outcome = some (.error .badPort) := by rw [outcome, hs]
    have houtcome' : s'.outcome = some (.error .badPort) := by rw [outcome, hrun]
    rw [houtcome, houtcome', hrun]
    refine ⟨rfl, fun _ h => (by cases h), fun _ h => (by cases h), ?_⟩
    simp [hport]
  · have hrun : (run (step decode) s es).state = _ := run_of_reading hs rfl es
    rw [List.nil_append] at hrun
    have hstate : s'.state = _ := hrun
    have houtcome : s.outcome = none := by rw [outcome, hs]
    have houtcome' : s'.outcome = (s.verdict decode (arrived es)).or
        ((interrupts es).bind (SocketEvent.outcome decode s (arrived es))) := by
      rw [outcome, hstate]
      split
      · rename_i h
        split at h
        · cases h
        · rename_i hnone
          exact hnone.symm
      · rename_i h
        split at h
        · rename_i hsome
          cases h
          exact hsome.symm
        · cases h
      · rename_i h
        split at h
        · cases h
        · cases h
    refine ⟨?_, fun bytes hbytes => ?_, fun entries hentries => ?_, ?_⟩
    · rw [houtcome', houtcome, Option.none_or]
    · rw [hstate] at hbytes
      split at hbytes
      · cases hbytes
      · rename_i hnone
        cases hbytes
        exact ⟨rfl, open_of_verdict (Option.or_eq_none_iff.mp hnone).1⟩
    · rw [houtcome', Option.or_eq_some_iff] at hentries
      rcases hentries with hv | ⟨-, he⟩
      · exact words_of_verdict hv
      · obtain ⟨e, -, he⟩ := Option.bind_eq_some_iff.mp he
        exact words_of_outcome he
    · constructor
      · intro h
        rw [hstate] at h
        split at h
        · cases h
        · cases h
      · exact fun h => absurd h.2.1 hport

end Lookup

end

end Teamspeak.Client
