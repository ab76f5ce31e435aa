import Teamspeak.Client.Crypto.Base64
import Teamspeak.Client.Discovery.Address
import Teamspeak.Lib.BigEndian
import Teamspeak.Lib.Wildcard

/-!
# Known hosts

`knownhosts.ts`: an OpenSSH `known_hosts` file, read for whether a key is the one a host is
recorded with.

* `wildcardMatch_iff`: the matcher, a loop that backs up to the last `*`, says what a pattern
  means.
* `names_iff`: a host field names what some pattern matches and no negated one does.
* `verify_iff`: the keys that are accepted; `verify_parse_iff`: the same of a file's lines.
* `knownHosts_law`: the two together.
-/

namespace Teamspeak.Query

open Teamspeak.Client (stripBrackets trim fromBase64 toBase64)

/-- What is node's or the language's own: `toLowerCase`, `JSON.stringify` of a text, the digest of
`createHmac("sha1", salt).update(address)`, and SHA-256. -/
structure Platform where
  toLowerCase : Str → Str
  stringify : Str → Str
  hmacSha1 : Bytes → Str → Bytes
  sha256 : Bytes → Bytes

structure PresentedHostKey where
  host : Str
  port : Nat
  key : Bytes
  keyType : Str
  fingerprint : Str

def asterisk : UInt16 := unit '*'
def question : UInt16 := unit '?'

/-! ### Wildcards -/

/-- The variables of the matcher's loop: indices into the pattern and the text, where the last `*`
stands, and where the text it was followed from starts. -/
structure Scan (pattern text : Str) where
  p : Nat
  t : Nat
  star : Option Nat
  resume : Nat
  p_le : p ≤ pattern.length
  resume_le : resume ≤ t
  star_lt : ∀ s ∈ star, s < pattern.length

variable {pattern text : Str}

/-- One turn of the loop; `none` is `return false`. -/
def Scan.step (s : Scan pattern text) (ht : s.t < text.length) : Option (Scan pattern text) :=
  if hstar : pattern[s.p]? = some asterisk then
    have hp := (List.getElem?_eq_some_iff.mp hstar).1
    some ⟨s.p + 1, s.t, some s.p, s.t, hp, le_rfl, fun _ h => Option.some.inj h ▸ hp⟩
  else if hsame : pattern[s.p]? = some question ∨ pattern[s.p]? = some text[s.t] then
    have hp := hsame.elim (fun h => (List.getElem?_eq_some_iff.mp h).1)
      fun h => (List.getElem?_eq_some_iff.mp h).1
    some ⟨s.p + 1, s.t + 1, s.star, s.resume, hp, Nat.le_succ_of_le s.resume_le, s.star_lt⟩
  else
    s.star.attach.map fun star =>
      ⟨star.1 + 1, s.resume + 1, s.star, s.resume + 1, s.star_lt star.1 star.2, le_rfl, s.star_lt⟩

/-- A turn goes on in the pattern, or the text is followed from further on. -/
theorem Scan.step_lt {s s' : Scan pattern text} {ht : s.t < text.length}
    (h : s.step ht = some s') : s.resume < s'.resume ∨ (s.resume = s'.resume ∧ s.p < s'.p) := by
  rw [Scan.step] at h
  by_cases hstar : pattern[s.p]? = some asterisk
  · rw [dif_pos hstar] at h
    obtain rfl := Option.some.inj h
    exact (Nat.lt_or_eq_of_le s.resume_le).imp_right fun h => ⟨h, Nat.lt_succ_self _⟩
  rw [dif_neg hstar] at h
  by_cases hsame : pattern[s.p]? = some question ∨ pattern[s.p]? = some text[s.t]
  · rw [dif_pos hsame] at h
    obtain rfl := Option.some.inj h
    exact Or.inr ⟨rfl, Nat.lt_succ_self _⟩
  · rw [dif_neg hsame] at h
    obtain ⟨star, -, rfl⟩ := Option.map_eq_some_iff.mp h
    exact Or.inl (Nat.lt_succ_self _)

/-- The matcher's loop, and what is looked at after it. -/
def Scan.loop (s : Scan pattern text) : Bool :=
  if ht : s.t < text.length then
    match _h : s.step ht with
    | some s' => s'.loop
    | none => false
  else (pattern.drop s.p).dropWhile (· = asterisk) = []
  termination_by (text.length - s.resume, pattern.length - s.p)
  decreasing_by
    have hlt := Scan.step_lt _h
    have hresume := s.resume_le
    have hp := s'.p_le
    rw [Prod.lex_def]
    rcases hlt with hlt | ⟨he, hlt⟩
    · exact Or.inl (by dsimp only; omega)
    · exact Or.inr ⟨by dsimp only; omega, by dsimp only; omega⟩

def wildcardMatch (pattern text : Str) : Bool :=
  Scan.loop (⟨0, 0, none, 0, Nat.zero_le _, le_rfl, fun _ h => absurd h (Option.not_mem_none _)⟩ :
    Scan pattern text)

theorem question_ne_asterisk : question ≠ asterisk := by decide

/-- What the pattern matches. -/
abbrev Means : Str → Str → Prop := Wild asterisk question

/-- **The loop's invariant**: what is left to match, with the last `*` and the piece of the pattern
that has been matched since. -/
inductive Scan.Sound (s : Scan pattern text) : Prop
  | fresh (hstar : s.star = none)
      (h : Means pattern text ↔ Means (pattern.drop s.p) (text.drop s.t))
  | backed (i : Nat) (hstar : s.star = some i) {piece found : Str}
      (hpiece : pattern.drop (i + 1) = piece ++ pattern.drop s.p)
      (hfound : text.drop s.resume = found ++ text.drop s.t)
      (hplain : Plain asterisk question piece found)
      (h : Means pattern text ↔
        Means (asterisk :: (piece ++ pattern.drop s.p)) (found ++ text.drop s.t))

theorem drop_of_getElem? {l : Str} {i : Nat} {c : UInt16} (h : l[i]? = some c) :
    l.drop i = c :: l.drop (i + 1) := by
  obtain ⟨hi, rfl⟩ := List.getElem?_eq_some_iff.mp h
  exact List.drop_eq_getElem_cons hi

/-- Where neither a `*` nor the next character stands, the pattern cannot go on. -/
theorem not_means_of_mismatch {i : Nat} {d : UInt16} {rest : Str}
    (hstar : pattern[i]? ≠ some asterisk)
    (hsame : ¬(pattern[i]? = some question ∨ pattern[i]? = some d)) :
    ¬ Means (pattern.drop i) (d :: rest) := by
  intro h
  cases hc : pattern[i]? with
  | none =>
    rw [List.drop_eq_nil_of_le (List.getElem?_eq_none_iff.mp hc)] at h
    exact List.cons_ne_nil _ _ (wild_nil_iff.mp h)
  | some c =>
    rw [hc] at hstar hsame
    rw [drop_of_getElem? hc] at h
    obtain ⟨hfits, -⟩ := (wild_cons_iff fun he => hstar (congrArg some he)).mp h
    exact hsame (hfits.2.imp (congrArg some) (congrArg some))

theorem Scan.Sound.step {s s' : Scan pattern text} {ht : s.t < text.length} (hs : s.Sound)
    (h : s.step ht = some s') : s'.Sound := by
  have htext : text.drop s.t = text[s.t] :: text.drop (s.t + 1) := List.drop_eq_getElem_cons ht
  rw [Scan.step] at h
  by_cases hstar : pattern[s.p]? = some asterisk
  · -- a new run: the piece since the last one stays where it was found
    rw [dif_pos hstar] at h
    obtain rfl := Option.some.inj h
    have hdrop := drop_of_getElem? hstar
    refine .backed s.p rfl (List.nil_append _).symm (List.nil_append _).symm .nil ?_
    rw [List.nil_append, List.nil_append]
    cases hs with
    | fresh _ hs => rw [hs, hdrop]
    | backed i _ _ _ hplain hs =>
      rw [hs, hdrop]
      exact wild_star_star question_ne_asterisk hplain
  rw [dif_neg hstar] at h
  by_cases hsame : pattern[s.p]? = some question ∨ pattern[s.p]? = some text[s.t]
  · rw [dif_pos hsame] at h
    obtain rfl := Option.some.inj h
    obtain ⟨c, hc⟩ : ∃ c, pattern[s.p]? = some c := hsame.elim (fun h => ⟨_, h⟩) fun h => ⟨_, h⟩
    have hne : c ≠ asterisk := fun he => hstar (he ▸ hc)
    have hfits : Fits asterisk question c text[s.t] := by
      rw [hc] at hsame
      exact ⟨hne, hsame.imp Option.some.inj Option.some.inj⟩
    have hdrop := drop_of_getElem? hc
    cases hs with
    | fresh hnone hs =>
      refine .fresh hnone ?_
      rw [hs, hdrop, htext, Means, wild_cons_iff hne]
      exact and_iff_right hfits
    | backed i hsome hpiece hfound hplain hs =>
      rename_i piece found
      have hpiece' : pattern.drop (i + 1) = (piece ++ [c]) ++ pattern.drop (s.p + 1) := by
        rw [hpiece, hdrop, List.append_assoc, List.singleton_append]
      have hfound' : text.drop s.resume = (found ++ [text[s.t]]) ++ text.drop (s.t + 1) := by
        rw [hfound, htext, List.append_assoc, List.singleton_append]
      refine .backed i hsome hpiece' hfound' (List.rel_append hplain (.cons hfits .nil)) ?_
      rw [hs, ← hpiece, ← hfound, hpiece', hfound']
  · -- back to the last run, which takes in one character more
    rw [dif_neg hsame] at h
    obtain ⟨⟨i, hi⟩, -, rfl⟩ := Option.map_eq_some_iff.mp h
    cases hs with
    | fresh hnone _ => exact absurd (hnone.symm.trans hi) (Option.some_ne_none i).symm
    | backed j hsome hpiece hfound hplain hs =>
      obtain rfl : j = i := Option.some.inj (hsome.symm.trans hi)
      have hresume := drop_of_getElem? (List.getElem?_eq_getElem (s.resume_le.trans_lt ht))
      refine .backed j hsome (List.nil_append _).symm (List.nil_append _).symm .nil ?_
      rw [hs, List.nil_append, List.nil_append, hpiece, ← hfound, hresume]
      refine wild_star_retry question_ne_asterisk hplain (hresume.symm.trans hfound) ?_
      rw [htext]
      exact not_means_of_mismatch hstar hsame

/-- Without a last `*` to go back to nothing matches. -/
theorem Scan.Sound.not_means {s : Scan pattern text} {ht : s.t < text.length} (hs : s.Sound)
    (h : s.step ht = none) : ¬ Means pattern text := by
  rw [Scan.step] at h
  by_cases hstar : pattern[s.p]? = some asterisk
  · rw [dif_pos hstar] at h
    exact absurd h (Option.some_ne_none _)
  rw [dif_neg hstar] at h
  by_cases hsame : pattern[s.p]? = some question ∨ pattern[s.p]? = some text[s.t]
  · rw [dif_pos hsame] at h
    exact absurd h (Option.some_ne_none _)
  rw [dif_neg hsame] at h
  have hnone : s.star = none := by simpa using h
  cases hs with
  | fresh _ hs =>
    rw [hs, List.drop_eq_getElem_cons ht]
    exact not_means_of_mismatch hstar hsame
  | backed i hsome => exact absurd (hnone.symm.trans hsome) (Option.some_ne_none i).symm

/-- After the text, what is left of the pattern has to be runs. -/
theorem Scan.Sound.at_end {s : Scan pattern text} (hs : s.Sound) (ht : ¬ s.t < text.length) :
    (pattern.drop s.p).dropWhile (· = asterisk) = [] ↔ Means pattern text := by
  have hnil : text.drop s.t = [] := List.drop_eq_nil_of_le (Nat.le_of_not_lt ht)
  have hstars : (pattern.drop s.p).dropWhile (· = asterisk) = [] ↔
      Means (pattern.drop s.p) [] := by
    rw [Means, wild_to_nil_iff question_ne_asterisk, List.dropWhile_eq_nil_iff]
    simp
  rw [hstars]
  cases hs with
  | fresh _ hs => rw [hs, hnil]
  | backed i _ _ _ hplain hs =>
    rw [hs, hnil, List.append_nil]
    exact (wild_star_end question_ne_asterisk hplain).symm

theorem Scan.Sound.loop {s : Scan pattern text} (hs : s.Sound) :
    s.loop = true ↔ Means pattern text := by
  induction s using Scan.loop.induct with
  | case1 s ht s' h ih =>
    rw [Scan.loop, dif_pos ht]
    split
    · next h' =>
      obtain rfl := Option.some.inj (h.symm.trans h')
      exact ih (hs.step h)
    · next h' => exact absurd (h.symm.trans h') (Option.some_ne_none _)
  | case2 s ht h =>
    rw [Scan.loop, dif_pos ht]
    split
    · next h' => exact absurd (h.symm.trans h') (Option.some_ne_none _).symm
    · exact iff_of_false Bool.false_ne_true (hs.not_means h)
  | case3 s ht =>
    rw [Scan.loop, dif_neg ht, decide_eq_true_eq]
    exact hs.at_end ht

/-- **The matcher says what a pattern means**: `*` any run of characters, `?` any one. -/
theorem wildcardMatch_means (pattern text : Str) :
    wildcardMatch pattern text = true ↔ Means pattern text :=
  Scan.Sound.loop (.fresh rfl Iff.rfl)

/-! ### Host fields -/

/-- One pattern of a host field. -/
structure HostPattern where
  negated : Bool
  pattern : Str
  deriving DecidableEq

/-- What a line's host field was read as. -/
inductive HostMatcher
  | hashed (salt hash : Bytes)
  | patterns (l : List HostPattern)
  deriving DecidableEq

/-- `/^[A-Za-z0-9+/]+={0,2}$/`. -/
def looksBase64 (s : Str) : Bool :=
  let front := s.takeWhile fun c => Str.isAlphanumeric c ∨ c = unit '+' ∨ c = unit '/'
  let back := s.drop front.length
  front ≠ [] ∧ back.all (· = equalSign) ∧ back.length ≤ 2

def decodeBase64 (s : Str) : Option Bytes :=
  if looksBase64 s ∧ toBase64 (fromBase64 s) = s then some (fromBase64 s) else none

def hashedMatcher (field : Str) : Option HostMatcher :=
  match field.splitOn pipe with
  | [_, kind, salt, hash] =>
    if kind = Str.of "1" then do
      let salt ← decodeBase64 salt
      let hash ← decodeBase64 hash
      some (.hashed salt hash)
    else none
  | _ => none

variable (P : Platform)

/-- The loop over the items of a host field; `none` is an item that is a `!` only. -/
def readPatterns : List Str → Option (List HostPattern)
  | [] => some []
  | item :: items =>
    if item = [] then readPatterns items
    else
      let negated := item.head? = some (unit '!')
      let pattern := P.toLowerCase (if negated then item.tail else item)
      if pattern = [] then none else (readPatterns items).map (⟨negated, pattern⟩ :: ·)

def patternMatcher (field : Str) : Option HostMatcher :=
  match readPatterns P (field.splitOn (unit ',')) with
  | none => none
  | some [] => none
  | some (first :: rest) => some (.patterns (first :: rest))

/-- The loop over the patterns. -/
def matchPatterns (address : Str) : List HostPattern → Bool → Bool
  | [], matched => matched
  | p :: rest, matched =>
    if ¬ wildcardMatch p.pattern address then matchPatterns address rest matched
    else if p.negated then false
    else matchPatterns address rest true

def HostMatcher.accepts (hosts : HostMatcher) (address : Str) : Bool :=
  match hosts with
  | .hashed salt hash => P.hmacSha1 salt address = hash
  | .patterns l => matchPatterns address l false

/-- **What a host field names**: the address whose hash it is, or every address that some pattern
matches and no negated one does. -/
def HostMatcher.Names (hosts : HostMatcher) (address : Str) : Prop :=
  match hosts with
  | .hashed salt hash => P.hmacSha1 salt address = hash
  | .patterns l =>
    (∃ p ∈ l, p.negated = false ∧ Means p.pattern address) ∧
      ∀ p ∈ l, p.negated = true → ¬ Means p.pattern address

theorem matchPatterns_iff (address : Str) (l : List HostPattern) (matched : Bool) :
    matchPatterns address l matched = true ↔
      (matched = true ∨ ∃ p ∈ l, p.negated = false ∧ Means p.pattern address) ∧
        ∀ p ∈ l, p.negated = true → ¬ Means p.pattern address := by
  induction l generalizing matched with
  | nil => simp [matchPatterns]
  | cons p l ih =>
    have hmeans := wildcardMatch_means p.pattern address
    rw [matchPatterns, List.forall_mem_cons, List.exists_mem_cons_iff, ← hmeans]
    by_cases hmatch : wildcardMatch p.pattern address = true
    · rw [if_neg (not_not.mpr hmatch)]
      cases hnegated : p.negated with
      | true => simp [hmatch]
      | false => simp [hmatch, ih]
    · rw [if_pos hmatch, ih]
      simp [hmatch]

theorem names_iff (address : Str) (hosts : HostMatcher) :
    hosts.accepts P address = true ↔ hosts.Names P address := by
  cases hosts with
  | hashed salt hash => exact decide_eq_true_iff
  | patterns l =>
    rw [HostMatcher.accepts, HostMatcher.Names, matchPatterns_iff]
    simp

/-! ### Keys and addresses -/

def fingerprintOf (key : Bytes) : Str :=
  .of "SHA256:" ++ (toBase64 (P.sha256 key)).rdropWhile (· = equalSign)

/-- The algorithm that a key's encoding names; `none` is the throw. -/
def keyTypeOf (key : Bytes) : Option Str :=
  if 4 ≤ key.length then
    let length := BigEndian.value (key.take 4)
    if 0 < length ∧ length ≤ key.length - 4 then
      some (((key.drop 4).take length).map fun b => UInt16.ofNat b.toNat)
    else none
  else none

def defaultPort : Nat := 22

def addressOf (host : Str) (port : Nat) : Str :=
  let name := P.toLowerCase (stripBrackets host)
  if port = defaultPort then name else .of "[" ++ name ++ .of "]:" ++ Str.ofNat port

structure Entry where
  line : Nat
  hosts : HostMatcher
  keyType : Str
  key : Bytes
  deriving DecidableEq

structure KnownHosts where
  source : Str
  entries : List Entry
  revoked : List Entry
  deriving DecidableEq

/-! ### Reading a file -/

/-- `text.split(/\r?\n/)`: every line but the last loses one return. -/
def splitLines (text : Str) : List Str :=
  let lines := text.splitOn 0x0A
  lines.dropLast.map (fun l => if l.getLast? = some 0x0D then l.dropLast else l) ++
    lines.getLast?.toList

/-- `line.split(/[ \t]+/)`, of a line that was trimmed. -/
def fieldsOf (line : Str) : List Str :=
  (line.splitOnP fun c => c = 0x20 ∨ c = 0x09).filter fun field => field ≠ []

/-- What a line of the file is. -/
inductive LineReading
  | nothing
  | entry (e : Entry)
  | revoked (e : Entry)

def revokedMarker : Str := .of "@revoked"
def certAuthorityMarker : Str := .of "@cert-authority"

/-- A line that is neither blank nor a comment, by its number. -/
def readFields (source : Str) (number : Nat) (fields : List Str) : Except Str LineReading :=
  let place : Str := source ++ unit ':' :: Str.ofNat number
  let marker := fields.head?.filter fun field => field.head? = some (unit '@')
  let fields := if marker.isSome then fields.tail else fields
  if marker.isSome ∧ marker ≠ some revokedMarker ∧ marker ≠ some certAuthorityMarker then
    .error (place ++ .of ": unknown marker " ++ P.stringify (marker.getD []))
  else
    match fields with
    | hostField :: keyType :: encoded :: _ =>
      match decodeBase64 encoded with
      | none => .error (place ++ .of ": the key is not valid base64")
      | some key =>
        match keyTypeOf key with
        | none => .error (place ++ .of ": the key is not a valid SSH public key encoding")
        | some named =>
          if named ≠ keyType then
            .error (place ++ .of ": the key is " ++ named ++ .of ", but the line says " ++ keyType)
          else
            match if hostField.head? = some pipe then hashedMatcher hostField
              else patternMatcher P hostField with
            | none => .error (place ++ .of ": cannot read the host " ++ P.stringify hostField)
            | some hosts =>
              let entry : Entry := ⟨number, hosts, keyType, key⟩
              .ok (if marker = some revokedMarker then .revoked entry
                else if marker = none then .entry entry
                else .nothing)
    | _ => .error (place ++ .of ": expected a host, a key type and a key")

def readLine (source : Str) (number : Nat) (raw : Str) : Except Str LineReading :=
  let line := trim raw
  if line = [] ∨ line.head? = some (unit '#') then .ok .nothing
  else readFields P source number (fieldsOf line)

/-- The loop over the lines. -/
def readLines (source : Str) (known : KnownHosts) : Nat → List Str → Except Str KnownHosts
  | _, [] => .ok known
  | number, raw :: lines =>
    match readLine P source number raw with
    | .error message => .error message
    | .ok .nothing => readLines source known (number + 1) lines
    | .ok (.entry e) =>
      readLines source { known with entries := known.entries ++ [e] } (number + 1) lines
    | .ok (.revoked e) =>
      readLines source { known with revoked := known.revoked ++ [e] } (number + 1) lines

def KnownHosts.parse (text source : Str) : Except Str KnownHosts :=
  readLines P source ⟨source, [], []⟩ 1 (splitLines text)

/-! ### Verifying -/

def verify (known : KnownHosts) (presented : PresentedHostKey) : Except Str Unit :=
  let label := presented.keyType ++ .of " " ++ presented.fingerprint
  match known.revoked.find? fun entry => entry.key = presented.key with
  | some revoked =>
    .error (.of "the host key " ++ label ++ .of " is revoked in " ++ known.source ++ .of ":" ++
      Str.ofNat revoked.line ++ .of ", so it is not accepted from any host")
  | none =>
    let address := addressOf P presented.host presented.port
    let recorded := known.entries.filter fun entry => entry.hosts.accepts P address
    if recorded.length = 0 then
      .error (address ++ .of " is not in " ++ known.source ++ .of "; its key " ++ label ++
        .of " has to be added before connecting")
    else if recorded.any fun entry => entry.key = presented.key then .ok ()
    else
      let described := recorded.map fun entry =>
        entry.keyType ++ .of " " ++ fingerprintOf P entry.key ++ .of " (line " ++
          Str.ofNat entry.line ++ .of ")"
      .error (address ++ .of " presented " ++ label ++ .of ", but " ++ known.source ++
        .of " records " ++ (Str.of ", ").intercalate described ++
        .of ": the server's key changed, or something else is answering this port")

variable {P}

/-- **The keys that are accepted**: no revoked entry carries the key, whatever hosts it names, and
an entry whose host field names the address records it. -/
theorem verify_iff (P : Platform) (known : KnownHosts) (presented : PresentedHostKey) :
    verify P known presented = .ok () ↔
      (∀ e ∈ known.revoked, e.key ≠ presented.key) ∧
        ∃ e ∈ known.entries, e.hosts.Names P (addressOf P presented.host presented.port) ∧
          e.key = presented.key := by
  rw [verify]
  cases hfind : known.revoked.find? fun entry => entry.key = presented.key with
  | some revoked =>
    simp only
    refine iff_of_false (fun h => by cases h) fun h => ?_
    exact h.1 revoked (List.mem_of_find?_eq_some hfind) (by simpa using List.find?_some hfind)
  | none =>
    simp only
    have hrevoked : ∀ e ∈ known.revoked, e.key ≠ presented.key := fun e he => by
      simpa using List.find?_eq_none.mp hfind e he
    rw [and_iff_right hrevoked]
    have hany : ((known.entries.filter fun entry => entry.hosts.accepts P
        (addressOf P presented.host presented.port)).any fun entry => entry.key = presented.key) =
          true ↔ ∃ e ∈ known.entries,
            e.hosts.Names P (addressOf P presented.host presented.port) ∧
              e.key = presented.key := by
      simp only [List.any_eq_true, List.mem_filter, names_iff, decide_eq_true_eq, and_assoc]
    rw [← hany]
    split_ifs with hempty hsome
    · rw [List.length_eq_zero_iff.mp hempty]
      exact iff_of_false (fun h => by cases h) Bool.false_ne_true
    · exact iff_of_true rfl hsome
    · exact iff_of_false (fun h => by cases h) hsome

/-- A line of a text, by what it was read as. -/
def HasLine (P : Platform) (source : Str) (number : Nat) (lines : List Str) (r : LineReading) :
    Prop :=
  ∃ i raw, lines[i]? = some raw ∧ readLine P source (number + i) raw = .ok r

theorem hasLine_cons {source : Str} {number : Nat} {raw : Str} {lines : List Str}
    {r : LineReading} :
    HasLine P source number (raw :: lines) r ↔
      readLine P source number raw = .ok r ∨ HasLine P source (number + 1) lines r := by
  constructor
  · rintro ⟨i, raw', hraw, h⟩
    cases i with
    | zero =>
      rw [List.getElem?_cons_zero, Option.some.injEq] at hraw
      exact Or.inl (hraw ▸ h)
    | succ i => exact Or.inr ⟨i, raw', hraw, by rwa [Nat.add_right_comm]⟩
  · rintro (h | ⟨i, raw', hraw, h⟩)
    · exact ⟨0, raw, rfl, h⟩
    · exact ⟨i + 1, raw', hraw, by rwa [← Nat.add_assoc, Nat.add_right_comm]⟩

theorem readLines_spec {source : Str} {known known' : KnownHosts} {number : Nat}
    {lines : List Str} (h : readLines P source known number lines = .ok known') (e : Entry) :
    (e ∈ known'.entries ↔ e ∈ known.entries ∨ HasLine P source number lines (.entry e)) ∧
      (e ∈ known'.revoked ↔ e ∈ known.revoked ∨ HasLine P source number lines (.revoked e)) := by
  induction lines generalizing known number with
  | nil =>
    rw [readLines, Except.ok.injEq] at h
    subst h
    simp [HasLine]
  | cons raw lines ih =>
    rw [hasLine_cons, hasLine_cons]
    rw [readLines] at h
    cases hline : readLine P source number raw with
    | error message => simp [hline] at h
    | ok r =>
      cases r with
      | nothing =>
        simp only [hline] at h
        simpa using ih h
      | entry e' =>
        simp only [hline] at h
        simpa [or_assoc, eq_comm] using ih h
      | revoked e' =>
        simp only [hline] at h
        simpa [or_assoc, eq_comm] using ih h

/-- The lines of a file decide: one that revokes the key refuses it, wherever it stands. -/
theorem verify_parse_iff {text source : Str} {known : KnownHosts}
    (h : KnownHosts.parse P text source = .ok known) (presented : PresentedHostKey) :
    verify P known presented = .ok () ↔
      (∀ e, HasLine P source 1 (splitLines text) (.revoked e) → e.key ≠ presented.key) ∧
        ∃ e, HasLine P source 1 (splitLines text) (.entry e) ∧
          e.hosts.Names P (addressOf P presented.host presented.port) ∧
            e.key = presented.key := by
  have hentry (e : Entry) := (readLines_spec h e).1
  have hrevoked (e : Entry) := (readLines_spec h e).2
  rw [verify_iff]
  simp only [hentry, hrevoked, List.not_mem_nil, false_or]

/-- **Patterns mean what they say, and a revoked key is refused from any host**: a key is accepted
exactly if no `@revoked` line carries it and a line that names the address does. -/
theorem knownHosts_law (P : Platform) (known : KnownHosts) (presented : PresentedHostKey) :
    (∀ pattern text, wildcardMatch pattern text = true ↔ Means pattern text) ∧
      (verify P known presented = .ok () ↔
        (∀ e ∈ known.revoked, e.key ≠ presented.key) ∧
          ∃ e ∈ known.entries, e.hosts.Names P (addressOf P presented.host presented.port) ∧
            e.key = presented.key) :=
  ⟨wildcardMatch_means, verify_iff P known presented⟩

/-- A file that revokes for another host the key it records for `new.example.com`. -/
def revokedElsewhere : Str :=
  .of "@revoked old.example.com ssh-ed25519 AAAAC3NzaC1lZDI1NTE5\n" ++
    .of "new.example.com ssh-ed25519 AAAAC3NzaC1lZDI1NTE5"

/-- The bytes of the key. -/
def revokedKey : Bytes := fromBase64 (.of "AAAAC3NzaC1lZDI1NTE5")

/-- The revoked line names another host than the one that is dialled, and the key is refused. -/
theorem verify_revoked_elsewhere :
    let P : Platform := ⟨id, id, fun _ _ => [], fun _ => []⟩
    let old : Entry :=
      ⟨1, .patterns [⟨false, .of "old.example.com"⟩], .of "ssh-ed25519", revokedKey⟩
    let new : Entry :=
      ⟨2, .patterns [⟨false, .of "new.example.com"⟩], .of "ssh-ed25519", revokedKey⟩
    let known : KnownHosts := ⟨.of "known_hosts", [new], [old]⟩
    let presented : PresentedHostKey :=
      ⟨.of "new.example.com", 22, revokedKey, .of "ssh-ed25519", .of "SHA256:"⟩
    let address := addressOf P presented.host presented.port
    KnownHosts.parse P revokedElsewhere (.of "known_hosts") = .ok known ∧
      ((∀ e ∈ known.revoked, e.hosts.Names P address → e.key ≠ presented.key) ∧
        ∃ e ∈ known.entries, e.hosts.Names P address ∧ e.key = presented.key) ∧
      verify P known presented ≠ .ok () := by
  intro P old new known presented address
  have hliteral (host : Str) (h : (host.all fun c => c ≠ asterisk ∧ c ≠ question) = true)
      (a : Str) : (HostMatcher.patterns [⟨false, host⟩]).Names P a ↔ host = a := by
    have hplain : ∀ c ∈ host, c ≠ asterisk ∧ c ≠ question :=
      fun c hc => of_decide_eq_true (List.all_eq_true.mp h c hc)
    simp [HostMatcher.Names, wild_literal_iff hplain]
  have hold := hliteral (.of "old.example.com") (by decide) address
  have hnew := hliteral (.of "new.example.com") (by decide) address
  refine ⟨by decide +kernel,
    ⟨?_, new, List.mem_singleton_self _, hnew.mpr (by decide +kernel), rfl⟩,
    by decide +kernel⟩
  intro e he hnames
  rw [List.mem_singleton.mp he] at hnames
  exact absurd (hold.mp hnames) (by decide +kernel)

end Teamspeak.Query
