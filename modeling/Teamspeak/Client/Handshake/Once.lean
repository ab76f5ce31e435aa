import Teamspeak.Client.Handshake

/-!
# One puzzle, one alpha, one answer

The Init1 packets are not authenticated, so what an attempt answers must not depend
on how many of them come, nor on when.

* `Once s`: the solves, the weak maps and what was sent of an attempt fit together:
  one solve at most holds the place of `solvingChallenges`, every answer there is is
  the one of `answeredChallenges`, and that one carries the only alpha drawn.
* `Once.step`: every event keeps it.
* `init1_once`: **along every run at most one challenge is solved, one answer is sent,
  one alpha drawn, and the session's keys derive from that alpha.**
-/

namespace Teamspeak.Client

open Transport (Cipher Crypt)

namespace Solve

/-- The squarings go on. -/
def isSolving : Solve → Bool
  | .solving .. => true
  | _ => false

/-- Its challenge is still in `solvingChallenges`. -/
def isOpen : Solve → Bool
  | .solving .. => true
  | .settled _ => true
  | _ => false

/-- The answer it has for the server. -/
def answer? : Solve → Option Bytes
  | .settled (.ok answer) => some answer
  | .released (.ok answer) => some answer
  | _ => none

end Solve

theorem countP_set_add {α : Type*} (p : α → Bool) {l : List α} {i : Nat} {a : α}
    (h : l[i]? = some a) (b : α) :
    (l.set i b).countP p + (if p a then 1 else 0) = l.countP p + if p b then 1 else 0 := by
  induction l generalizing i with
  | nil => cases h
  | cons x l ih =>
    cases i with
    | zero =>
      cases h
      rw [List.set_cons_zero, List.countP_cons, List.countP_cons]
      omega
    | succ i =>
      have := ih (i := i) h
      rw [List.set_cons_succ, List.countP_cons, List.countP_cons]
      omega

namespace Attempt

/-- An answer to the challenge of `answeredChallenges`, under the only alpha drawn. -/
def Answers (s : Attempt) (answered : Answered) : Prop :=
  ∃ y, solveRsaChallenge answered.challenge 1 (readUint32BE answered.challenge 129) = .ok y ∧
    s.drawn = [(answered.challenge, s.alpha)] ∧
      answered.answer = step4Answer s.publicKey answered.challenge y s.alpha

/-- What every run of an attempt keeps. -/
structure Once (s : Attempt) : Prop where
  one_open : s.solves.countP Solve.isOpen = if s.solvingChallenge.isSome then 1 else 0
  level : ∀ challenge level, .solving challenge level ∈ s.solves →
    level = readUint32BE challenge 129
  idle : s.answeredChallenge.isSome → ∀ solve ∈ s.solves, solve.isSolving = false
  held : ∀ solve ∈ s.solves, ∀ answer, solve.answer? = some answer →
    ∃ answered, s.answeredChallenge = some answered ∧ answered.answer = answer
  sent : ∀ packet ∈ s.sent, isStep4 packet →
    ∃ answered, s.answeredChallenge = some answered ∧ answered.answer = packet
  answers : ∀ answered, s.answeredChallenge = some answered → s.Answers answered
  undrawn : s.answeredChallenge = none → s.drawn = [] ∧ s.alpha = []

/-! ### The other packets -/

theorem not_isStep4_start (nowSec : Nat) (rng : Bytes) :
    isStep4 (buildInit1StartPacket nowSec rng) = false := rfl

theorem not_isStep4_of_step1 {data packet : Bytes} (h : buildInit1Step1Packet data = some packet) :
    isStep4 packet = false := by
  rw [buildInit1Step1Packet] at h
  split at h
  · cases h
  · cases h
    rfl

theorem not_isStep4_of_step2 {data packet : Bytes} (h : buildInit1Step2Packet data = some packet) :
    isStep4 packet = false := by
  rw [buildInit1Step2Packet] at h
  split at h
  · cases h
  · cases h
    rfl

theorem not_isStep4_of_step3 {data packet : Bytes} (h : buildInit1Step3Packet data = some packet) :
    isStep4 packet = false := by
  rw [buildInit1Step3Packet] at h
  split at h
  · cases h
  · cases h
    rfl

/-! ### One step -/

namespace Once

variable {s : Attempt}

/-- At most one solve runs. -/
theorem countP_isSolving_le (h : Once s) : s.solves.countP Solve.isSolving ≤ 1 := by
  have hmono : s.solves.countP Solve.isSolving ≤ s.solves.countP Solve.isOpen := by
    refine List.countP_mono_left fun solve _ hsolving => ?_
    cases solve with
    | solving => rfl
    | _ => cases hsolving
  rw [h.one_open] at hmono
  split at hmono <;> omega

theorem handleReceiveError (h : Once s) : Once s.handleReceiveError := by
  rw [Attempt.handleReceiveError]
  split
  · exact h
  · exact ⟨h.one_open, h.level, h.idle, h.held, h.sent, h.answers, h.undrawn⟩

/-- A packet that is no step-4 answer, or is the answer kept, may be sent. -/
theorem sendPacket (h : Once s) {packet : Bytes}
    (hp : isStep4 packet → ∃ answered, s.answeredChallenge = some answered ∧
      answered.answer = packet) : Once (s.sendPacket packet) := by
  refine ⟨h.one_open, h.level, h.idle, h.held, fun p hmem hstep => ?_, h.answers, h.undrawn⟩
  rcases List.mem_append.mp hmem with hmem | hmem
  · exact h.sent p hmem hstep
  · rw [List.mem_singleton] at hmem
    subst hmem
    exact hp hstep

theorem reply (h : Once s) {packet : Option Bytes}
    (hp : ∀ p, packet = some p → isStep4 p → ∃ answered, s.answeredChallenge = some answered ∧
      answered.answer = p) : Once (s.reply packet) := by
  cases packet with
  | none => exact h
  | some p => exact h.sendPacket (hp p rfl)

/-- A solve may begin where none is open and nothing is answered. -/
theorem begin (h : Once s) (data : Bytes) (ha : s.answeredChallenge = none)
    (hsolving : s.solvingChallenge = none) :
    Once { s with
      solvingChallenge := some data
      solves := s.solves ++ [.solving data (readUint32BE data 129)] } := by
  have hopen := h.one_open
  rw [hsolving] at hopen
  refine ⟨?_, ?_, ?_, ?_, h.sent, h.answers, h.undrawn⟩
  · rw [List.countP_append, hopen]
    rfl
  · intro challenge level hmem
    rcases List.mem_append.mp hmem with hmem | hmem
    · exact h.level challenge level hmem
    · cases List.mem_singleton.mp hmem
      rfl
  · intro hsome
    dsimp only at hsome
    rw [ha] at hsome
    cases hsome
  · intro solve hmem answer hanswer
    rcases List.mem_append.mp hmem with hmem | hmem
    · exact h.held solve hmem answer hanswer
    · cases List.mem_singleton.mp hmem
      cases hanswer

theorem buildInit1Step4Packet (h : Once s) (data : Bytes) :
    Once (s.buildInit1Step4Packet data) := by
  rw [Attempt.buildInit1Step4Packet]
  split
  · exact h
  split
  · rename_i answered ha
    refine h.reply fun p hp _ => ⟨answered, ha, ?_⟩
    split at hp
    · exact Option.some.inj hp
    · cases hp
  · rename_i ha
    split
    · exact h
    rename_i hsolving
    dsimp only
    split
    · exact h.handleReceiveError
    · exact h.begin data ha (by simpa using hsolving)

theorem handlePacket (h : Once s) (data : Bytes) (nowSec : Nat) (rng : Bytes) :
    Once (s.handlePacket data nowSec rng) := by
  rw [Attempt.handlePacket]
  split
  · exact h
  cases data with
  | nil => exact h
  | cons step data =>
  rw [processInit1]
  split
  · exact h.sendPacket fun hstep => by rw [not_isStep4_start] at hstep; cases hstep
  split
  · exact h.reply fun p hp hstep => by rw [not_isStep4_of_step1 hp] at hstep; cases hstep
  split
  · exact h.reply fun p hp hstep => by rw [not_isStep4_of_step2 hp] at hstep; cases hstep
  split
  · exact h.reply fun p hp hstep => by rw [not_isStep4_of_step3 hp] at hstep; cases hstep
  split
  · exact h.buildInit1Step4Packet _
  · exact h

theorem finishSolve (h : Once s) (i : Nat) (interrupted : Bool) (fresh : Alpha) :
    Once (s.finishSolve i interrupted fresh) := by
  rw [Attempt.finishSolve]
  split
  · rename_i challenge level hi
    have hmem := List.mem_of_getElem? hi
    have hlevel := h.level challenge level hmem
    have hnone : s.answeredChallenge = none := by
      rw [← Option.not_isSome_iff_eq_none]
      intro hsome
      cases h.idle hsome _ hmem
    have hopen : ∀ result, (s.solves.set i (.settled result)).countP Solve.isOpen =
        if s.solvingChallenge.isSome then 1 else 0 := by
      intro result
      have := countP_set_add Solve.isOpen hi (.settled result)
      rw [h.one_open] at this
      exact Nat.add_right_cancel this
    have hlevels : ∀ result challenge level,
        .solving challenge level ∈ s.solves.set i (.settled result) →
          level = readUint32BE challenge 129 := by
      intro result challenge level hset
      rcases List.mem_or_eq_of_mem_set hset with hset | hset
      · exact h.level challenge level hset
      · cases hset
    split
    · refine ⟨hopen _, hlevels _, ?_, ?_, h.sent, h.answers, h.undrawn⟩
      · intro hsome
        dsimp only at hsome
        rw [hnone] at hsome
        cases hsome
      · intro solve hset answer hanswer
        rcases List.mem_or_eq_of_mem_set hset with hset | rfl
        · exact h.held solve hset answer hanswer
        · cases hanswer
    · rename_i y hy
      have hsolved : solveRsaChallenge challenge 1 level = .ok y := by
        split at hy
        · cases hy
        · exact hy
      obtain ⟨hdrawn, -⟩ := h.undrawn hnone
      refine ⟨hopen _, hlevels _, ?_, ?_, ?_, ?_, ?_⟩
      · intro _ solve hset
        have hcount := countP_set_add Solve.isSolving hi
          (.settled (.ok (step4Answer s.publicKey challenge y fresh.val)))
        simp only [Solve.isSolving, if_true, Bool.false_eq_true, if_false] at hcount
        have hle := h.countP_isSolving_le
        have hzero : (s.solves.set i (.settled (.ok (step4Answer s.publicKey challenge y
            fresh.val)))).countP Solve.isSolving = 0 := by omega
        rw [← Bool.not_eq_true]
        exact List.countP_eq_zero.mp hzero solve hset
      · intro solve hset answer hanswer
        rcases List.mem_or_eq_of_mem_set hset with hset | rfl
        · obtain ⟨answered, ha, -⟩ := h.held solve hset answer hanswer
          rw [hnone] at ha
          cases ha
        · exact ⟨_, rfl, Option.some.inj hanswer⟩
      · intro packet hsent hstep
        obtain ⟨answered, ha, -⟩ := h.sent packet hsent hstep
        rw [hnone] at ha
        cases ha
      · intro answered ha
        cases ha
        refine ⟨y, hlevel ▸ hsolved, ?_, rfl⟩
        dsimp only
        rw [hdrawn]
        rfl
      · intro ha
        cases ha
  · exact h

theorem releaseSolve (h : Once s) (i : Nat) : Once (s.releaseSolve i) := by
  rw [Attempt.releaseSolve]
  split
  · rename_i result hi
    have hmem := List.mem_of_getElem? hi
    refine ⟨?_, ?_, ?_, ?_, h.sent, h.answers, h.undrawn⟩
    · have hcount := countP_set_add Solve.isOpen hi (.released result)
      rw [h.one_open] at hcount
      simp only [Solve.isOpen, if_true, Bool.false_eq_true, if_false] at hcount ⊢
      split at hcount <;> simp_all
    · intro challenge level hset
      rcases List.mem_or_eq_of_mem_set hset with hset | hset
      · exact h.level challenge level hset
      · cases hset
    · intro hsome solve hset
      rcases List.mem_or_eq_of_mem_set hset with hset | rfl
      · exact h.idle hsome solve hset
      · rfl
    · intro solve hset answer hanswer
      rcases List.mem_or_eq_of_mem_set hset with hset | rfl
      · exact h.held solve hset answer hanswer
      · refine h.held _ hmem answer ?_
        cases result with
        | ok _ => exact hanswer
        | error _ => cases hanswer
  · exact h

theorem deliverSolve (h : Once s) (i : Nat) : Once (s.deliverSolve i) := by
  rw [Attempt.deliverSolve]
  split
  · rename_i result hi
    have hmem := List.mem_of_getElem? hi
    have hdone : Once { s with solves := s.solves.set i .done } := by
      refine ⟨?_, ?_, ?_, ?_, h.sent, h.answers, h.undrawn⟩
      · have hcount := countP_set_add Solve.isOpen hi .done
        rw [h.one_open] at hcount
        exact hcount
      · intro challenge level hset
        rcases List.mem_or_eq_of_mem_set hset with hset | hset
        · exact h.level challenge level hset
        · cases hset
      · intro hsome solve hset
        rcases List.mem_or_eq_of_mem_set hset with hset | rfl
        · exact h.idle hsome solve hset
        · rfl
      · intro solve hset answer hanswer
        rcases List.mem_or_eq_of_mem_set hset with hset | rfl
        · exact h.held solve hset answer hanswer
        · cases hanswer
    dsimp only
    split
    · exact hdone
    cases result with
    | ok answer => exact hdone.sendPacket fun _ => h.held _ hmem answer rfl
    | error _ => exact hdone.handleReceiveError
  · exact h

variable (C : Cipher)

theorem handleHandshakeInitIV (h : Once s) (checked : Option (Bytes × Bytes × Bytes)) :
    Once (s.handleHandshakeInitIV C checked) := by
  rw [Attempt.handleHandshakeInitIV]
  split
  · exact h
  split
  · exact h.handleReceiveError
  · exact ⟨h.one_open, h.level, h.idle, h.held, h.sent, h.answers, h.undrawn⟩

theorem handleHandshakeExpand2 (h : Once s) (checked : Option (Bytes × Bytes)) :
    Once (s.handleHandshakeExpand2 C checked) := by
  rw [Attempt.handleHandshakeExpand2]
  split
  · exact h
  split
  · exact h.handleReceiveError
  split
  · exact h.handleReceiveError
  · exact ⟨h.one_open, h.level, h.idle, h.held, h.sent, h.answers, h.undrawn⟩

theorem handleInitServer (h : Once s) : Once s.handleInitServer := by
  rw [Attempt.handleInitServer]
  split
  · exact ⟨h.one_open, h.level, h.idle, h.held, h.sent, h.answers, h.undrawn⟩
  · exact h

theorem step (h : Once s) (e : Event) : Once (s.step C e) := by
  cases e with
  | packet data nowSec rng => exact h.handlePacket data nowSec rng
  | finish i interrupted fresh => exact h.finishSolve i interrupted fresh
  | release i => exact h.releaseSolve i
  | deliver i => exact h.deliverSolve i
  | initIV checked => exact h.handleHandshakeInitIV C checked
  | expand2 checked => exact h.handleHandshakeExpand2 C checked
  | initServer => exact h.handleInitServer
  | fail => exact h.handleReceiveError

end Once

theorem once_start (publicKey : Str) : Once { publicKey } :=
  { one_open := rfl
    level := fun _ _ h => absurd h List.not_mem_nil
    idle := fun h => absurd h Bool.false_ne_true
    held := fun _ h => absurd h List.not_mem_nil
    sent := fun _ h => absurd h List.not_mem_nil
    answers := fun _ h => by cases h
    undrawn := fun _ => ⟨rfl, rfl⟩ }

/-- Only one alpha is drawn. -/
theorem Once.drawn_le {s : Attempt} (h : Once s) : s.drawn.length ≤ 1 := by
  cases ha : s.answeredChallenge with
  | none =>
    rw [(h.undrawn ha).1]
    exact Nat.zero_le 1
  | some answered =>
    obtain ⟨y, -, hdrawn, -⟩ := h.answers answered ha
    rw [hdrawn]
    exact Nat.le_refl 1

/-- An alpha there is was drawn. -/
theorem Once.drawn_alpha {s : Attempt} (h : Once s) (halpha : s.alpha.length ≠ 0) :
    ∃ challenge, s.drawn = [(challenge, s.alpha)] := by
  cases ha : s.answeredChallenge with
  | none =>
    rw [(h.undrawn ha).2] at halpha
    exact absurd rfl halpha
  | some answered =>
    obtain ⟨y, -, hdrawn, -⟩ := h.answers answered ha
    exact ⟨answered.challenge, hdrawn⟩

/-! ### The session's keys -/

/-- What sets the session's keys up: `initivexpand2` with the client's own alpha, or a
`clientinitiv` with the alpha it names. -/
inductive SetsKeys (C : Cipher) (s : Attempt) : Event → Crypt → Prop
  | expand2 {beta secret : Bytes} {crypt : Crypt} (drawn : s.alpha.length ≠ 0)
      (derives : s.crypt.setSharedSecret C s.alpha beta secret = some crypt) :
      SetsKeys C s (.expand2 (some (beta, secret))) crypt
  | initIV {alpha beta secret : Bytes} {crypt : Crypt}
      (derives : s.crypt.setSharedSecret C alpha beta secret = some crypt) :
      SetsKeys C s (.initIV (some (alpha, beta, secret))) crypt

/-- The keys are as they were, and what was drawn stays drawn. -/
structure Leaves (s t : Attempt) : Prop where
  crypt : t.crypt = s.crypt
  drawn : s.drawn <+: t.drawn

theorem Leaves.refl (s : Attempt) : Leaves s s := ⟨rfl, List.prefix_refl _⟩

theorem leaves_handleReceiveError (s : Attempt) : s.Leaves s.handleReceiveError := by
  rw [handleReceiveError]
  split
  · exact .refl s
  · exact ⟨rfl, List.prefix_refl _⟩

theorem leaves_reply (s : Attempt) (packet : Option Bytes) : s.Leaves (s.reply packet) := by
  cases packet with
  | none => exact .refl s
  | some packet => exact ⟨rfl, List.prefix_refl _⟩

theorem leaves_buildInit1Step4Packet (s : Attempt) (data : Bytes) :
    s.Leaves (s.buildInit1Step4Packet data) := by
  rw [buildInit1Step4Packet]
  split
  · exact .refl s
  split
  · exact leaves_reply s _
  · split
    · exact .refl s
    · dsimp only
      split
      · exact leaves_handleReceiveError s
      · exact ⟨rfl, List.prefix_refl _⟩

theorem leaves_handlePacket (s : Attempt) (data : Bytes) (nowSec : Nat) (rng : Bytes) :
    s.Leaves (s.handlePacket data nowSec rng) := by
  rw [handlePacket]
  split
  · exact .refl s
  cases data with
  | nil => exact .refl s
  | cons step data =>
    rw [processInit1]
    split
    · exact ⟨rfl, List.prefix_refl _⟩
    split
    · exact leaves_reply s _
    split
    · exact leaves_reply s _
    split
    · exact leaves_reply s _
    split
    · exact leaves_buildInit1Step4Packet s _
    · exact .refl s

theorem leaves_finishSolve (s : Attempt) (i : Nat) (interrupted : Bool) (fresh : Alpha) :
    s.Leaves (s.finishSolve i interrupted fresh) := by
  rw [finishSolve]
  split
  · split
    · exact ⟨rfl, List.prefix_refl _⟩
    · exact ⟨rfl, List.prefix_append _ _⟩
  · exact .refl s

theorem leaves_releaseSolve (s : Attempt) (i : Nat) : s.Leaves (s.releaseSolve i) := by
  rw [releaseSolve]
  split
  · exact ⟨rfl, List.prefix_refl _⟩
  · exact .refl s

theorem leaves_deliverSolve (s : Attempt) (i : Nat) : s.Leaves (s.deliverSolve i) := by
  rw [deliverSolve]
  split
  · dsimp only
    split
    · exact ⟨rfl, List.prefix_refl _⟩
    split
    · exact ⟨rfl, List.prefix_refl _⟩
    · obtain ⟨hcrypt, hdrawn⟩ := leaves_handleReceiveError { s with solves := s.solves.set i .done }
      exact ⟨hcrypt, hdrawn⟩
  · exact .refl s

variable (C : Cipher)

/-- Keys are set up by a message of the server's that checks, and by nothing else. -/
theorem leaves_or_setsKeys (s : Attempt) (e : Event) :
    s.Leaves (s.step C e) ∨
      s.crypt.cryptoInitComplete = false ∧ s.SetsKeys C e (s.step C e).crypt ∧
        (s.step C e).drawn = s.drawn := by
  cases e with
  | packet data nowSec rng => exact Or.inl (leaves_handlePacket s data nowSec rng)
  | finish i interrupted fresh => exact Or.inl (leaves_finishSolve s i interrupted fresh)
  | release i => exact Or.inl (leaves_releaseSolve s i)
  | deliver i => exact Or.inl (leaves_deliverSolve s i)
  | initIV checked =>
    rw [step, handleHandshakeInitIV]
    split
    · exact Or.inl (.refl s)
    rename_i hincomplete
    split
    · exact Or.inl (leaves_handleReceiveError s)
    · rename_i crypt hset
      obtain ⟨⟨alpha, beta, secret⟩, rfl, hset⟩ := Option.bind_eq_some_iff.mp hset
      exact Or.inr ⟨Bool.eq_false_iff.mpr hincomplete, .initIV hset, rfl⟩
  | expand2 checked =>
    rw [step, handleHandshakeExpand2]
    split
    · exact Or.inl (.refl s)
    rename_i hincomplete
    split
    · exact Or.inl (leaves_handleReceiveError s)
    rename_i halpha
    split
    · exact Or.inl (leaves_handleReceiveError s)
    · rename_i crypt hset
      obtain ⟨⟨beta, secret⟩, rfl, hset⟩ := Option.bind_eq_some_iff.mp hset
      exact Or.inr ⟨Bool.eq_false_iff.mpr hincomplete, .expand2 halpha hset, rfl⟩
  | initServer =>
    rw [step, handleInitServer]
    split
    · exact Or.inl ⟨rfl, List.prefix_refl _⟩
    · exact Or.inl (.refl s)
  | fail => exact Or.inl (leaves_handleReceiveError s)

/-- Once set up, keys stay. -/
theorem leaves_run {s : Attempt} (hcomplete : s.crypt.cryptoInitComplete = true)
    (es : List Event) : s.Leaves (run (step C) s es) := by
  refine run_invariant (I := fun t => s.Leaves t) (fun t e ht => ?_) es (.refl s)
  rcases leaves_or_setsKeys C t e with ⟨hcrypt, hdrawn⟩ | ⟨hincomplete, -⟩
  · exact ⟨hcrypt.trans ht.crypt, ht.drawn.trans hdrawn⟩
  · rw [ht.crypt, hcomplete] at hincomplete
    cases hincomplete

/-- Where the session's keys come from after the events `es`: the message that completes crypto
init, with the alpha drawn if that is `initivexpand2`, and with its own if it is `clientinitiv`. -/
def KeysDerive (publicKey : Str) (es : List Event) : Prop :=
  let s := run (step C) { publicKey } es
  ∀ before e after, es = before ++ e :: after →
    (run (step C) { publicKey } before).crypt.cryptoInitComplete = false →
    (run (step C) { publicKey } (before ++ [e])).crypt.cryptoInitComplete = true →
    match e with
    | .expand2 (some (beta, secret)) =>
      ∃ challenge alpha, s.drawn = [(challenge, alpha)] ∧
        Crypt.setSharedSecret C {} alpha beta secret = some s.crypt
    | .initIV (some (alpha, beta, secret)) =>
      Crypt.setSharedSecret C {} alpha beta secret = some s.crypt
    | _ => False

theorem once_run (publicKey : Str) (es : List Event) : Once (run (step C) { publicKey } es) :=
  run_invariant (fun _ e hs => hs.step C e) es (once_start publicKey)

theorem keysDerive (publicKey : Str) (es : List Event) : KeysDerive C publicKey es := by
  intro before e after hes hincomplete hcomplete
  obtain ⟨hcrypt, hdrawn⟩ := leaves_run C hcomplete after
  rw [← run_append, List.append_assoc, List.singleton_append, ← hes] at hcrypt hdrawn
  rw [run_concat] at hcomplete hcrypt hdrawn
  rcases leaves_or_setsKeys C (run (step C) { publicKey } before) e with hleaves | ⟨-, hsets, hsame⟩
  · rw [hleaves.crypt, hincomplete] at hcomplete
    cases hcomplete
  · rw [← hcrypt] at hsets
    rw [hsame] at hdrawn
    cases hsets with
    | expand2 halpha hderives =>
      obtain ⟨challenge, hone⟩ := (once_run C publicKey before).drawn_alpha halpha
      refine ⟨challenge, _, ?_, hderives⟩
      rw [hone] at hdrawn
      exact (hdrawn.eq_of_length_le (once_run C publicKey es).drawn_le).symm
    | initIV hderives => exact hderives

/-- **One puzzle, one alpha, one answer**: along every run of an attempt, whatever Init1
packets come and whenever its solves end, at most one solve runs at a time and at most
one challenge is solved, with an alpha drawn once; every step-4 answer sent is the one
answer to that challenge under that alpha; and keys that `initivexpand2` sets up derive
from it, where those of a `clientinitiv` derive from the alpha that it names. -/
theorem init1_once (C : Cipher) (publicKey : Str) (es : List Event) :
    let s := run (step C) { publicKey } es
    s.solves.countP Solve.isSolving ≤ 1 ∧ s.drawn.length ≤ 1 ∧
      (∀ packet ∈ s.sent, isStep4 packet → ∃ challenge alpha y,
        s.drawn = [(challenge, alpha)] ∧
          solveRsaChallenge challenge 1 (readUint32BE challenge 129) = .ok y ∧
          packet = step4Answer s.publicKey challenge y alpha) ∧
      (∀ packet ∈ s.sent, ∀ packet' ∈ s.sent, isStep4 packet → isStep4 packet' →
        packet = packet') ∧
      KeysDerive C publicKey es := by
  intro s
  have h : Once s := once_run C publicKey es
  refine ⟨h.countP_isSolving_le, h.drawn_le, ?_, ?_, keysDerive C publicKey es⟩
  · intro packet hsent hstep
    obtain ⟨answered, ha, rfl⟩ := h.sent packet hsent hstep
    obtain ⟨y, hy, hdrawn, hanswer⟩ := h.answers answered ha
    exact ⟨answered.challenge, s.alpha, y, hdrawn, hy, hanswer⟩
  · intro packet hsent packet' hsent' hstep hstep'
    obtain ⟨answered, ha, rfl⟩ := h.sent packet hsent hstep
    obtain ⟨answered', ha', rfl⟩ := h.sent packet' hsent' hstep'
    rw [Option.some.inj (ha.symm.trans ha')]

/-- A challenge of level 0. -/
def levelZero : Bytes := 3 :: List.replicate 128 1 ++ List.replicate 104 0

/-- It is answered under an alpha of zeros, and the server sends a `clientinitiv` that names one of
ones. -/
def otherAlpha : List Event :=
  [.packet levelZero 0 [], .finish 0 false ⟨List.replicate 10 0, rfl⟩, .release 0, .deliver 0,
    .initIV (some (List.replicate 10 1, [1], List.replicate 20 0))]

/-- The answer that was sent carries another alpha than the one the keys derive from. -/
theorem init1_otherAlpha :
    (run (step Transport.clearCipher) { publicKey := [] } otherAlpha).sent =
        [step4Answer [] levelZero (List.replicate 64 1) (List.replicate 10 0)] ∧
      (run (step Transport.clearCipher) { publicKey := [] } otherAlpha).crypt.cryptoInitComplete ∧
      Crypt.setSharedSecret Transport.clearCipher {} (List.replicate 10 0) [1]
          (List.replicate 20 0) ≠
        some (run (step Transport.clearCipher) { publicKey := [] } otherAlpha).crypt := by
  decide +kernel

end Attempt

end Teamspeak.Client
