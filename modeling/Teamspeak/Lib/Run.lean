import Mathlib.Data.List.Induction

/-!
# Runs of a deterministic system

A system is a step function `step : σ → ε → σ`, and a run feeds it a list of
events.  An event list is judged *along* the run, each event in the state it
finds: `Along C step s es` says every event meets `C` there.

* `run_invariant`: what every step keeps holds at the end of every run.
* `run_invariant_along`: the same where only the steps meeting a condition are
  known to keep it.
* `along_congr`: two conditions that agree on the states reached are met along the same
  runs.
* `along_iff_forall_prefix`: a condition along a run is a condition at every
  split of its events.
* `run_simulation`: a relation kept by every pair of steps relates the ends of
  the two runs.
-/

namespace Teamspeak

section Run

variable {σ ε : Type*} (step : σ → ε → σ)

/-- The state a list of events leads to. -/
def run (s : σ) : List ε → σ
  | [] => s
  | e :: es => run (step s e) es

/-- Every event meets `C` in the state it finds. -/
def Along (C : σ → ε → Prop) (s : σ) : List ε → Prop
  | [] => True
  | e :: es => C s e ∧ Along C (step s e) es

instance instDecidableAlong {C : σ → ε → Prop} [∀ s e, Decidable (C s e)] (s : σ) (es : List ε) :
    Decidable (Along step C s es) :=
  match es with
  | [] => inferInstanceAs (Decidable True)
  | e :: es =>
    have : Decidable (Along step C (step s e) es) := instDecidableAlong (step s e) es
    inferInstanceAs (Decidable (C s e ∧ Along step C (step s e) es))

@[simp] theorem run_nil (s : σ) : run step s [] = s := rfl

@[simp] theorem run_cons (s : σ) (e : ε) (es : List ε) :
    run step s (e :: es) = run step (step s e) es := rfl

theorem run_append (s : σ) (es fs : List ε) :
    run step s (es ++ fs) = run step (run step s es) fs := by
  induction es generalizing s with
  | nil => rfl
  | cons e es ih => exact ih (step s e)

@[simp] theorem run_concat (s : σ) (es : List ε) (e : ε) :
    run step s (es ++ [e]) = step (run step s es) e := run_append step s es [e]

variable {step}

theorem along_append {C : σ → ε → Prop} {s : σ} {es fs : List ε} :
    Along step C s (es ++ fs) ↔ Along step C s es ∧ Along step C (run step s es) fs := by
  induction es generalizing s with
  | nil => simp [Along]
  | cons e es ih => rw [List.cons_append, Along, Along, ih, run_cons, and_assoc]

/-- A condition along a run is a condition at every split of its events. -/
theorem along_iff_forall_prefix {C : σ → ε → Prop} {s : σ} {es : List ε} :
    Along step C s es ↔ ∀ as e bs, es = as ++ e :: bs → C (run step s as) e := by
  induction es generalizing s with
  | nil => simp [Along]
  | cons e es ih =>
    rw [Along, ih]
    constructor
    · rintro ⟨he, hes⟩ as e' bs h
      cases as with
      | nil =>
        rw [List.nil_append, List.cons.injEq] at h
        exact h.1 ▸ he
      | cons a as =>
        rw [List.cons_append, List.cons.injEq] at h
        obtain ⟨rfl, rfl⟩ := h
        exact hes as e' bs rfl
    · intro h
      refine ⟨h [] e es rfl, fun as e' bs hes => ?_⟩
      exact h (e :: as) e' bs (by rw [hes, List.cons_append])

theorem Along.mono {C D : σ → ε → Prop} (h : ∀ s e, C s e → D s e) {s : σ} {es : List ε}
    (hc : Along step C s es) : Along step D s es := by
  induction es generalizing s with
  | nil => trivial
  | cons e es ih => exact ⟨h s e hc.1, ih hc.2⟩

/-- Two conditions that agree wherever `I` holds, which the steps meeting `C` keep,
are met along the same runs. -/
theorem along_congr {C D : σ → ε → Prop} {I : σ → Prop}
    (h : ∀ s e, I s → C s e → I (step s e)) (hCD : ∀ s e, I s → (C s e ↔ D s e)) {s : σ}
    {es : List ε} (hs : I s) : Along step C s es ↔ Along step D s es := by
  induction es generalizing s with
  | nil => exact Iff.rfl
  | cons e es ih =>
    rw [Along, Along, ← hCD s e hs]
    exact and_congr_right fun he => ih (h s e hs he)

/-- What every step meeting `C` keeps holds at the end of every run whose steps
all meet `C`. -/
theorem run_invariant_along {C : σ → ε → Prop} {I : σ → Prop}
    (h : ∀ s e, I s → C s e → I (step s e)) {s : σ} {es : List ε}
    (hs : I s) (hc : Along step C s es) : I (run step s es) := by
  induction es generalizing s with
  | nil => exact hs
  | cons e es ih => exact ih (h s e hs hc.1) hc.2

/-- What every step keeps holds at the end of every run. -/
theorem run_invariant {I : σ → Prop} (h : ∀ s e, I s → I (step s e)) {s : σ} (es : List ε)
    (hs : I s) : I (run step s es) := by
  induction es generalizing s with
  | nil => exact hs
  | cons e es ih => exact ih (h s e hs)

/-- A relation kept by every pair of steps relates the ends of the two runs, as
long as the abstract run stays where `G` holds.  `G` is closed downwards: what
holds at the end of a run held all along it. -/
theorem run_simulation {τ : Type*} {abs : τ → ε → τ} {R : σ → τ → Prop} {G : τ → Prop}
    (hG : ∀ t e, G (abs t e) → G t) (h : ∀ s t e, R s t → G (abs t e) → R (step s e) (abs t e))
    {s : σ} {t : τ} {es : List ε} (hs : R s t) (hg : G (run abs t es)) :
    R (run step s es) (run abs t es) := by
  induction es using List.reverseRecOn with
  | nil => exact hs
  | append_singleton es e ih =>
    rw [run_concat] at hg ⊢
    rw [run_concat]
    exact h _ _ e (ih (hG _ e hg)) hg

end Run

end Teamspeak
