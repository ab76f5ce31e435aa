import Mathlib.Data.List.Basic

/-!
# Streams of chunks

A transform is given a stream a chunk at a time, pushes chunks on, and can fail on a chunk or
at the end.  A failure ends the stream.

* `run_append`: what is pushed for two streams after one another.
* `pushed_feed_isPrefix`: what is pushed is not taken back.
* `run_pipe`: behind a transform that does not fail another one runs on what the first pushes.
-/

namespace Teamspeak

/-- What a transform does with a chunk. -/
structure Transformed (σ α ε : Type*) where
  state : σ
  pushed : List (List α) := []
  error : Option ε := none

structure Transform (σ α ε : Type*) where
  transform : σ → List α → Transformed σ α ε
  flush : σ → Option ε := fun _ => none

namespace Transform

variable {σ τ α ε : Type*}

/-- Some chunks of a stream, up to one that fails. -/
def feed (T : Transform σ α ε) (s : σ) : List (List α) → Transformed σ α ε
  | [] => { state := s }
  | chunk :: chunks =>
    let t := T.transform s chunk
    match t.error with
    | some _ => t
    | none =>
      let rest := T.feed t.state chunks
      { rest with pushed := t.pushed ++ rest.pushed }

/-- A whole stream: what is pushed, and how it fails if it does. -/
def run (T : Transform σ α ε) (s : σ) : List (List α) → List (List α) × Option ε
  | [] => ([], T.flush s)
  | chunk :: chunks =>
    let t := T.transform s chunk
    match t.error with
    | some e => (t.pushed, some e)
    | none =>
      let rest := T.run t.state chunks
      (t.pushed ++ rest.1, rest.2)

/-- One transform behind another. -/
def pipe (T : Transform σ α ε) (U : Transform τ α ε) : Transform (σ × τ) α ε where
  transform s chunk :=
    let t := T.transform s.1 chunk
    let u := U.feed s.2 t.pushed
    { state := (t.state, u.state), pushed := u.pushed, error := u.error.or t.error }
  flush s := (T.flush s.1).or (U.flush s.2)

theorem run_append (T : Transform σ α ε) (s : σ) (chunks chunks' : List (List α)) :
    T.run s (chunks ++ chunks') =
      match (T.feed s chunks).error with
      | some e => ((T.feed s chunks).pushed, some e)
      | none =>
        ((T.feed s chunks).pushed ++ (T.run (T.feed s chunks).state chunks').1,
          (T.run (T.feed s chunks).state chunks').2) := by
  induction chunks generalizing s with
  | nil => rfl
  | cons chunk chunks ih =>
    rw [List.cons_append, run, feed]
    cases herror : (T.transform s chunk).error with
    | some e =>
      dsimp only
      rw [herror]
    | none =>
      dsimp only
      rw [ih]
      cases (T.feed (T.transform s chunk).state chunks).error with
      | some e => rfl
      | none => rw [← List.append_assoc]

/-- What some chunks push, the stream has pushed at its end. -/
theorem pushed_feed_isPrefix (T : Transform σ α ε) (s : σ) (chunks chunks' : List (List α)) :
    (T.feed s chunks).pushed <+: (T.run s (chunks ++ chunks')).1 := by
  rw [run_append]
  cases (T.feed s chunks).error with
  | some e => exact List.prefix_rfl
  | none => exact List.prefix_append _ _

/-- A transform that does not fail leaves only the one behind it to fail. -/
theorem run_pipe {T : Transform σ α ε} (htransform : ∀ s chunk, (T.transform s chunk).error = none)
    (hflush : ∀ s, T.flush s = none) (U : Transform τ α ε) (s : σ) (u : τ)
    (chunks : List (List α)) : (T.pipe U).run (s, u) chunks = U.run u (T.run s chunks).1 := by
  induction chunks generalizing s u with
  | nil =>
    show ([], (T.flush s).or (U.flush u)) = ([], U.flush u)
    rw [hflush, Option.none_or]
  | cons chunk chunks ih =>
    have hrun : (T.run s (chunk :: chunks)).1 =
        (T.transform s chunk).pushed ++ (T.run (T.transform s chunk).state chunks).1 := by
      rw [run, htransform]
    have herror : ((T.pipe U).transform (s, u) chunk).error =
        (U.feed u (T.transform s chunk).pushed).error := by
      show (U.feed u (T.transform s chunk).pushed).error.or (T.transform s chunk).error = _
      rw [htransform, Option.or_none]
    rw [hrun, run_append, run, herror]
    cases (U.feed u (T.transform s chunk).pushed).error with
    | some e => rfl
    | none =>
      dsimp only
      rw [show ((T.pipe U).transform (s, u) chunk).state =
        ((T.transform s chunk).state, (U.feed u (T.transform s chunk).pushed).state) from rfl, ih]
      rfl

end Transform

end Teamspeak
