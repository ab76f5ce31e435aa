import Mathlib.Logic.Function.Basic
import Teamspeak.Lib.Framing

/-!
# A reorder buffer

The items of a stream of messages arrive in any order, each with its place in
the stream.  A `Buffer` holds those that are ahead of the place it has got to,
and takes the messages out in order: what is needed of a receive queue, with
numbers that never wrap and no limit on what is held.

* `Tracks`: the buffer agrees with the stream; kept by putting in an item of the
  stream (`Tracks.insert`) and by taking out items it holds (`Tracks.pop`).
* `Tracks.out_prefix`: what was taken out is the stream's first messages.
* `Tracks.complete`: all of them, once every item is in and no message is left
  to take out.
* `Safe`: an item is held or was taken out; never undone.
-/

namespace Teamspeak

structure Buffer (α : Type*) where
  /-- The place of the first item not yet taken out. -/
  next : Nat
  held : Nat → Option α
  /-- The messages taken out. -/
  out : List (List α)

namespace Buffer

open Framing

variable {α : Type*} {mark : α → Bool} {stream : List α} {b : Buffer α}

def insert (b : Buffer α) (place : Nat) (a : α) : Buffer α :=
  { b with held := Function.update b.held place (some a) }

def pop (b : Buffer α) (f : List α) : Buffer α where
  next := b.next + f.length
  held place := if place < b.next + f.length then none else b.held place
  out := b.out ++ [f]

/-- The buffer holds these items from the place it has got to on. -/
def Offers (b : Buffer α) (f : List α) : Prop :=
  ∀ i (h : i < f.length), b.held (b.next + i) = some f[i]

/-- The buffer agrees with the stream. -/
structure Tracks (stream : List α) (b : Buffer α) : Prop where
  out : b.out.flatten = stream.take b.next
  next_le : b.next ≤ stream.length
  held : ∀ place a, b.held place = some a → b.next ≤ place ∧ stream[place]? = some a

theorem Tracks.insert {place : Nat} {a : α} (h : b.Tracks stream) (hplace : b.next ≤ place)
    (ha : stream[place]? = some a) : (b.insert place a).Tracks stream := by
  refine ⟨h.out, h.next_le, fun q c hc => ?_⟩
  simp only [Buffer.insert, Function.update_apply] at hc
  split_ifs at hc with hq
  · rw [hq, ← Option.some.inj hc]
    exact ⟨hplace, ha⟩
  · exact h.held q c hc

/-- The items a buffer offers are the next of the stream. -/
theorem Tracks.offers {f : List α} (h : b.Tracks stream) (hf : b.Offers f) :
    (stream.drop b.next).take f.length = f := by
  apply List.ext_getElem?
  intro i
  rw [List.getElem?_take]
  split_ifs with hi
  · rw [List.getElem?_drop, List.getElem?_eq_getElem hi]
    exact (h.held _ _ (hf i hi)).2
  · rw [List.getElem?_eq_none (by omega)]

theorem Tracks.pop {f : List α} (h : b.Tracks stream) (hf : b.Offers f) :
    (b.pop f).Tracks stream := by
  have hoffers := h.offers hf
  refine ⟨?_, ?_, fun place a ha => ?_⟩
  · rw [Buffer.pop, List.flatten_append, h.out, List.take_add, hoffers]
    simp
  · have := congrArg List.length hoffers
    rw [List.length_take, List.length_drop] at this
    have := h.next_le
    simp only [Buffer.pop]
    omega
  · simp only [Buffer.pop] at ha ⊢
    split_ifs at ha with hlt
    exact ⟨by omega, (h.held place a ha).2⟩

/-- **What was taken out is the stream's first messages.** -/
theorem Tracks.out_prefix {frames : List (List α)} (h : b.Tracks frames.flatten)
    (hout : ∀ f ∈ b.out, IsFrame mark f) (hframes : ∀ f ∈ frames, IsFrame mark f) :
    b.out <+: frames :=
  prefix_of_flatten_prefix hout hframes (h.out ▸ List.take_prefix _ _)

/-- **All messages have been taken out**, once every item is in and none is left. -/
theorem Tracks.complete {frames : List (List α)} (h : b.Tracks frames.flatten)
    (hout : ∀ f ∈ b.out, IsFrame mark f) (hframes : ∀ f ∈ frames, IsFrame mark f)
    (hall : ∀ place, b.next ≤ place → place < frames.flatten.length → b.held place ≠ none)
    (hstuck : ∀ f, IsFrame mark f → ¬ b.Offers f) : b.out = frames := by
  obtain ⟨rest, hrest⟩ := h.out_prefix hout hframes
  cases rest with
  | nil => rw [← hrest, List.append_nil]
  | cons f rest =>
    have hf : IsFrame mark f := hframes f (by rw [← hrest]; simp)
    refine absurd (fun i hi => ?_) (hstuck f hf)
    have hlen : b.out.flatten.length = b.next := by
      rw [h.out, List.length_take, Nat.min_eq_left h.next_le]
    have hstream : frames.flatten = b.out.flatten ++ (f ++ rest.flatten) := by
      rw [← hrest, List.flatten_append, List.flatten_cons]
    have hlt : b.next + i < frames.flatten.length := by
      rw [hstream, List.length_append, List.length_append]
      omega
    obtain ⟨a, ha⟩ := Option.ne_none_iff_exists'.mp (hall _ (Nat.le_add_right _ _) hlt)
    have hget := (h.held _ _ ha).2
    rw [hstream, ← hlen, List.getElem?_append_right (by omega), Nat.add_sub_cancel_left,
      List.getElem?_append_left hi, List.getElem?_eq_getElem hi] at hget
    rw [ha, hget]

/-- The item at a place is held, or was taken out. -/
def Safe (stream : List α) (b : Buffer α) (place : Nat) : Prop :=
  place < b.next ∨ ∃ a, b.held place = some a ∧ stream[place]? = some a

theorem Safe.insert {place q : Nat} {a : α} (h : b.Safe stream place) (ha : stream[q]? = some a) :
    (b.insert q a).Safe stream place := by
  rcases h with h | ⟨c, hc, hs⟩
  · exact Or.inl h
  · refine Or.inr ?_
    simp only [Buffer.insert, Function.update_apply]
    split_ifs with hq
    · exact ⟨a, rfl, hq ▸ ha⟩
    · exact ⟨c, hc, hs⟩

theorem Safe.pop {place : Nat} (f : List α) (h : b.Safe stream place) :
    (b.pop f).Safe stream place := by
  by_cases hlt : place < b.next + f.length
  · exact Or.inl hlt
  · rcases h with h | ⟨c, hc, hs⟩
    · exact absurd h (by omega)
    · exact Or.inr ⟨c, by rw [Buffer.pop]; simpa [hlt] using hc, hs⟩

end Buffer

end Teamspeak
