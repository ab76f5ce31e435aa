import Teamspeak.Lib.Cyclic
import Teamspeak.Lib.Run

/-!
# The generation window

`generation-window.ts` keeps where a stream of packet ids has got to as a 16-bit
base and a generation, the number of wraps of the id.  `GenerationWindow mod
receiveWindow` is that class; its two read-only fields are parameters of the
type, and a base at or past `mod` cannot be built.

The window stands for one absolute position, `w.position = generation * mod +
base`.  The query lemmas read an id `A % mod` of a number `A` near that position:
`mappedToIndex_of_near`, `getGeneration_of_near`, `isOldPacket_of_near`,
`isInWindow_of_near`.  `near_of_getGeneration` is the other direction, which the
receive path rests on: an id whose generation comes out right and which is in
the window, or old, is really there.

`counterStep` is an absolute counter with the same four moves, and
`position_run` the simulation: the window's position is the counter, as long as
the generation does not reach the 32-bit cap.
-/

namespace Teamspeak.Transport

/-- The cap on the generation, `0xffff_ffff`. -/
abbrev maxGeneration : Nat := 4294967295

structure GenerationWindow (mod receiveWindow : Nat) where
  mappedBaseOffset : Nat
  generation : Nat
  base_lt : mappedBaseOffset < mod

namespace GenerationWindow

variable {mod receiveWindow : Nat}

def new (mod receiveWindow : Nat) [NeZero mod] : GenerationWindow mod receiveWindow :=
  ⟨0, 0, NeZero.pos mod⟩

theorem mod_pos (w : GenerationWindow mod receiveWindow) : 0 < mod :=
  Nat.zero_lt_of_lt w.base_lt

def advance (w : GenerationWindow mod receiveWindow) (amount : Int) :
    GenerationWindow mod receiveWindow :=
  if amount ≤ 0 then w
  else
    let newBaseOffset := w.mappedBaseOffset + amount.toNat
    let genStep := newBaseOffset / mod
    { mappedBaseOffset := newBaseOffset % mod
      generation := if genStep > 0 then min (w.generation + genStep) maxGeneration else w.generation
      base_lt := Nat.mod_lt _ w.mod_pos }

/-- The distance from the base up to an id, around the wrap. -/
def moveDist (w : GenerationWindow mod receiveWindow) (mappedValue : Nat) : Int :=
  let dist : Int := mappedValue - w.mappedBaseOffset
  if dist < 0 then dist + mod else dist

def advanceToExcluded (w : GenerationWindow mod receiveWindow) (mappedValue : Nat) :
    GenerationWindow mod receiveWindow := w.advance (w.moveDist mappedValue + 1)

def syncTo (w : GenerationWindow mod receiveWindow) (mappedValue : Nat) :
    GenerationWindow mod receiveWindow := w.advance (w.moveDist mappedValue)

def isInWindow (w : GenerationWindow mod receiveWindow) (mappedValue : Nat) : Bool :=
  let maxOffset := w.mappedBaseOffset + receiveWindow
  if maxOffset < mod then w.mappedBaseOffset ≤ mappedValue ∧ mappedValue < maxOffset
  else w.mappedBaseOffset ≤ mappedValue ∨ mappedValue < maxOffset - mod

/-- Whether an id `index` past the base is really up to `receiveWindow` behind
it, in the generation before. -/
def isBehindAcrossWrap (w : GenerationWindow mod receiveWindow) (index : Int) : Bool :=
  w.generation > 0 ∧ index ≥ receiveWindow ∧ index ≥ (mod : Int) - receiveWindow

def isNextGen (w : GenerationWindow mod receiveWindow) (mappedValue : Nat) : Bool :=
  (w.mappedBaseOffset : Int) > (mod : Int) - receiveWindow ∧
    (mappedValue : Int) < (w.mappedBaseOffset : Int) + receiveWindow - mod

def mappedToIndex (w : GenerationWindow mod receiveWindow) (mappedValue : Nat) : Int :=
  if w.isNextGen mappedValue then mappedValue + mod - w.mappedBaseOffset
  else
    let index : Int := mappedValue - w.mappedBaseOffset
    if w.isBehindAcrossWrap index then index - mod else index

def isOldPacket (w : GenerationWindow mod receiveWindow) (mappedValue : Nat) : Bool :=
  w.mappedToIndex mappedValue < 0

def isFuturePacket (w : GenerationWindow mod receiveWindow) (mappedValue : Nat) : Bool :=
  w.mappedToIndex mappedValue ≥ receiveWindow

def advanceAfter (w : GenerationWindow mod receiveWindow) (mappedValue : Nat) :
    GenerationWindow mod receiveWindow :=
  let index := w.mappedToIndex mappedValue
  if index < 0 then w else w.advance (index + 1)

def getGeneration (w : GenerationWindow mod receiveWindow) (mappedValue : Nat) : Nat :=
  if w.isNextGen mappedValue then w.generation + 1
  else if w.isBehindAcrossWrap (mappedValue - w.mappedBaseOffset) then w.generation - 1
  else w.generation

/-! ### The position -/

/-- The absolute number the base stands for. -/
def position (w : GenerationWindow mod receiveWindow) : Nat :=
  w.generation * mod + w.mappedBaseOffset

@[simp] theorem position_new [NeZero mod] : (new mod receiveWindow).position = 0 := by
  simp [position, new]

theorem position_mod (w : GenerationWindow mod receiveWindow) :
    w.position % mod = w.mappedBaseOffset := by
  rw [position, Nat.add_comm, Nat.add_mul_mod_self_right, Nat.mod_eq_of_lt w.base_lt]

theorem position_div (w : GenerationWindow mod receiveWindow) :
    w.position / mod = w.generation := by
  rw [position, Nat.add_comm, Nat.add_mul_div_right _ _ w.mod_pos, Nat.div_eq_of_lt w.base_lt,
    Nat.zero_add]

/-- The base moves by exactly the amount, modulo `mod`, whatever the generation. -/
theorem advance_base (w : GenerationWindow mod receiveWindow) (k : Nat) :
    (w.advance k).mappedBaseOffset = (w.mappedBaseOffset + k) % mod := by
  rw [advance]
  by_cases hk : (k : Int) ≤ 0
  · obtain rfl : k = 0 := by omega
    rw [if_pos hk, Nat.add_zero, Nat.mod_eq_of_lt w.base_lt]
  · rw [if_neg hk]
    simp

theorem advance_of_nonpos (w : GenerationWindow mod receiveWindow) {k : Int} (hk : k ≤ 0) :
    w.advance k = w := by rw [advance, if_pos hk]

/-- **`advance` moves the position by its amount**, short of the cap. -/
theorem advance_position (w : GenerationWindow mod receiveWindow) (k : Nat)
    (h : (w.position + k) / mod ≤ maxGeneration) : (w.advance k).position = w.position + k := by
  rw [advance]
  by_cases hk : (k : Int) ≤ 0
  · rw [if_pos hk]; omega
  · have hdiv : (w.position + k) / mod = w.generation + (w.mappedBaseOffset + k) / mod := by
      rw [position, Nat.add_assoc, Nat.add_comm, Nat.add_mul_div_right _ _ w.mod_pos, Nat.add_comm]
    have hsplit := Nat.div_add_mod (w.mappedBaseOffset + k) mod
    rw [if_neg hk]
    simp only [position, Int.toNat_natCast] at h hdiv ⊢
    rw [hdiv] at h
    have hgen : (if (w.mappedBaseOffset + k) / mod > 0 then
        min (w.generation + (w.mappedBaseOffset + k) / mod) maxGeneration else w.generation) =
        w.generation + (w.mappedBaseOffset + k) / mod := by
      by_cases hs : (w.mappedBaseOffset + k) / mod > 0
      · rw [if_pos hs, Nat.min_eq_left h]
      · rw [if_neg hs, Nat.eq_zero_of_not_pos hs, Nat.add_zero]
    rw [hgen, Nat.add_mul, Nat.mul_comm ((w.mappedBaseOffset + k) / mod) mod]
    omega

/-- At the last id of the last generation `advance` goes back a generation. -/
theorem advance_position_at_cap (w : GenerationWindow 65536 receiveWindow)
    (h : w.position = 281474976710655) : (w.advance 1).position = 281474976645120 := by
  have hb := w.base_lt
  rw [position] at h
  have hgen : w.generation = maxGeneration := by simp only [maxGeneration]; omega
  have hbase : w.mappedBaseOffset = 65535 := by omega
  rw [position, advance, if_neg (by decide)]
  simp only [hgen, hbase, maxGeneration]
  decide

theorem moveDist_eq (w : GenerationWindow mod receiveWindow) {m : Nat} (hm : m < mod) :
    w.moveDist m = Cyclic.ahead mod w.position m := by
  rw [Cyclic.ahead_eq hm, position_mod, moveDist]
  have := w.base_lt
  split <;> split <;> omega

/-! ### What the queries say of a number near the position -/

section Near

variable {w : GenerationWindow mod receiveWindow} {A : Nat}

/-- Where the id of a number from the position on lies, seen from the base. -/
theorem ahead_cases (h₁ : w.position ≤ A) (h₂ : A < w.position + mod) :
    (A / mod = w.generation ∧ A % mod = w.mappedBaseOffset + (A - w.position)) ∨
      (A / mod = w.generation + 1 ∧ A % mod + mod = w.mappedBaseOffset + (A - w.position)) := by
  obtain ⟨k, rfl⟩ := Nat.exists_eq_add_of_le h₁
  rw [← position_mod, ← position_div, Nat.add_sub_cancel_left]
  rcases Cyclic.add_div_mod (N := w.position) w.mod_pos (by omega : k < mod) with
    ⟨-, hmod, hdiv⟩ | ⟨h, hmod, hdiv⟩
  · exact Or.inl ⟨hdiv, hmod⟩
  · exact Or.inr ⟨hdiv, by rw [hmod, Nat.sub_add_cancel h]⟩

/-- Where the id of a number before the position lies, seen from the base. -/
theorem behind_cases (h₁ : A ≤ w.position) (h₂ : w.position < A + mod) :
    (A / mod = w.generation ∧ A % mod + (w.position - A) = w.mappedBaseOffset) ∨
      (w.generation = A / mod + 1 ∧ 0 < w.generation ∧
        A % mod + (w.position - A) = w.mappedBaseOffset + mod) := by
  obtain ⟨k, hk⟩ := Nat.exists_eq_add_of_le h₁
  have hpm := position_mod w
  have hpd := position_div w
  rw [hk] at hpm hpd
  rw [show w.position - A = k by omega, ← hpm, ← hpd]
  rcases Cyclic.add_div_mod (N := A) w.mod_pos (by omega : k < mod) with
    ⟨-, hmod, hdiv⟩ | ⟨h, hmod, hdiv⟩
  · exact Or.inl ⟨hdiv.symm, hmod.symm⟩
  · exact Or.inr ⟨hdiv, by rw [hdiv]; exact Nat.succ_pos _, by rw [hmod, Nat.sub_add_cancel h]⟩

theorem mappedToIndex_of_near (hW : 2 * receiveWindow ≤ mod) (h₁ : w.position - receiveWindow ≤ A)
    (h₂ : A < w.position + receiveWindow) : w.mappedToIndex (A % mod) = (A : Int) - w.position := by
  have hb := w.base_lt
  simp only [mappedToIndex, isNextGen, isBehindAcrossWrap, decide_eq_true_eq]
  rcases Nat.lt_or_ge A w.position with hA | hA
  · rcases behind_cases hA.le (by omega : w.position < A + mod) with
      ⟨hd, hm⟩ | ⟨hd, hg, hm⟩
    · rw [if_neg (by omega), if_neg (by omega)]; omega
    · rw [if_neg (by omega), if_pos (by omega)]; omega
  · rcases ahead_cases hA (by omega) with ⟨hd, hm⟩ | ⟨hd, hm⟩
    · rw [if_neg (by omega), if_neg (by omega)]; omega
    · rw [if_pos (by omega)]; omega

theorem getGeneration_of_near (hW : 2 * receiveWindow ≤ mod) (h₁ : w.position - receiveWindow ≤ A)
    (h₂ : A < w.position + receiveWindow) : w.getGeneration (A % mod) = A / mod := by
  have hb := w.base_lt
  simp only [getGeneration, isNextGen, isBehindAcrossWrap, decide_eq_true_eq]
  rcases Nat.lt_or_ge A w.position with hA | hA
  · rcases behind_cases hA.le (by omega : w.position < A + mod) with
      ⟨hd, hm⟩ | ⟨hd, hg, hm⟩
    · rw [if_neg (by omega), if_neg (by omega), hd]
    · rw [if_neg (by omega), if_pos (by omega), hd, Nat.add_sub_cancel]
  · rcases ahead_cases hA (by omega) with ⟨hd, hm⟩ | ⟨hd, hm⟩
    · rw [if_neg (by omega), if_neg (by omega), hd]
    · rw [if_pos (by omega), hd]

theorem isOldPacket_of_near (hW : 2 * receiveWindow ≤ mod) (h₁ : w.position - receiveWindow ≤ A)
    (h₂ : A < w.position + receiveWindow) : w.isOldPacket (A % mod) = true ↔ A < w.position := by
  rw [isOldPacket, decide_eq_true_eq, mappedToIndex_of_near hW h₁ h₂]
  omega

theorem isInWindow_of_near (hW : 2 * receiveWindow ≤ mod) (h₁ : w.position - receiveWindow ≤ A)
    (h₂ : A < w.position + receiveWindow) : w.isInWindow (A % mod) = true ↔ w.position ≤ A := by
  have hb := w.base_lt
  have hlt := Nat.mod_lt A w.mod_pos
  rw [isInWindow]
  rcases Nat.lt_or_ge A w.position with hA | hA
  · rcases behind_cases hA.le (by omega : w.position < A + mod) with
      ⟨hd, hm⟩ | ⟨hd, hg, hm⟩ <;>
      split <;> simp only [decide_eq_true_eq] <;> omega
  · rcases ahead_cases hA (by omega) with ⟨hd, hm⟩ | ⟨hd, hm⟩ <;>
      split <;> simp only [decide_eq_true_eq] <;> omega

end Near

/-- Being in the window is being less than `receiveWindow` ahead of the base. -/
theorem isInWindow_iff_ahead (w : GenerationWindow mod receiveWindow) {m : Nat} (hm : m < mod) :
    w.isInWindow m = true ↔ Cyclic.ahead mod w.mappedBaseOffset m < receiveWindow := by
  have hb := w.base_lt
  rw [Cyclic.ahead_eq hm, Nat.mod_eq_of_lt hb, isInWindow]
  split <;> split <;> simp only [decide_eq_true_eq] <;> omega

/-- An id is in the window exactly when it is neither old nor in the future. -/
theorem isInWindow_iff (w : GenerationWindow mod receiveWindow) {m : Nat} (hm : m < mod) :
    w.isInWindow m = true ↔ w.isOldPacket m = false ∧ w.isFuturePacket m = false := by
  have hb := w.base_lt
  simp only [isInWindow, isOldPacket, isFuturePacket, mappedToIndex, isNextGen, isBehindAcrossWrap,
    decide_eq_true_eq, decide_eq_false_iff_not]
  split <;> split <;> simp only [decide_eq_true_eq] <;> omega

/-- **An id whose generation comes out right lies where the window says.**  The
number it stands for is in the window, or before it, or past its end, according
to the index the window gives the id. -/
theorem near_of_getGeneration {w : GenerationWindow mod receiveWindow} {A : Nat} (h : w.getGeneration (A % mod) = A / mod) :
    w.mappedToIndex (A % mod) = (A : Int) - w.position := by
  have hb := w.base_lt
  have hA := Nat.div_add_mod A mod
  have hm : A % mod < mod := Nat.mod_lt _ w.mod_pos
  rw [← hA, ← h]
  simp only [Nat.mul_add_mod_self_left, Nat.mod_eq_of_lt hm, getGeneration, mappedToIndex, position,
    isNextGen, isBehindAcrossWrap, decide_eq_true_eq]
  split
  · push_cast; ring
  · split
    · have hg : 0 < w.generation := by omega
      obtain ⟨g, hg⟩ : ∃ g, w.generation = g + 1 := ⟨w.generation - 1, by omega⟩
      rw [hg, Nat.add_sub_cancel]
      push_cast; ring
    · push_cast; ring

/-! ### The absolute counter -/

/-- A call that moves the window.  Ids are what a packet can carry. -/
inductive Move (mod : Nat)
  | advance (amount : Int)
  | advanceToExcluded (mappedValue : Fin mod)
  | advanceAfter (mappedValue : Fin mod)
  | syncTo (mappedValue : Fin mod)

def Move.apply (w : GenerationWindow mod receiveWindow) :
    Move mod → GenerationWindow mod receiveWindow
  | .advance amount => w.advance amount
  | .advanceToExcluded m => w.advanceToExcluded m
  | .advanceAfter m => w.advanceAfter m
  | .syncTo m => w.syncTo m

/-- Where the counter goes after receiving the id `m`: past the next number
written so, if that is in the window; nowhere, if the last one is no more than a
window behind; and by the order of the ids themselves further away. -/
def counterAfter (mod receiveWindow N m : Nat) : Nat :=
  if Cyclic.ahead mod N m < receiveWindow then Cyclic.next mod N m + 1
  else if Cyclic.behind mod N m ≤ receiveWindow ∧ Cyclic.behind mod N m ≤ N then N
  else if N % mod ≤ m then Cyclic.next mod N m + 1
  else N

/-- The four moves on a counter that never wraps. -/
def counterStep (mod receiveWindow : Nat) (N : Nat) : Move mod → Nat
  | .advance amount => N + amount.toNat
  | .advanceToExcluded m => Cyclic.next mod N m + 1
  | .advanceAfter m => counterAfter mod receiveWindow N m
  | .syncTo m => Cyclic.next mod N m

theorem le_counterAfter (mod receiveWindow N m : Nat) : N ≤ counterAfter mod receiveWindow N m := by
  have : N ≤ Cyclic.next mod N m := Nat.le_add_right _ _
  unfold counterAfter
  split_ifs <;> omega

theorem le_counterStep (N : Nat) (move : Move mod) : N ≤ counterStep mod receiveWindow N move := by
  have hnext : ∀ m, N ≤ Cyclic.next mod N m := fun m => Nat.le_add_right _ _
  cases move with
  | advance amount => exact Nat.le_add_right _ _
  | advanceToExcluded m => exact (hnext m).trans (Nat.le_succ _)
  | advanceAfter m => exact le_counterAfter mod receiveWindow N m
  | syncTo m => exact hnext m

theorem syncTo_position (w : GenerationWindow mod receiveWindow) {m : Nat} (hm : m < mod)
    (h : Cyclic.next mod w.position m / mod ≤ maxGeneration) :
    (w.syncTo m).position = Cyclic.next mod w.position m := by
  rw [syncTo, moveDist_eq w hm]
  exact advance_position w _ h

theorem advanceToExcluded_position (w : GenerationWindow mod receiveWindow) {m : Nat}
    (hm : m < mod) (h : (Cyclic.next mod w.position m + 1) / mod ≤ maxGeneration) :
    (w.advanceToExcluded m).position = Cyclic.next mod w.position m + 1 := by
  rw [advanceToExcluded, moveDist_eq w hm]
  exact advance_position w (Cyclic.ahead mod w.position m + 1) h

theorem mod_le_position {w : GenerationWindow mod receiveWindow} (h : 0 < w.generation) :
    mod ≤ w.position := (Nat.le_mul_of_pos_left mod h).trans (Nat.le_add_right _ _)

/-- The index of any id, as a distance ahead of the position or behind it. -/
theorem mappedToIndex_eq (w : GenerationWindow mod receiveWindow) (hW : 2 * receiveWindow ≤ mod)
    {m : Nat} (hm : m < mod) :
    w.mappedToIndex m =
      if Cyclic.ahead mod w.position m < receiveWindow then (Cyclic.ahead mod w.position m : Int)
      else if Cyclic.behind mod w.position m ≤ receiveWindow ∧
          Cyclic.behind mod w.position m ≤ w.position then -(Cyclic.behind mod w.position m : Int)
      else if w.mappedBaseOffset ≤ m then (Cyclic.ahead mod w.position m : Int)
      else -(Cyclic.behind mod w.position m : Int) := by
  have hb := w.base_lt
  have hpos := mod_le_position (w := w)
  have hbase : w.generation = 0 → w.position = w.mappedBaseOffset := by
    intro h
    rw [position, h, Nat.zero_mul, Nat.zero_add]
  have ha := Cyclic.ahead_eq (N := w.position) hm
  have hd := Cyclic.behind_eq (N := w.position) hm
  have hle : w.mappedBaseOffset ≤ w.position := Nat.le_add_left _ _
  rw [position_mod] at ha hd
  generalize Cyclic.ahead mod w.position m = a at ha ⊢
  generalize Cyclic.behind mod w.position m = d at hd ⊢
  simp only [mappedToIndex, isNextGen, isBehindAcrossWrap, decide_eq_true_eq]
  split_ifs at ha hd ⊢ <;> omega

/-- `advanceAfter` goes where the counter goes. -/
theorem advanceAfter_eq (w : GenerationWindow mod receiveWindow) (hW₀ : 0 < receiveWindow)
    (hW : 2 * receiveWindow ≤ mod) {m : Nat} (hm : m < mod) :
    w.advanceAfter m =
      w.advance (counterAfter mod receiveWindow w.position m - w.position : Nat) := by
  have hzero : Cyclic.behind mod w.position m = 0 → Cyclic.ahead mod w.position m = 0 := by
    rw [Cyclic.ahead_eq hm, Cyclic.behind_eq hm]
    have := Nat.mod_lt w.position w.mod_pos
    split_ifs <;> omega
  have hstay : w.advance ((w.position - w.position : Nat) : Int) = w :=
    advance_of_nonpos w (by omega)
  rw [advanceAfter, mappedToIndex_eq w hW hm, counterAfter, Cyclic.next, position_mod]
  by_cases h₁ : Cyclic.ahead mod w.position m < receiveWindow
  · rw [if_pos h₁, if_pos h₁, if_neg (by omega)]
    congr 1
    omega
  rw [if_neg h₁, if_neg h₁]
  by_cases h₂ : Cyclic.behind mod w.position m ≤ receiveWindow ∧
      Cyclic.behind mod w.position m ≤ w.position
  · rw [if_pos h₂, if_pos h₂, hstay]
    exact if_pos (by omega)
  rw [if_neg h₂, if_neg h₂]
  by_cases h₃ : w.mappedBaseOffset ≤ m
  · rw [if_pos h₃, if_pos h₃, if_neg (by omega)]
    congr 1
    omega
  · rw [if_neg h₃, if_neg h₃, hstay]
    exact if_pos (by omega)

theorem advanceAfter_position (w : GenerationWindow mod receiveWindow) (hW₀ : 0 < receiveWindow)
    (hW : 2 * receiveWindow ≤ mod) {m : Nat} (hm : m < mod)
    (h : counterAfter mod receiveWindow w.position m / mod ≤ maxGeneration) :
    (w.advanceAfter m).position = counterAfter mod receiveWindow w.position m := by
  have hle := le_counterAfter mod receiveWindow w.position m
  rw [advanceAfter_eq w hW₀ hW hm, advance_position w _ (by rwa [Nat.add_sub_cancel' hle]),
    Nat.add_sub_cancel' hle]

/-! ### The simulation -/

/-- A move takes the window where it takes the counter. -/
theorem apply_position (w : GenerationWindow mod receiveWindow) (hW₀ : 0 < receiveWindow)
    (hW : 2 * receiveWindow ≤ mod) (move : Move mod)
    (h : counterStep mod receiveWindow w.position move / mod ≤ maxGeneration) :
    (Move.apply w move).position = counterStep mod receiveWindow w.position move := by
  cases move with
  | advance amount =>
    rcases Int.le_total 0 amount with ha | ha
    · obtain ⟨k, rfl⟩ := Int.eq_ofNat_of_zero_le ha
      exact advance_position w k h
    · rw [Move.apply, advance_of_nonpos w ha, counterStep, Int.toNat_of_nonpos ha, Nat.add_zero]
  | advanceToExcluded m => exact advanceToExcluded_position w m.isLt h
  | advanceAfter m => exact advanceAfter_position w hW₀ hW m.isLt h
  | syncTo m => exact syncTo_position w m.isLt h

/-- **The window's position is the counter**, over every sequence of moves that
stays short of the cap. -/
theorem position_run [NeZero mod] (hW₀ : 0 < receiveWindow) (hW : 2 * receiveWindow ≤ mod)
    (moves : List (Move mod))
    (h : run (counterStep mod receiveWindow) 0 moves / mod ≤ maxGeneration) :
    (run Move.apply (new mod receiveWindow) moves).position =
      run (counterStep mod receiveWindow) 0 moves := by
  refine run_simulation (R := fun (w : GenerationWindow mod receiveWindow) N => w.position = N)
    (G := fun N => N / mod ≤ maxGeneration)
    (fun N move hN => ?_) (fun w N move hw hN => ?_) position_new h
  · exact (Nat.div_le_div_right (le_counterStep N move)).trans hN
  · subst hw
    exact apply_position w hW₀ hW move hN

theorem counterAfter_of_near {N A : Nat} (hW : 2 * receiveWindow ≤ mod)
    (h₁ : N - receiveWindow ≤ A) (h₂ : A < N + receiveWindow) :
    counterAfter mod receiveWindow N (A % mod) = max N (A + 1) := by
  unfold counterAfter
  rcases Nat.lt_or_ge A N with hA | hA
  · have hb := Cyclic.behind_mod hA.le (by omega : N < A + mod)
    have hmod : A % mod < mod := Nat.mod_lt _ (by omega)
    have ha : ¬Cyclic.ahead mod N (A % mod) < receiveWindow := by
      rw [Cyclic.behind_eq hmod] at hb
      rw [Cyclic.ahead_eq hmod]
      have := Nat.mod_lt N (by omega : 0 < mod)
      split_ifs at hb ⊢ <;> omega
    rw [if_neg ha, if_pos (by omega)]
    omega
  · have ha := Cyclic.ahead_mod hA (by omega : A < N + mod)
    rw [if_pos (by omega), Cyclic.next_of_mod hA (by omega)]
    omega

/-- What the queries say of the id of `A`, as the number `A` itself against the
position `N` would. -/
structure ReadsAs (w : GenerationWindow mod receiveWindow) (N A : Nat) : Prop where
  getGeneration : w.getGeneration (A % mod) = A / mod
  mappedToIndex : w.mappedToIndex (A % mod) = (A : Int) - N
  isOldPacket : w.isOldPacket (A % mod) = true ↔ A < N
  isInWindow : w.isInWindow (A % mod) = true ↔ N ≤ A

theorem readsAs_of_near {w : GenerationWindow mod receiveWindow} {A : Nat}
    (hW : 2 * receiveWindow ≤ mod) (h₁ : w.position - receiveWindow ≤ A)
    (h₂ : A < w.position + receiveWindow) : w.ReadsAs w.position A :=
  ⟨getGeneration_of_near hW h₁ h₂, mappedToIndex_of_near hW h₁ h₂, isOldPacket_of_near hW h₁ h₂,
    isInWindow_of_near hW h₁ h₂⟩

end GenerationWindow

open GenerationWindow

/-- **The window simulates an absolute counter.**  After any sequence of moves it
stands for the counter's number `N`; every move from there takes it where the
same move takes a counter at `N`; and every query about the id of a number
within a window of `N` gives what the number itself would.  The handler's
windows are `W = 1024` and `W = 32768`. -/
theorem generationWindow_simulates_counter (W : Nat) (hW₀ : 0 < W) (hW : 2 * W ≤ 65536)
    (moves : List (Move 65536))
    (hgen : run (counterStep 65536 W) 0 moves / 65536 < maxGeneration) :
    let w := run Move.apply (new 65536 W) moves
    let N := run (counterStep 65536 W) 0 moves
    w.generation * 65536 + w.mappedBaseOffset = N ∧
    (∀ k : Nat, (N + k) / 65536 ≤ maxGeneration → (w.advance k).position = N + k) ∧
    (∀ m < 65536, ∀ A, IsLeast {B | N ≤ B ∧ B % 65536 = m} A →
      (w.syncTo m).position = A ∧ (w.advanceToExcluded m).position = A + 1) ∧
    (∀ A, N - W ≤ A → A < N + W →
      w.ReadsAs N A ∧ (w.advanceAfter (A % 65536)).position = max N (A + 1)) ∧
    (∀ m < 65536, N ≤ (w.advanceAfter m).position ∧
      (w.isInWindow m = true ↔ w.isOldPacket m = false ∧ w.isFuturePacket m = false)) := by
  intro w N
  have hN : w.position = N := position_run hW₀ hW moves (by omega)
  have hnext : ∀ m, Cyclic.next 65536 N m < N + 65536 := fun m =>
    Nat.add_lt_add_left (Cyclic.ahead_lt (by omega) N m) N
  have hgenN : N / 65536 < maxGeneration := hgen
  have hafter : ∀ m, counterAfter 65536 W N m ≤ N + 65536 := by
    intro m
    have := hnext m
    unfold counterAfter
    split_ifs <;> omega
  have hmove : ∀ m < 65536, (w.advanceAfter m).position = counterAfter 65536 W N m := by
    intro m hm
    have := hafter m
    rw [← hN] at this hgenN ⊢
    exact advanceAfter_position w hW₀ hW hm (by omega)
  refine ⟨hN, fun k hk => ?_, fun m hm A hA => ?_, fun A h₁ h₂ => ?_, fun m hm => ?_⟩
  · rw [← hN] at hk ⊢
    exact advance_position w k hk
  · obtain rfl := Cyclic.eq_next_of_isLeast hm hA
    have := hnext m
    rw [← hN] at this hgenN ⊢
    exact ⟨syncTo_position w hm (by omega), advanceToExcluded_position w hm (by omega)⟩
  · rw [hmove _ (Nat.mod_lt _ (by omega)), counterAfter_of_near hW h₁ h₂]
    rw [← hN] at h₁ h₂ ⊢
    exact ⟨readsAs_of_near hW h₁ h₂, rfl⟩
  · rw [hmove m hm]
    exact ⟨le_counterAfter 65536 W N m, isInWindow_iff w hm⟩

/-- A window of the receive queues, taken over the wrap and back to an id behind it. -/
theorem generationWindow_simulates_counter_over_wrap :
    let w := run Move.apply (new 65536 1024)
      [.advance 65530, .advanceToExcluded 3, .advanceAfter 65535, .syncTo 7]
    w.generation = 1 ∧ w.mappedBaseOffset = 7 ∧ w.getGeneration 65535 = 0 ∧
      w.isOldPacket 65535 = true := by
  have h := generationWindow_simulates_counter 1024 (by decide) (by decide)
    [.advance 65530, .advanceToExcluded 3, .advanceAfter 65535, .syncTo 7] (by decide)
  have hA := (h.2.2.2.1 65535 (by decide) (by decide)).1
  exact ⟨by decide, by decide, hA.getGeneration, hA.isOldPacket.mpr (by decide)⟩

end Teamspeak.Transport
