import Mathlib.Data.Nat.ModEq
import Teamspeak.Client.Handshake
import Teamspeak.Lib.BigEndian

/-!
# The RSA challenge, in slices

`solveRsaChallenge` of `crypt.ts` as it runs: it squares a slice at a time and lets the
event loop run in between, where its signal may abort.  `Solving` is where it stands, with
the squarings it has done; `turn` is what it does until it lets go again.

* `bytesToBigInt_bigIntToBytes`, `bigIntToBytes_bytesToBigInt`: the conversions.
* `run_turn`: what it has come to after any number of turns.
* `solving_refines`: it comes to what the handshake is answered with.
* `solving_power`: it resolves with `x ^ 2 ^ level % n`, whatever the slices.
-/

namespace Teamspeak.Client

/-! ### Numbers of a fixed width -/

theorem bytesToBigInt_eq (bytes : Bytes) : bytesToBigInt bytes = BigEndian.value bytes := rfl

theorem bigIntToBytes_eq (value size : Nat) :
    bigIntToBytes value size = BigEndian.bytes value size := by
  induction size generalizing value with
  | zero => rfl
  | succ size ih => rw [bigIntToBytes, BigEndian.bytes, ih]

theorem length_bigIntToBytes (value size : Nat) : (bigIntToBytes value size).length = size := by
  rw [bigIntToBytes_eq, BigEndian.length_bytes]

theorem bytesToBigInt_bigIntToBytes {value size : Nat} (h : value < 256 ^ size) :
    bytesToBigInt (bigIntToBytes value size) = value := by
  rw [bytesToBigInt_eq, bigIntToBytes_eq, BigEndian.value_bytes h]

theorem bytesToBigInt_lt (bytes : Bytes) : bytesToBigInt bytes < 256 ^ bytes.length :=
  BigEndian.value_lt bytes

theorem bigIntToBytes_bytesToBigInt (bytes : Bytes) :
    bigIntToBytes (bytesToBigInt bytes) bytes.length = bytes := by
  rw [bytesToBigInt_eq, bigIntToBytes_eq, BigEndian.bytes_value]

/-! ### The solve -/

/-- `SQUARINGS_PER_SLICE`. -/
def squaringsPerSlice : Nat := 50000

/-- The number squared, and how often it was. -/
structure Squared where
  y : Nat
  squarings : Nat := 0

/-- `y = (y * y) % n`. -/
def Squared.square (n : Nat) (s : Squared) : Squared :=
  { y := s.y * s.y % n, squarings := s.squarings + 1 }

/-- Where a call of `solveRsaChallenge` stands. -/
inductive Solving
  /-- at the head of its loop -/
  | working (n level done : Nat) (s : Squared)
  | resolved (y : Bytes) (squarings : Nat)
  | rejected (error : HandshakeError)

/-- The call, up to its loop. -/
def startSolving (data : Bytes) (offset level : Nat) : Solving :=
  if level > maxRsaChallengeLevel then .rejected (.puzzleTooHard level)
  else
    let xBytes := (data.drop offset).take 64
    let nBytes := (data.drop (offset + 64)).take 64
    let n := bytesToBigInt nBytes
    if n = 0 then .rejected .zeroModulus
    else .working n level 0 { y := bytesToBigInt xBytes }

/-- The loop, up to where it lets the event loop run, and past its end; `aborted` says
whether its signal has aborted. -/
def turn (perSlice : Nat) (solving : Solving) (aborted : Bool) : Solving :=
  match solving with
  | .working n level done s =>
    if aborted then .rejected .interrupted
    else if done < level then
      let slice := if level - done < perSlice then level - done else perSlice
      let s := (Squared.square n)^[slice] s
      if done + slice < level then .working n level (done + slice) s
      else .resolved (bigIntToBytes s.y 64) s.squarings
    else .resolved (bigIntToBytes s.y 64) s.squarings
  | solving => solving

theorem iterate_square (n k : Nat) (s : Squared) :
    (Squared.square n)^[k] s =
      { y := (fun y => y * y % n)^[k] s.y, squarings := s.squarings + k } := by
  induction k generalizing s with
  | zero => rfl
  | succ k ih =>
    rw [Function.iterate_succ_apply, ih, Function.iterate_succ_apply, Squared.square,
      Nat.add_assoc, Nat.add_comm 1 k]

/-- Squaring `k` times modulo `n`. -/
theorem iterate_mul_self_mod (n x k : Nat) (hk : 0 < k) :
    (fun y => y * y % n)^[k] x = x ^ 2 ^ k % n := by
  induction k with
  | zero => cases hk
  | succ k ih =>
    rw [Function.iterate_succ_apply']
    cases k with
    | zero =>
      rw [Function.iterate_zero, id, Nat.zero_add, Nat.pow_one, Nat.pow_two]
    | succ k =>
      rw [ih (Nat.succ_pos k), ← Nat.mul_mod, ← Nat.pow_add, Nat.pow_succ 2 (k + 1), Nat.mul_two]

/-- At the head of its loop after `done` squarings. -/
def Working (n level x : Nat) (solving : Solving) (done : Nat) : Prop :=
  done < level ∧ solving = .working n level done
    { y := (fun y => y * y % n)^[done] x, squarings := done }

/-- Resolved, after `level` squarings. -/
def Resolved (n level x : Nat) (solving : Solving) : Prop :=
  solving = .resolved (bigIntToBytes ((fun y => y * y % n)^[level] x) 64) level

/-- One slice. -/
theorem turn_working {perSlice n level x done : Nat} {solving : Solving} (hslice : 0 < perSlice)
    (h : Working n level x solving done) :
    (∃ done', done < done' ∧ Working n level x (turn perSlice solving false) done') ∨
      Resolved n level x (turn perSlice solving false) := by
  obtain ⟨hlt, rfl⟩ := h
  have hsquared : ∀ slice, (Squared.square n)^[slice]
      { y := (fun y => y * y % n)^[done] x, squarings := done } =
      { y := (fun y => y * y % n)^[done + slice] x, squarings := done + slice } := by
    intro slice
    rw [iterate_square, Nat.add_comm done slice, Function.iterate_add_apply,
      Nat.add_comm slice done]
  rw [turn, if_neg Bool.false_ne_true, if_pos hlt]
  dsimp only
  split
  · rename_i hlast
    have hdone : done + (level - done) = level := by omega
    rw [hsquared, hdone, if_neg (Nat.lt_irrefl level)]
    exact Or.inr rfl
  · rw [hsquared]
    split
    · rename_i hmore
      exact Or.inl ⟨done + perSlice, Nat.lt_add_of_pos_right hslice, hmore, rfl⟩
    · rename_i hlast hmore
      have hdone : done + perSlice = level := by omega
      rw [hdone]
      exact Or.inr rfl

/-- **A run of turns** in which the signal does not abort: after each the solve has come
further, or has resolved. -/
theorem run_turn {perSlice n level x : Nat} {solving : Solving} (hslice : 0 < perSlice)
    (h : Working n level x solving 0) (k : Nat) :
    (∃ done, k ≤ done ∧ Working n level x
        ((List.replicate k false).foldl (turn perSlice) solving) done) ∨
      Resolved n level x ((List.replicate k false).foldl (turn perSlice) solving) := by
  induction k with
  | zero => exact Or.inl ⟨0, Nat.le_refl 0, h⟩
  | succ k ih =>
    rw [List.replicate_succ', List.foldl_concat]
    rcases ih with ⟨done, hk, hworking⟩ | hresolved
    · refine (turn_working hslice hworking).imp_left ?_
      rintro ⟨done', hlt, hworking'⟩
      exact ⟨done', Nat.lt_of_le_of_lt hk hlt, hworking'⟩
    · rw [hresolved]
      exact Or.inr rfl

/-- A call whose signal never aborts resolves with what the handshake is answered with. -/
theorem solving_resolved (data : Bytes) (offset : Nat) {level perSlice : Nat}
    (hslice : 0 < perSlice) (hlevel : 1 ≤ level) (hmax : level ≤ maxRsaChallengeLevel)
    (hn : bytesToBigInt ((data.drop (offset + 64)).take 64) ≠ 0) {turns : Nat}
    (hturns : level ≤ turns) :
    Resolved (bytesToBigInt ((data.drop (offset + 64)).take 64)) level
      (bytesToBigInt ((data.drop offset).take 64))
      ((List.replicate turns false).foldl (turn perSlice) (startSolving data offset level)) := by
  have hstart : Working (bytesToBigInt ((data.drop (offset + 64)).take 64)) level
      (bytesToBigInt ((data.drop offset).take 64)) (startSolving data offset level) 0 := by
    refine ⟨hlevel, ?_⟩
    rw [startSolving, if_neg (Nat.not_lt.mpr hmax)]
    dsimp only
    rw [if_neg hn]
    rfl
  rcases run_turn hslice hstart turns with ⟨done, hle, hlt, -⟩ | hresolved
  · omega
  · exact hresolved

/-- In slices it comes to what the handshake takes it to come to. -/
theorem solving_refines {data : Bytes} {offset level perSlice : Nat} (hslice : 0 < perSlice)
    (hlevel : 1 ≤ level) {y : Bytes} (h : solveRsaChallenge data offset level = .ok y) {turns : Nat}
    (hturns : level ≤ turns) :
    (List.replicate turns false).foldl (turn perSlice) (startSolving data offset level) =
      .resolved y level := by
  rw [solveRsaChallenge] at h
  split at h
  · cases h
  rename_i hmax
  split at h
  · cases h
  rename_i hn
  have hresolved := solving_resolved _ _ hslice hlevel (Nat.le_of_not_lt hmax) hn hturns
  rw [hresolved, Except.ok.inj h]

/-- **The solution**: of 64-byte numbers `x` and `n` at `offset` the call makes `level`
squarings, however many it does at a time, and resolves with the 64 bytes of
`x ^ 2 ^ level % n`; and these bytes and numbers determine each other. -/
theorem solving_power {before x n after : Bytes} (hx : x.length = 64) (hn : n.length = 64)
    (hzero : bytesToBigInt n ≠ 0) {level : Nat} (hlevel : 1 ≤ level)
    (hmax : level ≤ maxRsaChallengeLevel) {perSlice : Nat} (hslice : 0 < perSlice) {turns : Nat}
    (hturns : level ≤ turns) :
    (List.replicate turns false).foldl (turn perSlice)
        (startSolving (before ++ x ++ n ++ after) before.length level) =
      .resolved (bigIntToBytes (bytesToBigInt x ^ 2 ^ level % bytesToBigInt n) 64) level ∧
    bytesToBigInt (bigIntToBytes (bytesToBigInt x ^ 2 ^ level % bytesToBigInt n) 64) =
      bytesToBigInt x ^ 2 ^ level % bytesToBigInt n ∧
    (∀ bytes : Bytes, bytes.length = 64 → bigIntToBytes (bytesToBigInt bytes) 64 = bytes) ∧
    (∀ value < 256 ^ 64, (bigIntToBytes value 64).length = 64 ∧
      bytesToBigInt (bigIntToBytes value 64) = value) := by
  have hbytes : ∀ value < 256 ^ 64, bytesToBigInt (bigIntToBytes value 64) = value :=
    fun value h => bytesToBigInt_bigIntToBytes h
  have hxs : (((before ++ x ++ n ++ after).drop before.length).take 64) = x := by
    rw [List.append_assoc, List.append_assoc, List.drop_left, ← hx, List.take_left]
  have hns : (((before ++ x ++ n ++ after).drop (before.length + 64)).take 64) = n := by
    rw [List.append_assoc, ← hx, ← List.length_append, List.drop_left, hx, ← hn, List.take_left]
  have hresolved := solving_resolved (before ++ x ++ n ++ after) before.length
    hslice hlevel hmax (by rwa [hns]) hturns
  rw [hns, hxs, Resolved, iterate_mul_self_mod _ _ _ hlevel] at hresolved
  refine ⟨hresolved, hbytes _ ?_, fun bytes h => ?_,
    fun value h => ⟨length_bigIntToBytes value 64, hbytes value h⟩⟩
  · have hlt := bytesToBigInt_lt n
    rw [hn] at hlt
    exact (Nat.mod_lt _ (Nat.pos_of_ne_zero hzero)).trans hlt
  · rw [← h]
    exact bigIntToBytes_bytesToBigInt bytes

theorem solving_power_three :
    (List.replicate 2 false).foldl (turn squaringsPerSlice)
        (startSolving ([0x04] ++ (List.replicate 63 0 ++ [3]) ++ (List.replicate 63 0 ++ [7]) ++ [])
          1 2) = .resolved (List.replicate 63 0 ++ [4]) 2 := by
  have h := @solving_power [0x04] (List.replicate 63 0 ++ [3]) (List.replicate 63 0 ++ [7]) []
    rfl rfl (by decide) 2 (by decide) (by decide) squaringsPerSlice (by decide) 2 (by decide)
  exact h.1.trans (congrArg (Solving.resolved · 2) (by decide))

end Teamspeak.Client
