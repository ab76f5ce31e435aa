import Mathlib.Data.List.Basic
import Teamspeak.Lib.InsertionMap

/-!
# Strings

A string is the list of its UTF-16 code units, as JavaScript's are, so that
nothing is lost on a lone surrogate.  `Params` is a `Record<string, string>` made
without a prototype: what `parseCommand` reads from a line.
-/

namespace Teamspeak

/-- A string, as its UTF-16 code units. -/
abbrev Str := List UInt16

instance : LawfulBEq Str := inferInstanceAs (LawfulBEq (List UInt16))

namespace Str

/-- A literal, all of whose characters are single code units. -/
def of (s : String) : Str := s.toList.map fun c => UInt16.ofNat c.toNat

/-- `String(n)` of a natural number. -/
def ofNat (n : Nat) : Str := (Nat.toDigits 10 n).map fun c => UInt16.ofNat c.toNat

/-- `[0-9]`. -/
def isDigit (c : UInt16) : Bool := 48 ≤ c.toNat ∧ c.toNat ≤ 57

/-- `[A-Za-z0-9]`. -/
def isAlphanumeric (c : UInt16) : Bool :=
  isDigit c ∨ (65 ≤ c.toNat ∧ c.toNat ≤ 90) ∨ (97 ≤ c.toNat ∧ c.toNat ≤ 122)

/-- The number that a run of decimal digits stands for. -/
def digitsValue (s : Str) : Nat := s.foldl (fun n c => n * 10 + (c.toNat - 48)) 0

theorem isDigit_of_mem_ofNat {n : Nat} {c : UInt16} (hc : c ∈ ofNat n) : isDigit c = true := by
  obtain ⟨d, hd, rfl⟩ := List.mem_map.mp hc
  have hdigit : d.isDigit = true := Nat.isDigit_of_mem_toDigits (by decide) (by decide) hd
  simp only [Char.isDigit, Bool.and_eq_true, decide_eq_true_eq, UInt32.le_iff_toNat_le] at hdigit
  have hle : d.toNat ≤ 57 := hdigit.2
  have hge : 48 ≤ d.toNat := hdigit.1
  simp only [isDigit, decide_eq_true_eq, UInt16.toNat_ofNat']
  omega

theorem ofNat_ne_nil (n : Nat) : ofNat n ≠ [] := by
  rw [ofNat, ne_eq, List.map_eq_nil_iff]
  exact Nat.toDigits_ne_nil

/-- A number that was written is read back. -/
theorem digitsValue_ofNat (n : Nat) : digitsValue (ofNat n) = n := by
  have hdigits : ∀ d ∈ Nat.toDigits 10 n, d.toNat ≤ 57 := by
    intro d hd
    have hdigit : d.isDigit = true := Nat.isDigit_of_mem_toDigits (by decide) (by decide) hd
    simp only [Char.isDigit, Bool.and_eq_true, decide_eq_true_eq, UInt32.le_iff_toNat_le] at hdigit
    exact hdigit.2
  have hfold (l : List Char) (hl : ∀ d ∈ l, d.toNat ≤ 57) (m : Nat) :
      (l.map fun c => UInt16.ofNat c.toNat).foldl (fun n c => n * 10 + (c.toNat - 48)) m =
        Nat.ofDigitChars 10 l m := by
    induction l generalizing m with
    | nil => rfl
    | cons d l ih =>
      have hd := hl d List.mem_cons_self
      have hunit : (UInt16.ofNat d.toNat).toNat = d.toNat := by
        rw [UInt16.toNat_ofNat']
        omega
      rw [List.map_cons, List.foldl_cons, ih fun e he => hl e (List.mem_cons_of_mem _ he), hunit,
        Nat.ofDigitChars_cons, Nat.mul_comm]
      rfl
  rw [digitsValue, ofNat, hfold _ hdigits, Nat.ofDigitChars_ten_toDigits]

end Str

/-- What a line gives under its keys. -/
abbrev Params := InsertionMap Str Str

instance {κ α : Type*} [DecidableEq κ] [DecidableEq α] : DecidableEq (InsertionMap κ α) :=
  fun m m' => decidable_of_iff (m.entries = m'.entries)
    ⟨fun h => by cases m; cases m'; simpa using h, fun h => by rw [h]⟩

/-- Something whose fields can be read by name. -/
class Fields (ρ : Type*) where
  field? : ρ → Str → Option Str

export Fields (field?)

instance : Fields Params := ⟨InsertionMap.get?⟩

end Teamspeak
