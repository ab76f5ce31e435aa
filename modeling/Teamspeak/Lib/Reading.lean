import Mathlib.Data.List.Basic

/-!
# Reading a byte string, with the places read

A `Reading` comes to a value or an error, and says which places it read on the way, so that
one outside the string shows.

* `result_bind_eq_ok`: one reading after another, where both come to a value.
* `within_bind`: what holds of all places read by one reading after another.
-/

namespace Teamspeak

/-- A place read: its index, and the string. -/
structure Access where
  index : Nat
  data : List UInt8
  deriving DecidableEq

/-- The place is one of the string's. -/
def Access.Inside (a : Access) : Prop := a.index < a.data.length

instance (a : Access) : Decidable a.Inside := inferInstanceAs (Decidable (_ < _))

structure Reading (ε α : Type) where
  accesses : List Access
  result : Except ε α

namespace Reading

variable {ε α β : Type}

def fail (e : ε) : Reading ε α := ⟨[], .error e⟩

/-- A reading and then another, which is told what the first came to. -/
def andThen (x : Reading ε α) (f : α → Reading ε β) : Reading ε β :=
  match x.result with
  | .error e => ⟨x.accesses, .error e⟩
  | .ok a => ⟨x.accesses ++ (f a).accesses, (f a).result⟩

instance : Monad (Reading ε) where
  pure a := ⟨[], .ok a⟩
  bind := andThen

/-- The byte at a place; outside the string there is none, and 0 is taken for it. -/
def byte (data : List UInt8) (i : Nat) : Reading ε UInt8 :=
  ⟨[⟨i, data⟩], .ok (data.getD i 0)⟩

@[simp] theorem result_pure (a : α) : (pure a : Reading ε α).result = .ok a := rfl
@[simp] theorem result_fail (e : ε) : (fail e : Reading ε α).result = .error e := rfl
@[simp] theorem result_byte (data : List UInt8) (i : Nat) :
    (byte data i : Reading ε UInt8).result = .ok (data.getD i 0) := rfl

theorem result_bind_of_ok {x : Reading ε α} {a : α} (h : x.result = .ok a)
    (f : α → Reading ε β) : (x >>= f).result = (f a).result := by
  show (andThen x f).result = _
  rw [andThen, h]

theorem result_bind_of_error {x : Reading ε α} {e : ε} (h : x.result = .error e)
    (f : α → Reading ε β) : (x >>= f).result = .error e := by
  show (andThen x f).result = _
  rw [andThen, h]

@[simp] theorem result_byte_bind (data : List UInt8) (i : Nat) (f : UInt8 → Reading ε β) :
    (byte data i >>= f).result = (f (data.getD i 0)).result :=
  result_bind_of_ok (result_byte data i) f

theorem result_bind_eq_ok {x : Reading ε α} {f : α → Reading ε β} {b : β} :
    (x >>= f).result = .ok b ↔ ∃ a, x.result = .ok a ∧ (f a).result = .ok b := by
  cases h : x.result with
  | error e =>
    rw [result_bind_of_error h]
    refine ⟨nofun, ?_⟩
    rintro ⟨a, ha, -⟩
    cases ha
  | ok a =>
    rw [result_bind_of_ok h]
    refine ⟨fun hf => ⟨a, rfl, hf⟩, ?_⟩
    rintro ⟨a', ha, hf⟩
    exact Except.ok.inj ha ▸ hf

/-! ### The places read -/

/-- `P` holds of every place read. -/
def Within (P : Access → Prop) (x : Reading ε α) : Prop := ∀ a ∈ x.accesses, P a

variable {P Q : Access → Prop}

@[simp] theorem within_pure (a : α) : (pure a : Reading ε α).Within P := nofun

@[simp] theorem within_fail (e : ε) : (fail e : Reading ε α).Within P := nofun

@[simp] theorem within_byte {data : List UInt8} {i : Nat} :
    (byte data i : Reading ε UInt8).Within P ↔ P ⟨i, data⟩ := List.forall_mem_singleton

theorem within_bind {x : Reading ε α} {f : α → Reading ε β} :
    (x >>= f).Within P ↔ x.Within P ∧ ∀ a, x.result = .ok a → (f a).Within P := by
  show (andThen x f).Within P ↔ _
  unfold andThen Within
  cases x.result with
  | error e => exact ⟨fun h => ⟨h, nofun⟩, And.left⟩
  | ok a =>
    rw [List.forall_mem_append]
    exact and_congr_right fun _ =>
      ⟨fun h a' ha => Except.ok.inj ha ▸ h, fun h => h a rfl⟩

theorem Within.mono {x : Reading ε α} (h : x.Within P) (hPQ : ∀ a, P a → Q a) : x.Within Q :=
  fun a ha => hPQ a (h a ha)

end Reading

end Teamspeak
