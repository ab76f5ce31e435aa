import Mathlib.Data.List.Basic

/-!
# Objects with identity

A heap holds the objects a program has made, and a reference names one of them.  An
object stays for good; what it holds changes only where it is written to.

* `alloc` makes an object, `write` changes one in place.
* `Keeps h h'`: whatever `h` holds, `h'` holds unchanged.
* `KeepsBut r h h'`: the same, but for the object at `r`.
-/

namespace Teamspeak

/-- The place of an object of type `α`. -/
structure Ref (α : Type*) where
  index : Nat
  deriving DecidableEq

structure Heap (α : Type*) where
  objects : List α := []

namespace Heap

variable {α : Type*}

def read (h : Heap α) (r : Ref α) : Option α := h.objects[r.index]?

/-- A new object, and the reference to it. -/
def alloc (h : Heap α) (a : α) : Heap α × Ref α :=
  (⟨h.objects ++ [a]⟩, ⟨h.objects.length⟩)

def write (h : Heap α) (r : Ref α) (a : α) : Heap α := ⟨h.objects.set r.index a⟩

def Keeps (h h' : Heap α) : Prop := ∀ r a, h.read r = some a → h'.read r = some a

def KeepsBut (r : Ref α) (h h' : Heap α) : Prop :=
  ∀ r' a, r' ≠ r → h.read r' = some a → h'.read r' = some a

theorem Keeps.refl (h : Heap α) : h.Keeps h := fun _ _ hr => hr

theorem Keeps.trans {h h' h'' : Heap α} (hk : h.Keeps h') (hk' : h'.Keeps h'') : h.Keeps h'' :=
  fun r a hr => hk' r a (hk r a hr)

theorem Keeps.but {h h' : Heap α} (hk : h.Keeps h') (r : Ref α) : KeepsBut r h h' :=
  fun r' a _ hr => hk r' a hr

theorem KeepsBut.trans {r : Ref α} {h h' h'' : Heap α} (hk : KeepsBut r h h')
    (hk' : KeepsBut r h' h'') : KeepsBut r h h'' :=
  fun r' a hne hr => hk' r' a hne (hk r' a hne hr)

theorem keeps_alloc (h : Heap α) (a : α) : h.Keeps (h.alloc a).1 := by
  intro r b hr
  obtain ⟨hlt, -⟩ := List.getElem?_eq_some_iff.mp hr
  rw [alloc, read, List.getElem?_append_left hlt]
  exact hr

@[simp] theorem read_alloc (h : Heap α) (a : α) : (h.alloc a).1.read (h.alloc a).2 = some a :=
  List.getElem?_concat_length

/-- A new object is none of the old ones. -/
theorem ne_alloc {h : Heap α} {r : Ref α} {b : α} (hr : h.read r = some b) (a : α) :
    (h.alloc a).2 ≠ r := by
  rintro rfl
  have : h.objects[h.objects.length]? = some b := hr
  rw [List.getElem?_eq_none (Nat.le_refl _)] at this
  cases this

theorem keepsBut_write (h : Heap α) (r : Ref α) (a : α) : KeepsBut r h (h.write r a) := by
  intro r' b hne hr
  have hindex : r.index ≠ r'.index := fun heq => hne (by cases r; cases r'; cases heq; rfl)
  rw [write, read, List.getElem?_set_ne hindex]
  exact hr

theorem read_write {h : Heap α} {r : Ref α} {b : α} (hr : h.read r = some b) (a : α) :
    (h.write r a).read r = some a := by
  obtain ⟨hlt, -⟩ := List.getElem?_eq_some_iff.mp hr
  exact List.getElem?_set_self hlt

end Heap

end Teamspeak
