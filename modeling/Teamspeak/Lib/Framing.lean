import Mathlib.Data.List.Infix

/-!
# Frames in a stream of marked items

A message is sent as one item, or as several, and one mark on an item says both
where it starts and where it ends: a message of one item is unmarked, and of a
longer one the first and the last item are marked and no other.  `scan` reads to
the end of a message, and `IsFrame` says a list of items is just one message.

* `isFrame_iff`: what a frame looks like.
* `IsFrame.eq_of_prefix`: two frames that start the same stream are the same.
* `prefix_of_flatten_prefix`: so messages read from the start of a stream of
  messages are the first of them, none merged with the next and none cut.
-/

namespace Teamspeak.Framing

variable {α : Type*} (mark : α → Bool)

/-- Read to the item that closes the message; `seen` says whether its first item
has been read. -/
def scan (seen : Bool) : List α → Option (List α)
  | [] => none
  | a :: l => if seen = mark a then some [a] else (scan true l).map (a :: ·)

/-- The list is one message, whole and with nothing after it. -/
def IsFrame (l : List α) : Prop := scan mark false l = some l

variable {mark}

theorem scan_append {seen : Bool} {l f : List α} (h : scan mark seen l = some f) (r : List α) :
    scan mark seen (l ++ r) = some f := by
  induction l generalizing seen f with
  | nil => exact absurd h (by simp [scan])
  | cons a l ih =>
    rw [List.cons_append, scan]
    rw [scan] at h
    split_ifs at h ⊢ with ha
    · exact h
    · obtain ⟨g, hg, rfl⟩ := Option.map_eq_some_iff.mp h
      rw [ih hg, Option.map_some]

/-- What is read is a prefix, and reading it alone gives the same. -/
theorem prefix_of_scan {seen : Bool} {l f : List α} (h : scan mark seen l = some f) :
    f <+: l ∧ scan mark seen f = some f := by
  induction l generalizing seen f with
  | nil => exact absurd h (by simp [scan])
  | cons a l ih =>
    rw [scan] at h
    split_ifs at h with ha
    · rw [← Option.some.inj h]
      exact ⟨⟨l, rfl⟩, by simp [scan, ha]⟩
    · obtain ⟨g, hg, rfl⟩ := Option.map_eq_some_iff.mp h
      obtain ⟨hp, hs⟩ := ih hg
      exact ⟨List.cons_prefix_cons.mpr ⟨rfl, hp⟩, by rw [scan, if_neg ha, hs, Option.map_some]⟩

/-- After the first item, reading goes over unmarked ones to a marked one. -/
theorem scan_true_iff {l : List α} :
    scan mark true l = some l ↔
      ∃ mid z, l = mid ++ [z] ∧ (∀ m ∈ mid, mark m = false) ∧ mark z = true := by
  induction l with
  | nil => simp [scan]
  | cons a l ih =>
    rw [scan]
    split_ifs with ha
    · constructor
      · intro h
        obtain rfl : l = [] := by simpa using h.symm
        exact ⟨[], a, rfl, by simp, ha.symm⟩
      · rintro ⟨mid, z, heq, hmid, -⟩
        cases mid with
        | nil =>
          obtain ⟨rfl, rfl⟩ := by simpa using heq
          rfl
        | cons m mid =>
          rw [List.cons_append, List.cons.injEq] at heq
          have := hmid m List.mem_cons_self
          rw [← heq.1, ← ha] at this
          exact absurd this (by simp)
    · have hmark : mark a = false := by simpa using Ne.symm ha
      rw [Option.map_eq_some_iff]
      simp only [List.cons.injEq, true_and, exists_eq_right, ih]
      constructor
      · rintro ⟨mid, z, rfl, hmid, hz⟩
        refine ⟨a :: mid, z, rfl, ?_, hz⟩
        simpa [hmark] using hmid
      · rintro ⟨mid, z, heq, hmid, hz⟩
        cases mid with
        | nil =>
          obtain ⟨rfl, rfl⟩ := by simpa using heq
          rw [hmark] at hz
          exact absurd hz (by simp)
        | cons m mid =>
          rw [List.cons_append, List.cons.injEq] at heq
          exact ⟨mid, z, heq.2, fun x hx => hmid x (List.mem_cons_of_mem _ hx), hz⟩

/-- **What a frame looks like**: one unmarked item, or a marked first and a marked
last one with none marked between. -/
theorem isFrame_iff {l : List α} :
    IsFrame mark l ↔ (∃ a, l = [a] ∧ mark a = false) ∨
      ∃ a mid z, l = a :: (mid ++ [z]) ∧ mark a = true ∧ (∀ m ∈ mid, mark m = false) ∧
        mark z = true := by
  cases l with
  | nil => simp [IsFrame, scan]
  | cons a l =>
    rw [IsFrame, scan]
    split_ifs with ha
    · constructor
      · intro h
        obtain rfl : l = [] := by simpa using h.symm
        exact Or.inl ⟨a, rfl, ha.symm⟩
      · rintro (⟨b, heq, -⟩ | ⟨b, mid, z, heq, hb, -⟩)
        · rw [(List.cons.inj heq).2]
        · rw [(List.cons.inj heq).1, hb] at ha
          exact absurd ha (by simp)
    · have hmark : mark a = true := by simpa using Ne.symm ha
      rw [Option.map_eq_some_iff]
      simp only [List.cons.injEq, true_and, exists_eq_right, scan_true_iff]
      constructor
      · rintro ⟨mid, z, rfl, h⟩
        exact Or.inr ⟨a, mid, z, ⟨rfl, rfl⟩, hmark, h⟩
      · rintro (⟨b, ⟨rfl, -⟩, hb⟩ | ⟨b, mid, z, ⟨-, rfl⟩, -, h⟩)
        · rw [hmark] at hb
          exact absurd hb (by simp)
        · exact ⟨mid, z, rfl, h⟩

theorem scan_map {β : Type*} (g : β → α) (seen : Bool) (l : List β) :
    scan mark seen (l.map g) = (scan (mark ∘ g) seen l).map (List.map g) := by
  induction l generalizing seen with
  | nil => rfl
  | cons b l ih =>
    rw [List.map_cons, scan, scan]
    by_cases hb : seen = mark (g b)
    · rw [if_pos hb, if_pos (by exact hb)]
      rfl
    · rw [if_neg hb, if_neg (by exact hb), ih, Option.map_map, Option.map_map]
      rfl

/-- A list is a frame by its marks alone. -/
theorem isFrame_map {β : Type*} {g : β → α} {l : List β} :
    IsFrame mark (l.map g) ↔ IsFrame (mark ∘ g) l := by
  constructor
  · intro h
    rw [IsFrame, scan_map] at h
    obtain ⟨l', hl', hmap⟩ := Option.map_eq_some_iff.mp h
    have hlen := congrArg List.length hmap
    rw [List.length_map, List.length_map] at hlen
    rw [(prefix_of_scan hl').1.eq_of_length hlen] at hl'
    exact hl'
  · intro h
    rw [IsFrame, scan_map, h, Option.map_some]

theorem IsFrame.ne_nil {f : List α} (h : IsFrame mark f) : f ≠ [] := by
  rintro rfl
  simp [IsFrame, scan] at h

theorem IsFrame.length_pos {f : List α} (h : IsFrame mark f) : 0 < f.length :=
  List.length_pos_iff.mpr h.ne_nil

/-- Two frames that start the same stream are the same. -/
theorem IsFrame.eq_of_prefix {f g l : List α} (hf : IsFrame mark f) (hg : IsFrame mark g)
    (hfl : f <+: l) (hgl : g <+: l) : f = g := by
  obtain ⟨r, rfl⟩ := hfl
  obtain ⟨r', hr'⟩ := hgl
  have h := scan_append hf r
  rw [← hr', scan_append hg r'] at h
  exact (Option.some.inj h).symm

/-- **Messages read from the start of a stream of messages are the first of them.** -/
theorem prefix_of_flatten_prefix {fs gs : List (List α)} (hfs : ∀ f ∈ fs, IsFrame mark f)
    (hgs : ∀ g ∈ gs, IsFrame mark g) (h : fs.flatten <+: gs.flatten) : fs <+: gs := by
  induction fs generalizing gs with
  | nil => exact List.nil_prefix
  | cons f fs ih =>
    have hf := hfs f List.mem_cons_self
    cases gs with
    | nil =>
      rw [List.flatten_nil, List.prefix_nil, List.flatten_cons, List.append_eq_nil_iff] at h
      exact absurd h.1 hf.ne_nil
    | cons g gs =>
      rw [List.flatten_cons, List.flatten_cons] at h
      have hfg : f = g :=
        hf.eq_of_prefix (hgs g List.mem_cons_self) ((List.prefix_append f _).trans h)
          (List.prefix_append g _)
      subst hfg
      refine List.cons_prefix_cons.mpr ⟨rfl, ?_⟩
      exact ih (fun x hx => hfs x (List.mem_cons_of_mem _ hx))
        (fun x hx => hgs x (List.mem_cons_of_mem _ hx)) ((List.prefix_append_right_inj f).mp h)

theorem exists_scan_true {l : List α} {z : α} (hz : z ∈ l) (hmark : mark z = true) :
    ∃ f, scan mark true l = some f := by
  induction l with
  | nil => exact absurd hz (by simp)
  | cons a l ih =>
    rw [scan]
    split_ifs with ha
    · exact ⟨_, rfl⟩
    · rcases List.mem_cons.mp hz with rfl | hz
      · exact absurd hmark.symm ha
      · obtain ⟨f, hf⟩ := ih hz
        exact ⟨a :: f, by rw [hf, Option.map_some]⟩

/-- A list starts with a frame if its first item is unmarked, or any other marked. -/
theorem exists_frame_prefix {a : α} {l : List α}
    (h : mark a = false ∨ ∃ z ∈ l, mark z = true) : ∃ f, IsFrame mark f ∧ f <+: a :: l := by
  suffices hs : ∃ f, scan mark false (a :: l) = some f by
    obtain ⟨f, hf⟩ := hs
    exact ⟨f, (prefix_of_scan hf).2, (prefix_of_scan hf).1⟩
  rw [scan]
  split_ifs with ha
  · exact ⟨_, rfl⟩
  · rcases h with h | ⟨z, hz, hmark⟩
    · exact absurd h.symm ha
    · obtain ⟨f, hf⟩ := exists_scan_true hz hmark
      exact ⟨a :: f, by rw [hf, Option.map_some]⟩

end Teamspeak.Framing
