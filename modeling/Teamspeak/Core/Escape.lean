import Teamspeak.Core.Command

/-!
# Escaping

The eleven replacements of `escape` come to one pass over the text
(`escape_cons`, `escape_unit`), since only the first of them sees a backslash that
was not put there by another.

* `unescape_escape`: nothing is lost.
* `separator_not_mem_escape`: what is escaped has no space and no pipe.
* `escape_of_plain`: names and keys stand as they are.
-/

namespace Teamspeak

/-! ### One pass -/

theorem replaceAll_nil (c : UInt16) (r : Str) : replaceAll c r [] = [] := by
  unfold replaceAll
  rw [List.splitOn_nil, List.intercalate_singleton]

theorem replaceAll_cons (c : UInt16) (r : Str) (x : UInt16) (s : Str) :
    replaceAll c r (x :: s) = (if x = c then r else [x]) ++ replaceAll c r s := by
  unfold replaceAll
  rw [List.splitOn_cons_eq_if_modifyHead]
  have hne := List.splitOn_ne_nil c s
  by_cases hx : x = c
  · rw [if_pos (by simpa using hx), if_pos hx, List.intercalate_cons_of_ne_nil hne]
    rfl
  · rw [if_neg (by simpa using hx), if_neg hx]
    obtain ⟨head, tail, hsplit⟩ := List.exists_cons_of_ne_nil hne
    rw [hsplit, List.modifyHead_cons, List.intercalate_cons_cons_left]
    rfl

theorem replaceAll_append (c : UInt16) (r s t : Str) :
    replaceAll c r (s ++ t) = replaceAll c r s ++ replaceAll c r t := by
  induction s with
  | nil => rw [replaceAll_nil, List.nil_append, List.nil_append]
  | cons x s ih =>
    rw [List.cons_append, replaceAll_cons, replaceAll_cons, ih, List.append_assoc]

theorem foldl_replaceAll_append (table : List (UInt16 × Str)) (s t : Str) :
    table.foldl (fun result e => replaceAll e.1 e.2 result) (s ++ t) =
      table.foldl (fun result e => replaceAll e.1 e.2 result) s ++
        table.foldl (fun result e => replaceAll e.1 e.2 result) t := by
  induction table generalizing s t with
  | nil => rfl
  | cons e table ih =>
    rw [List.foldl_cons, List.foldl_cons, List.foldl_cons, replaceAll_append, ih]

theorem escape_nil : escape [] = [] := by decide

theorem escape_cons (c : UInt16) (s : Str) : escape (c :: s) = escape [c] ++ escape s :=
  foldl_replaceAll_append escapeMap [c] s

/-- A character that some replacement is for becomes what stands for it. -/
theorem escape_unit : ∀ e ∈ escapeMap, escape [e.1] = e.2 := by decide

theorem foldl_replaceAll_of_forall_ne {c : UInt16} {table : List (UInt16 × Str)}
    (h : ∀ e ∈ table, c ≠ e.1) :
    table.foldl (fun result e => replaceAll e.1 e.2 result) [c] = [c] := by
  induction table with
  | nil => rfl
  | cons e table ih =>
    have hc : replaceAll e.1 e.2 [c] = [c] := by
      rw [replaceAll_cons, replaceAll_nil, if_neg (h e List.mem_cons_self), List.append_nil]
    rw [List.foldl_cons, hc]
    exact ih fun e he => h e (List.mem_cons_of_mem _ he)

/-- Any other stands for itself. -/
theorem escape_other {c : UInt16} (h : ∀ e ∈ escapeMap, c ≠ e.1) : escape [c] = [c] :=
  foldl_replaceAll_of_forall_ne h

/-- A character is replaced, or it is not. -/
theorem escape_unit_cases (c : UInt16) :
    (∃ e ∈ escapeMap, c = e.1 ∧ escape [c] = e.2) ∨
      ((∀ e ∈ escapeMap, c ≠ e.1) ∧ escape [c] = [c]) := by
  by_cases h : ∃ e ∈ escapeMap, c = e.1
  · obtain ⟨e, he, rfl⟩ := h
    exact Or.inl ⟨e, he, rfl, escape_unit e he⟩
  · have hne : ∀ e ∈ escapeMap, c ≠ e.1 := fun e he hc => h ⟨e, he, hc⟩
    exact Or.inr ⟨hne, escape_other hne⟩

/-! ### Unescaping -/

theorem unescape_cons {c : UInt16} (hc : c ≠ backslash) (s : Str) :
    unescape (c :: s) = c :: unescape s := by
  cases s with
  | nil => rfl
  | cons next s => rw [unescape, if_neg hc]

theorem unescape_escaped {next u : UInt16} (h : unescapeTable.lookup next = some u) (s : Str) :
    unescape (backslash :: next :: s) = u :: unescape s := by
  rw [unescape, if_pos rfl, h]

theorem backslash_escaped : ∃ e ∈ escapeMap, backslash = e.1 := by decide

/-- Every replacement is a backslash and a character that reads back as it. -/
theorem escapeMap_unescapes :
    ∀ e ∈ escapeMap, e.2 = [backslash, e.2.getLastD 0] ∧
      unescapeTable.lookup (e.2.getLastD 0) = some e.1 := by decide

/-- **Escaping is undone exactly.** -/
theorem unescape_escape (s : Str) : unescape (escape s) = s := by
  induction s with
  | nil => rw [escape_nil, unescape]
  | cons c s ih =>
    rw [escape_cons]
    rcases escape_unit_cases c with ⟨e, he, rfl, hc⟩ | ⟨hne, hc⟩
    · obtain ⟨hshape, hlookup⟩ := escapeMap_unescapes e he
      rw [hc, hshape, List.cons_append, List.cons_append, List.nil_append,
        unescape_escaped hlookup, ih]
    · have hback : c ≠ backslash := by
        obtain ⟨e, he, heq⟩ := backslash_escaped
        exact heq ▸ hne e he
      rw [hc, List.singleton_append, unescape_cons hback, ih]

/-! ### What escaped text holds -/

/-- What separates tokens or rows is escaped, and stands in no replacement. -/
theorem separator_escaped {sep : UInt16} (hsep : sep ∈ [space, pipe]) :
    (∃ e ∈ escapeMap, sep = e.1) ∧ ∀ e ∈ escapeMap, sep ∉ e.2 := by
  rcases List.mem_pair.mp hsep with rfl | rfl
  · decide
  · decide

/-- A character that is escaped, and stands in no replacement, is not left. -/
theorem not_mem_escape {c : UInt16}
    (hc : (∃ e ∈ escapeMap, c = e.1) ∧ ∀ e ∈ escapeMap, c ∉ e.2) (s : Str) : c ∉ escape s := by
  obtain ⟨⟨e₀, he₀, hfst⟩, hnot⟩ := hc
  induction s with
  | nil => exact escape_nil ▸ List.not_mem_nil
  | cons d s ih =>
    rw [escape_cons, List.mem_append, not_or]
    refine ⟨?_, ih⟩
    rcases escape_unit_cases d with ⟨e, he, -, hd⟩ | ⟨hne, hd⟩
    · exact hd ▸ hnot e he
    · rw [hd, List.mem_singleton]
      rintro rfl
      exact hne e₀ he₀ hfst

/-- **What is escaped has no space and no pipe.** -/
theorem separator_not_mem_escape {sep : UInt16} (hsep : sep ∈ [space, pipe]) (s : Str) :
    sep ∉ escape s :=
  not_mem_escape (separator_escaped hsep) s

/-- Text without any character that is escaped stands as it is. -/
theorem escape_of_plain {s : Str} (h : ∀ c ∈ s, ∀ e ∈ escapeMap, c ≠ e.1) : escape s = s := by
  induction s with
  | nil => exact escape_nil
  | cons c s ih =>
    rw [escape_cons, escape_other (h c List.mem_cons_self),
      ih fun c hc => h c (List.mem_cons_of_mem _ hc)]
    rfl

end Teamspeak
