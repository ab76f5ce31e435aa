import Teamspeak.Core.Errors

/-!
# Paging

`api/command.ts`: the walk of a command that the server pages with `start` and `duration`.

* `pages`: the walk, as many requests long as its fuel.
* `PageWalk.At.turn`: what a turn leads to over a list that stays as it is.
* `pages_walk`: over a list whose keys advance the walk yields the list, and ends; where the
  server answers every request with its first page it yields that page once, and ends.
-/

namespace Teamspeak

/-- `ErrorCode.DatabaseEmptyResult`. -/
def databaseEmptyResult : Nat := 1281

/-- Whether an error is the server's "database empty result set". -/
def isEmptyResult : Failure → Bool
  | .server e => e.code = databaseEmptyResult
  | .other _ => false

/-- What the server answers a request for `duration` rows from `start` on with. -/
abbrev Pager (ρ : Type*) := (start duration : Nat) → Except Failure (List ρ)

/-- The variables of the walk, and what it has yielded. -/
structure PageWalk (τ : Type*) where
  start : Nat := 0
  fullPage : Nat := 0
  last : Option τ := none
  yielded : List τ := []

/-- How far a walk has come: it ended, threw, or has more to ask for. -/
inductive PageProgress (τ : Type*)
  | ended (yielded : List τ)
  | threw (failure : Failure) (yielded : List τ)
  | asks (w : PageWalk τ)

section

variable {ρ τ : Type*} (parse : ρ → τ) (advanced : τ → τ → Bool)

/-- One turn of the loop, with the answer to its request. -/
def PageWalk.turn (w : PageWalk τ) : Except Failure (List ρ) → PageProgress τ
  | .error failure => if isEmptyResult failure then .ended w.yielded else .threw failure w.yielded
  | .ok [] => .ended w.yielded
  | .ok (row :: rows) =>
    let parsed := (row :: rows).map parse
    if w.last.any fun last => !advanced last (parse row) then .ended w.yielded
    else
      let yielded := w.yielded ++ parsed
      if parsed.length < w.fullPage then .ended yielded
      else
        .asks
          { start := w.start + parsed.length
            fullPage := max w.fullPage parsed.length
            last := parsed.getLast?
            yielded }

/-- The loop, for as many requests as there is fuel. -/
def PageWalk.loop (server : Pager ρ) (pageSize : Nat) : (fuel : Nat) → PageWalk τ → PageProgress τ
  | 0, w => .asks w
  | fuel + 1, w =>
    match w.turn parse advanced (server w.start pageSize) with
    | .asks w => loop server pageSize fuel w
    | progress => progress

/-- What is thrown for a page size that is none. -/
def badPageSize : Failure := .other (.of "a page size is a positive integer")

/-- `pages`, given the server it walks. -/
def pages (server : Pager ρ) (pageSize : Int) (fuel : Nat) : PageProgress τ :=
  if pageSize < 1 then .threw badPageSize []
  else PageWalk.loop parse advanced server pageSize.toNat fuel {}

end

/-! ### Servers -/

section

variable {ρ : Type*}

/-- An answer gives these rows; for none it may be the error instead. -/
def Gives (answer : Except Failure (List ρ)) (rows : List ρ) : Prop :=
  answer = .ok rows ∨ rows = [] ∧ ∃ failure, isEmptyResult failure = true ∧ answer = .error failure

/-- The server has a list, of which a page holds what was asked for, but `cap` rows at most. -/
def Serves (server : Pager ρ) (rows : List ρ) (cap : Nat) : Prop :=
  ∀ start duration, Gives (server start duration) ((rows.drop start).take (min cap duration))

/-- The server answers as if every request were for its first page. -/
def IgnoresStart (server : Pager ρ) (rows : List ρ) (cap : Nat) : Prop :=
  ∀ start duration, Gives (server start duration) (rows.take (min cap duration))

end

/-! ### The walk -/

section

variable {ρ τ κ : Type*} [LinearOrder κ] {parse : ρ → τ} {key : τ → κ}

/-- A page is after another when its key is. -/
def advancedBy (key : τ → κ) (previous next : τ) : Bool := decide (key previous < key next)

/-- The walk has yielded the rows before `start`, and no page was larger than `size`. -/
structure PageWalk.At (w : PageWalk τ) (parse : ρ → τ) (rows : List ρ) (size : Nat) : Prop where
  le : w.start ≤ rows.length
  yielded : w.yielded = (rows.take w.start).map parse
  last : w.last = w.yielded.getLast?
  full : w.fullPage ≤ size

theorem PageWalk.turn_of_gives_nil {w : PageWalk τ} {advanced : τ → τ → Bool}
    {answer : Except Failure (List ρ)} (h : Gives answer []) :
    w.turn parse advanced answer = .ended w.yielded := by
  rcases h with rfl | ⟨-, failure, hempty, rfl⟩
  · rfl
  · rw [turn, if_pos hempty]

/-- The next page goes on where the last one stopped. -/
theorem PageWalk.At.advances {w : PageWalk τ} {rows : List ρ} {size : Nat}
    (h : w.At parse rows size) (hkeys : (rows.map parse).Pairwise fun a b => key a < key b)
    {row : ρ} {rest : List ρ} (hdrop : rows.drop w.start = row :: rest) :
    (w.last.any fun last => !advancedBy key last (parse row)) = false := by
  rw [Option.any_eq_false]
  intro last hlast
  rw [h.last, h.yielded] at hlast
  have hsplit : (rows.take w.start).map parse ++ (row :: rest).map parse = rows.map parse := by
    rw [← hdrop, ← List.map_append, List.take_append_drop]
  rw [← hsplit, List.pairwise_append] at hkeys
  have hlt := hkeys.2.2 last (List.mem_of_getLast? hlast) (parse row) List.mem_cons_self
  simpa [advancedBy] using hlt

/-- The page that a turn reads, if it is not the end. -/
theorem PageWalk.turn_of_gives {w : PageWalk τ} {advanced : τ → τ → Bool} {row : ρ} {rest : List ρ}
    {answer : Except Failure (List ρ)} (h : Gives answer (row :: rest))
    (hlast : (w.last.any fun last => !advanced last (parse row)) = false) :
    w.turn parse advanced answer =
      if (row :: rest).length < w.fullPage then .ended (w.yielded ++ (row :: rest).map parse)
      else .asks
        { start := w.start + (row :: rest).length
          fullPage := max w.fullPage (row :: rest).length
          last := ((row :: rest).map parse).getLast?
          yielded := w.yielded ++ (row :: rest).map parse } := by
  rcases h with rfl | ⟨hnil, -⟩
  · rw [turn, if_neg (by rw [hlast]; exact Bool.false_ne_true), List.length_map]
  · cases hnil

/-- What a walk is after its turn, over a list that stays as it is: at its end, or further. -/
theorem PageWalk.At.turn {w : PageWalk τ} {rows : List ρ} {size : Nat} (h : w.At parse rows size)
    (hkeys : (rows.map parse).Pairwise fun a b => key a < key b) (hsize : 1 ≤ size)
    {answer : Except Failure (List ρ)} (hanswer : Gives answer ((rows.drop w.start).take size)) :
    w.turn parse (advancedBy key) answer = .ended (rows.map parse) ∨
      ∃ w' : PageWalk τ, w.turn parse (advancedBy key) answer = .asks w' ∧
        w'.At parse rows size ∧ w.start < w'.start := by
  cases hdrop : rows.drop w.start with
  | nil =>
    rw [hdrop, List.take_nil] at hanswer
    rw [turn_of_gives_nil hanswer, h.yielded,
      List.take_of_length_le (List.drop_eq_nil_iff.mp hdrop)]
    exact Or.inl rfl
  | cons row rest =>
    obtain ⟨n, rfl⟩ := Nat.exists_eq_succ_of_ne_zero (Nat.ne_of_gt hsize)
    have hmap : (rows.take w.start).map parse ++ (row :: rest.take n).map parse =
        (rows.take (w.start + (row :: rest.take n).length)).map parse := by
      rw [← List.map_append, List.take_add, hdrop]
      simp [List.length_take]
    rw [hdrop, List.take_succ_cons] at hanswer
    rw [turn_of_gives hanswer (h.advances hkeys hdrop), h.yielded, hmap]
    have hlength : (row :: rest).length = rows.length - w.start := by
      rw [← hdrop, List.length_drop]
    rw [List.length_cons] at hlength
    split
    · -- A page shorter than an earlier one holds all that was left.
      rename_i hshort
      have hfull := h.full
      rw [List.length_cons, List.length_take] at hshort ⊢
      rw [List.take_of_length_le (by omega)]
      exact Or.inl rfl
    · refine Or.inr ⟨_, rfl, ⟨?_, rfl, ?_, ?_⟩, ?_⟩
      · show w.start + (row :: rest.take n).length ≤ rows.length
        have := h.le
        rw [List.length_cons, List.length_take]
        omega
      · show _ = ((rows.take (w.start + (row :: rest.take n).length)).map parse).getLast?
        rw [← hmap, List.getLast?_append_of_ne_nil]
        exact List.cons_ne_nil _ _
      · show max w.fullPage (row :: rest.take n).length ≤ n + 1
        rw [List.length_cons, List.length_take]
        exact max_le h.full (Nat.succ_le_succ (Nat.min_le_left _ _))
      · show w.start < w.start + (row :: rest.take n).length
        rw [List.length_cons]
        exact Nat.lt_add_of_pos_right (Nat.succ_pos _)

/-- A walk that has not come to the end comes to it within as many requests as rows are left,
and one more. -/
theorem PageWalk.At.loop {w : PageWalk τ} {rows : List ρ} {pageSize cap : Nat}
    (h : w.At parse rows (min cap pageSize))
    (hkeys : (rows.map parse).Pairwise fun a b => key a < key b) (hsize : 1 ≤ min cap pageSize)
    {server : Pager ρ} (hserver : Serves server rows cap) {fuel : Nat}
    (hfuel : rows.length - w.start < fuel) :
    w.loop parse (advancedBy key) server pageSize fuel = .ended (rows.map parse) := by
  induction fuel generalizing w with
  | zero => omega
  | succ fuel ih =>
    rw [PageWalk.loop]
    rcases h.turn hkeys hsize (hserver w.start pageSize) with hend | ⟨w', hasks, hat, hlt⟩
    · rw [hend]
    · rw [hasks]
      have := hat.le
      exact ih hat (by omega)

/-- A page does not advance past itself. -/
theorem not_advances_self {rows : List ρ} {row : ρ} {rest : List ρ} {m : Nat}
    (hkeys : (rows.map parse).Pairwise fun a b => key a < key b)
    (htake : rows.take m = row :: rest) :
    (((row :: rest).map parse).getLast?.any fun last =>
      !advancedBy key last (parse row)) = true := by
  have hpage : ((row :: rest).map parse).Pairwise fun a b => key a < key b := by
    rw [← htake, List.map_take]
    exact hkeys.sublist (List.take_sublist _ _)
  rw [List.map_cons, List.getLast?_eq_getLast_of_ne_nil (List.cons_ne_nil _ _), Option.any_some,
    Bool.not_eq_true', advancedBy, decide_eq_false_iff_not, not_lt]
  rcases List.mem_cons.mp (List.getLast_mem (List.cons_ne_nil (parse row) (rest.map parse)))
    with heq | hmem
  · rw [heq]
  · exact le_of_lt ((List.pairwise_cons.mp hpage).1 _ hmem)

theorem pages_ignored {rows : List ρ}
    (hkeys : (rows.map parse).Pairwise fun a b => key a < key b) {cap : Nat} {server : Pager ρ}
    (hserver : IgnoresStart server rows cap) (pageSize : Nat) {fuel : Nat} (hfuel : 2 ≤ fuel) :
    PageWalk.loop parse (advancedBy key) server pageSize fuel {} =
      .ended ((rows.take (min cap pageSize)).map parse) := by
  obtain ⟨fuel, rfl⟩ := Nat.exists_eq_add_of_le' hfuel
  have hfirst := hserver 0 pageSize
  rw [PageWalk.loop]
  cases htake : rows.take (min cap pageSize) with
  | nil =>
    rw [htake] at hfirst
    rw [PageWalk.turn_of_gives_nil hfirst]
    rfl
  | cons row rest =>
    rw [htake] at hfirst
    rw [PageWalk.turn_of_gives hfirst rfl, if_neg (Nat.not_lt_zero _)]
    dsimp only
    have hagain := hserver (0 + (row :: rest).length) pageSize
    rw [htake] at hagain
    rw [PageWalk.loop]
    rcases hagain with hok | ⟨hnil, -⟩
    · rw [hok, PageWalk.turn, if_pos (not_advances_self hkeys htake)]
      rfl
    · cases hnil

/-- **The walk**: over a list whose keys advance, on a server that puts a cap on a page, the
pages of every size give the list once, in order, and the walk ends; on one that ignores
`start` it ends with its first page, given once. -/
theorem pages_walk {rows : List ρ} (hkeys : (rows.map parse).Pairwise fun a b => key a < key b)
    {cap : Nat} (hcap : 1 ≤ cap) {pageSize : Int} (hpage : 1 ≤ pageSize) :
    (∀ server, Serves server rows cap → ∀ fuel, rows.length < fuel →
      pages parse (advancedBy key) server pageSize fuel = .ended (rows.map parse)) ∧
    ∀ server, IgnoresStart server rows cap → ∀ fuel, 2 ≤ fuel →
      pages parse (advancedBy key) server pageSize fuel =
        .ended ((rows.take (min cap pageSize.toNat)).map parse) := by
  refine ⟨fun server hserver fuel hfuel => ?_, fun server hserver fuel hfuel => ?_⟩
  · have hstart : PageWalk.At {} parse rows (min cap pageSize.toNat) :=
      ⟨Nat.zero_le _, rfl, rfl, Nat.zero_le _⟩
    rw [pages, if_neg (Int.not_lt.mpr hpage)]
    exact hstart.loop hkeys (by omega) hserver hfuel
  · rw [pages, if_neg (Int.not_lt.mpr hpage)]
    exact pages_ignored hkeys hserver _ hfuel

end

theorem pages_walk_three :
    pages id (advancedBy id)
        (fun start duration => .ok (([1, 2, 3].drop start).take (min 2 duration))) 5 4 =
      .ended [1, 2, 3] :=
  (@pages_walk Nat Nat Nat _ id id [1, 2, 3] (by decide) 2 (by decide) 5 (by decide)).1 _
    (fun _ _ => Or.inl rfl) 4 (by decide)

end Teamspeak
