import Mathlib.Data.List.Sort
import Mathlib.Data.Rat.Lemmas
import Mathlib.Algebra.Order.Ring.Unbundled.Rat
import Mathlib.Algebra.Order.Field.Rat
import Mathlib.Algebra.BigOperators.Group.List.Basic
import Mathlib.Tactic.Linarith
import Mathlib.Tactic.Positivity
import Teamspeak.Lib.Binary64
import Teamspeak.Lib.Grouped
import Teamspeak.Lib.InsertionMap

/-!
# The order SRV records are tried in

`orderSrvRecords` of `resolver.ts`: by priority, and within a priority by drawing records with
chances as their weights.  A weight has 16 bits, so that the sums are exact; the product with a
random number is not, and is rounded to a double.

* `Drawn`: drawing without replacement, said over the weights alone.
* `draw_spec`: the loop draws.
* `orderSrvRecords_law`: all the records, by priority; within one those with a weight as drawn and
  then those without.
-/

namespace Teamspeak.Client

/-- The part of an SRV record that decides the order they are tried in. -/
structure SrvOrder where
  priority : Nat
  weight : Nat
  deriving DecidableEq, Repr

/-- What the calls of `random` return, in turn: doubles in `[0, 1)`. -/
structure Random where
  next : Nat → ℚ
  double : ∀ n, Binary64.roundAbs (next n) = next n
  nonneg : ∀ n, 0 ≤ next n
  lt_one : ∀ n, next n < 1

/-- `random() * sum`. -/
def target (random : Random) (n sum : Nat) : ℚ := Binary64.roundAbs (random.next n * sum)

section

variable {τ : Type*} (order : τ → SrvOrder)

/-- The weights of records, added up. -/
def weightSum (records : List τ) : Nat := (records.map fun r => (order r).weight).sum

/-- The inner loop: the first index at which the running total is above the target. -/
def pickFrom (target : ℚ) (running i : Nat) : List τ → Option Nat
  | [] => none
  | r :: rest =>
    let running := running + (order r).weight
    if target < running then some i else pickFrom target running (i + 1) rest

def pick (target : ℚ) (weighted : List τ) : Nat :=
  (pickFrom order target 0 0 weighted).getD (weighted.length - 1)

/-- The `while` loop from the `n`th call of `random` on: the records in the order they are chosen,
and how many calls were made.  `none` is an index at which nothing stands. -/
def draw (random : Random) (n sum : Nat) (weighted : List τ) : Option (List τ × Nat) :=
  if weighted.length = 0 then some ([], n)
  else
    let i := pick order (target random n sum) weighted
    match _h : weighted[i]? with
    | none => none
    | some chosen =>
      (draw random (n + 1) (sum - (order chosen).weight) (weighted.eraseIdx i)).map fun d =>
        (chosen :: d.1, d.2)
  termination_by weighted.length
  decreasing_by
    have hi := (List.getElem?_eq_some_iff.mp _h).1
    rw [List.length_eraseIdx_of_lt hi]
    omega

/-- The loop over the priorities. -/
def orderGroups (random : Random) (byPriority : InsertionMap Nat (List τ)) :
    List Nat → Nat → Option (List τ)
  | [], _ => some []
  | priority :: priorities, n => do
    let group ← byPriority.get? priority
    let weighted := group.filter fun r => 0 < (order r).weight
    let unweighted := group.filter fun r => (order r).weight ≤ 0
    let (ordered, n) ← draw order random n (weightSum order weighted) weighted
    let rest ← orderGroups random byPriority priorities n
    some (ordered ++ unweighted ++ rest)

def orderSrvRecords (random : Random) (records : List τ) : Option (List τ) :=
  let byPriority : InsertionMap Nat (List τ) :=
    records.foldl (fun m r => m.push (order r).priority r) .empty
  orderGroups order random byPriority
    ((byPriority.entries.map Prod.fst).mergeSort fun a b => a ≤ b) 0

/-! ### Drawing -/

/-- **Drawing without replacement.**  The records are laid out as intervals as long as their
weights, and the one is chosen whose interval holds the random number times all of them;
`n` counts the numbers used. -/
inductive Drawn (random : Random) : Nat → List τ → List τ → Prop
  | done (n : Nat) : Drawn random n [] []
  | pick {n : Nat} {before after picks : List τ} {chosen : τ}
      (low : weightSum order before ≤ target random n (weightSum order (before ++ chosen :: after)))
      (high : target random n (weightSum order (before ++ chosen :: after)) <
        weightSum order before + (order chosen).weight)
      (rest : Drawn random (n + 1) (before ++ after) picks) :
      Drawn random n (before ++ chosen :: after) (chosen :: picks)

variable {order} {random : Random}

@[simp] theorem weightSum_nil : weightSum order ([] : List τ) = 0 := rfl

@[simp] theorem weightSum_cons (r : τ) (l : List τ) :
    weightSum order (r :: l) = (order r).weight + weightSum order l := rfl

@[simp] theorem weightSum_append (l l' : List τ) :
    weightSum order (l ++ l') = weightSum order l + weightSum order l' := by
  simp [weightSum]

theorem Drawn.perm {n : Nat} {l picks : List τ} (h : Drawn order random n l picks) :
    picks.Perm l := by
  induction h with
  | done => exact .nil
  | pick _ _ _ ih => exact (ih.cons _).trans List.perm_middle.symm

/-- The inner loop stops at the record whose interval holds the target. -/
theorem pickFrom_spec {target : ℚ} {running : Nat} (i : Nat) {l : List τ}
    (hlow : running ≤ target) (hhigh : target < running + weightSum order l) :
    ∃ before chosen after, l = before ++ chosen :: after ∧
      pickFrom order target running i l = some (i + before.length) ∧
      running + weightSum order before ≤ target ∧
      target < running + weightSum order before + (order chosen).weight := by
  induction l generalizing running i with
  | nil =>
    rw [weightSum_nil, Nat.cast_zero, add_zero] at hhigh
    exact absurd hhigh (not_lt.mpr hlow)
  | cons r rest ih =>
    rw [pickFrom]
    by_cases hr : target < (running + (order r).weight : Nat)
    · rw [if_pos hr]
      refine ⟨[], r, rest, rfl, rfl, by simpa using hlow, ?_⟩
      simpa using hr
    · rw [if_neg hr]
      rw [weightSum_cons] at hhigh
      obtain ⟨before, chosen, after, rfl, hpick, hlow', hhigh'⟩ :=
        ih (i + 1) (not_lt.mp hr) (by push_cast at hhigh ⊢; linarith)
      refine ⟨r :: before, chosen, after, rfl, ?_, ?_, ?_⟩
      · rw [hpick, List.length_cons]
        congr 1
        omega
      · rw [weightSum_cons]
        push_cast at hlow' ⊢
        linarith
      · rw [weightSum_cons]
        push_cast at hhigh' ⊢
        linarith

theorem target_nonneg (random : Random) (n sum : Nat) : 0 ≤ target random n sum := by
  have hprod : 0 ≤ random.next n * sum := mul_nonneg (random.nonneg n) (Nat.cast_nonneg sum)
  have := Binary64.roundAbs_mono le_rfl hprod
  rwa [Binary64.roundAbs_zero] at this

theorem target_lt (random : Random) (n : Nat) {sum : Nat} (hsum : 0 < sum) :
    target random n sum < sum :=
  Binary64.roundAbs_mul_lt (random.nonneg n) (random.double n) (random.lt_one n) hsum

/-- One turn of the loop: no record is missed at the borders of the intervals. -/
theorem pick_spec (random : Random) (n : Nat) {l : List τ} (hl : 0 < weightSum order l) :
    ∃ before chosen after, l = before ++ chosen :: after ∧
      pick order (target random n (weightSum order l)) l = before.length ∧
      weightSum order before ≤ target random n (weightSum order l) ∧
      target random n (weightSum order l) < weightSum order before + (order chosen).weight := by
  have hlow : ((0 : Nat) : ℚ) ≤ target random n (weightSum order l) := by
    rw [Nat.cast_zero]
    exact target_nonneg random n _
  have hhigh : target random n (weightSum order l) < ((0 : Nat) : ℚ) + weightSum order l := by
    rw [Nat.cast_zero, zero_add]
    exact target_lt random n hl
  obtain ⟨before, chosen, after, hl, hpick, hb, ha⟩ := pickFrom_spec 0 hlow hhigh
  refine ⟨before, chosen, after, hl, ?_, by simpa using hb, by simpa using ha⟩
  rw [pick, hpick, Option.getD_some, Nat.zero_add]

/-- One turn of the `while` loop. -/
theorem draw_of_pick {n sum i : Nat} {weighted : List τ} {chosen : τ}
    (hpick : pick order (target random n sum) weighted = i) (hget : weighted[i]? = some chosen) :
    draw order random n sum weighted =
      (draw order random (n + 1) (sum - (order chosen).weight) (weighted.eraseIdx i)).map fun d =>
        (chosen :: d.1, d.2) := by
  have hlt := (List.getElem?_eq_some_iff.mp hget).1
  subst hpick
  rw [draw, if_neg (by omega)]
  dsimp only
  split
  · next hnone => rw [hget] at hnone; exact absurd hnone (Option.some_ne_none _)
  · next chosen' hsome =>
    obtain rfl := Option.some.inj (hget.symm.trans hsome)
    rfl

/-- **The loop draws**, and uses one number for each record. -/
theorem draw_spec (order : τ → SrvOrder) (random : Random) (n : Nat) (l : List τ)
    (hl : ∀ r ∈ l, 0 < (order r).weight) :
    ∃ picks, draw order random n (weightSum order l) l = some (picks, n + l.length) ∧
      Drawn order random n l picks := by
  -- on how many are left; the sum kept is that of the records left
  induction hk : l.length generalizing l n with
  | zero =>
    rw [List.length_eq_zero_iff.mp hk, draw]
    exact ⟨[], rfl, .done n⟩
  | succ k ih =>
    have hpos : 0 < weightSum order l := by
      cases l with
      | nil => exact absurd hk (by simp)
      | cons r l => exact Nat.add_pos_left (hl r List.mem_cons_self) _
    obtain ⟨before, chosen, after, hsplit, hpick, hlow, hhigh⟩ := pick_spec random n hpos
    have hget : l[before.length]? = some chosen := by
      rw [hsplit]
      simp
    have herase : l.eraseIdx before.length = before ++ after := by
      simp [hsplit, List.eraseIdx_append_of_length_le]
    have hsum : weightSum order l - (order chosen).weight = weightSum order (before ++ after) := by
      rw [hsplit, weightSum_append, weightSum_append, weightSum_cons]
      omega
    obtain ⟨picks, hdraw, hdrawn⟩ := ih (n + 1) (before ++ after)
      (fun r hr => hl r (by
        rw [hsplit]
        rcases List.mem_append.mp hr with hr | hr
        · exact List.mem_append_left _ hr
        · exact List.mem_append_right _ (List.mem_cons_of_mem _ hr)))
      (by
        rw [hsplit] at hk
        simp only [List.length_append, List.length_cons] at hk ⊢
        omega)
    refine ⟨chosen :: picks, ?_, hsplit ▸ .pick (hsplit ▸ hlow) (hsplit ▸ hhigh) hdrawn⟩
    rw [draw_of_pick hpick hget, herase, hsum, hdraw, Option.map_some]
    congr 2
    omega

/-! ### The groups -/

/-- How many numbers are used before a priority's turn. -/
def drawsBefore (order : τ → SrvOrder) (records : List τ) (priority : Nat) : Nat :=
  records.countP fun r => (order r).priority < priority ∧ 0 < (order r).weight

variable (order) in
/-- The records of one priority that have a weight. -/
def weightedOf (records : List τ) (priority : Nat) : List τ :=
  records.filter fun r => (order r).priority = priority ∧ 0 < (order r).weight

variable (order) in
/-- The records of one priority that have none. -/
def unweightedOf (records : List τ) (priority : Nat) : List τ :=
  records.filter fun r => (order r).priority = priority ∧ (order r).weight = 0

theorem filter_weight (records : List τ) (p : Nat) :
    ((records.filter fun r => (order r).priority = p).filter fun r => 0 < (order r).weight) =
      weightedOf order records p := by
  rw [List.filter_filter, weightedOf]
  exact List.filter_congr fun r _ => by simp [Bool.and_comm]

theorem filter_no_weight (records : List τ) (p : Nat) :
    ((records.filter fun r => (order r).priority = p).filter fun r => (order r).weight ≤ 0) =
      unweightedOf order records p := by
  rw [List.filter_filter, unweightedOf]
  exact List.filter_congr fun r _ => by simp [Bool.and_comm]

theorem countP_add_of_disjoint {p q r : τ → Bool} {l : List τ} (hor : ∀ b, p b = (q b || r b))
    (hand : ∀ b, (q b && r b) = false) : l.countP p = l.countP q + l.countP r := by
  induction l with
  | nil => rfl
  | cons b l ih =>
    rw [List.countP_cons, List.countP_cons, List.countP_cons, ih, hor b]
    have hb := hand b
    cases hq : q b with
    | false => simp [Nat.add_assoc]
    | true =>
      have hr : r b = false := by simpa [hq] using hb
      simp [hr, Nat.add_right_comm]

/-- The loop over the priorities puts the groups one after another. -/
theorem orderGroups_spec {byPriority : InsertionMap Nat (List τ)} {records : List τ}
    {priorities : List Nat} {n : Nat} {picks : Nat → List τ}
    (hdraw : ∀ p, draw order random (drawsBefore order records p)
      (weightSum order (weightedOf order records p)) (weightedOf order records p) =
      some (picks p, drawsBefore order records p + (weightedOf order records p).length))
    (hget : ∀ p ∈ priorities, byPriority.get? p =
      some (records.filter fun r => (order r).priority = p))
    (hsorted : priorities.Pairwise (· < ·))
    (hcover : ∀ r ∈ records, (order r).priority ∈ priorities ∨
      ∀ p ∈ priorities, (order r).priority < p)
    (hn : n = records.countP fun r =>
      (order r).priority ∉ priorities ∧ 0 < (order r).weight) :
    orderGroups order random byPriority priorities n =
      some (priorities.flatMap fun p => picks p ++ unweightedOf order records p) := by
  induction priorities generalizing n with
  | nil => rfl
  | cons p priorities ih =>
    obtain ⟨hlt, hsorted⟩ := List.pairwise_cons.mp hsorted
    have hstart : n = drawsBefore order records p := by
      rw [hn, drawsBefore]
      refine List.countP_congr fun r hr => ?_
      have := hcover r hr
      simp only [decide_eq_true_eq]
      refine and_congr_left fun _ => ⟨fun hnot => ?_, fun hr => ?_⟩
      · exact this.resolve_left hnot p List.mem_cons_self
      · intro hmem
        rcases List.mem_cons.mp hmem with he | hmem
        · omega
        · exact absurd (hlt _ hmem) (by omega)
    have hnext : n + (weightedOf order records p).length =
        records.countP fun r => (order r).priority ∉ priorities ∧ 0 < (order r).weight := by
      rw [hn, weightedOf, ← List.countP_eq_length_filter]
      refine (countP_add_of_disjoint (fun r => ?_) fun r => ?_).symm
      · by_cases hp : (order r).priority = p
        · have hnot : p ∉ priorities := fun hmem => absurd (hlt p hmem) (lt_irrefl p)
          simp [hp, hnot]
        · simp [hp]
      · by_cases hp : (order r).priority = p
        · simp [hp]
        · simp [hp]
    rw [orderGroups, hget p List.mem_cons_self]
    simp only [Option.bind_eq_bind, Option.bind_some]
    rw [filter_weight, filter_no_weight, hstart, hdraw p, Option.bind_some, ← hstart]
    rw [ih (fun q hq => hget q (List.mem_cons_of_mem _ hq)) hsorted (fun r hr => ?_) hnext]
    · rfl
    · rcases hcover r hr with hmem | hall
      · rcases List.mem_cons.mp hmem with he | hmem
        · exact Or.inr fun q hq => he ▸ hlt q hq
        · exact Or.inl hmem
      · exact Or.inr fun q hq => hall q (List.mem_cons_of_mem _ hq)

/-- What is drawn from is not left out. -/
theorem draw_eq_nil {n sum m : Nat} {l : List τ}
    (h : draw order random n sum l = some ([], m)) : l = [] := by
  rw [draw] at h
  by_cases hl : l.length = 0
  · exact List.length_eq_zero_iff.mp hl
  · rw [if_neg hl] at h
    dsimp only at h
    split at h
    · cases h
    · obtain ⟨d, -, hd⟩ := Option.map_eq_some_iff.mp h
      cases hd

theorem orderGroups_ne_nil {byPriority : InsertionMap Nat (List τ)} {priorities : List Nat}
    {n p : Nat} {ordered group : List τ} {r : τ}
    (h : orderGroups order random byPriority priorities n = some ordered) (hp : p ∈ priorities)
    (hgroup : byPriority.get? p = some group) (hr : r ∈ group) : ordered ≠ [] := by
  induction priorities generalizing n ordered with
  | nil => exact absurd hp List.not_mem_nil
  | cons q priorities ih =>
    rw [orderGroups] at h
    simp only [Option.bind_eq_bind, Option.bind_eq_some_iff] at h
    obtain ⟨group', hget, ⟨picks, m⟩, hdraw, rest, hrest, h⟩ := h
    rw [← Option.some.inj h]
    intro hnil
    obtain ⟨hblock, rfl⟩ := List.append_eq_nil_iff.mp hnil
    obtain ⟨rfl, hunweighted⟩ := List.append_eq_nil_iff.mp hblock
    rcases List.mem_cons.mp hp with rfl | hp
    · obtain rfl := Option.some.inj (hget.symm.trans hgroup)
      have hweighted := draw_eq_nil hdraw
      rw [List.filter_eq_nil_iff] at hweighted hunweighted
      have hw := hweighted r hr
      have hu := hunweighted r hr
      simp only [decide_eq_true_eq] at hw hu
      omega
    · exact ih hrest hp rfl

/-- Of records there are, something comes. -/
theorem orderSrvRecords_ne_nil {records ordered : List τ}
    (h : orderSrvRecords order random records = some ordered) (hrecords : records ≠ []) :
    ordered ≠ [] := by
  obtain ⟨r, hr⟩ := List.exists_mem_of_ne_nil _ hrecords
  let byPriority : InsertionMap Nat (List τ) :=
    records.foldl (fun m r => m.push (order r).priority r) .empty
  have hgroup : (byPriority.get? (order r).priority).getD [] =
      records.filter fun s => (order s).priority = (order r).priority := by
    simpa using InsertionMap.get?_foldl_push (fun r => (order r).priority) records .empty
      (order r).priority
  have hmem : r ∈ (byPriority.get? (order r).priority).getD [] := by
    rw [hgroup]
    exact List.mem_filter.mpr ⟨hr, decide_eq_true rfl⟩
  cases hget : byPriority.get? (order r).priority with
  | none =>
    rw [hget] at hmem
    exact absurd hmem List.not_mem_nil
  | some group =>
    rw [hget] at hmem
    have hkey : (order r).priority ∈ byPriority.entries.map Prod.fst := by
      by_contra hnot
      rw [InsertionMap.get?_eq_none.mpr hnot] at hget
      cases hget
    refine orderGroups_ne_nil h ?_ hget hmem
    exact (List.mergeSort_perm _ _).mem_iff.mpr hkey

/-- **Every list of records and every source of random numbers**: all the records come back, by
priority, and each priority's are those with a weight as drawn, from where the priorities before
left the random numbers, and then those without in the order given. -/
theorem orderSrvRecords_law (order : τ → SrvOrder) (random : Random) (records : List τ) :
    ∃ ordered, orderSrvRecords order random records = some ordered ∧
      ordered.Perm records ∧
      ordered.Pairwise (fun r s => (order r).priority ≤ (order s).priority) ∧
      ∀ priority, ∃ picks,
        (ordered.filter fun r => (order r).priority = priority) =
          picks ++ unweightedOf order records priority ∧
        Drawn order random (drawsBefore order records priority)
          (weightedOf order records priority) picks := by
  choose picks hdraw hdrawn using fun p =>
    draw_spec order random (drawsBefore order records p)
      (weightedOf order records p) fun r hr => (by simpa using (List.mem_filter.mp hr).2 :
        (order r).priority = p ∧ 0 < (order r).weight).2
  let byPriority : InsertionMap Nat (List τ) :=
    records.foldl (fun m r => m.push (order r).priority r) .empty
  let keys := byPriority.entries.map Prod.fst
  have hgroup (p : Nat) : (byPriority.get? p).getD [] =
      records.filter fun r => (order r).priority = p := by
    simpa using InsertionMap.get?_foldl_push (fun r => (order r).priority) records .empty p
  have hget : ∀ p ∈ keys, byPriority.get? p =
      some (records.filter fun r => (order r).priority = p) := by
    intro p hp
    obtain ⟨g, hg⟩ := Option.ne_none_iff_exists'.mp fun h => InsertionMap.get?_eq_none.mp h hp
    rw [hg, ← hgroup p, hg, Option.getD_some]
  have hcover : ∀ r ∈ records, (order r).priority ∈ keys := by
    intro r hr
    by_contra hnot
    have hnil := hgroup (order r).priority
    rw [InsertionMap.get?_eq_none.mpr hnot, Option.getD_none] at hnil
    exact List.not_mem_nil (hnil ▸ List.mem_filter.mpr ⟨hr, by simp⟩ : r ∈ [])
  let sorted := keys.mergeSort fun a b => a ≤ b
  have hperm : sorted.Perm keys := List.mergeSort_perm _ _
  have hnodup : sorted.Nodup := hperm.nodup_iff.mpr byPriority.nodup
  have hle : sorted.Pairwise (· ≤ ·) := by
    have h : sorted.Pairwise fun a b => decide (a ≤ b) = true := by
      refine List.pairwise_mergeSort (fun a b c hab hbc => ?_) (fun a b => ?_) keys
      · exact decide_eq_true ((of_decide_eq_true hab).trans (of_decide_eq_true hbc))
      · simpa using Nat.le_total a b
    exact h.imp fun h => of_decide_eq_true h
  have hlt : sorted.Pairwise (· < ·) :=
    (hle.and hnodup).imp fun h => lt_of_le_of_ne h.1 h.2
  have hmem : ∀ r ∈ records, (order r).priority ∈ sorted := fun r hr =>
    hperm.mem_iff.mpr (hcover r hr)
  have hrun := orderGroups_spec (n := 0) hdraw
    (fun p hp => hget p (hperm.mem_iff.mp hp)) hlt (fun r hr => Or.inl (hmem r hr))
    (List.countP_eq_zero.mpr fun r hr => by simp [hmem r hr]).symm
  -- a priority's block is its group in another order
  have hblock (p : Nat) : (picks p ++ unweightedOf order records p).Perm
      (records.filter fun r => (order r).priority = p) := by
    refine ((hdrawn p).perm.append_right _).trans ?_
    have hsplit := List.filter_append_perm (fun r => decide (0 < (order r).weight))
      (records.filter fun r => (order r).priority = p)
    have hrest : ((records.filter fun r => (order r).priority = p).filter
        fun r => !decide (0 < (order r).weight)) = unweightedOf order records p := by
      rw [← filter_no_weight]
      exact List.filter_congr fun r _ => by rw [← decide_not, decide_eq_decide, not_lt]
    rwa [filter_weight, hrest] at hsplit
  have hblockKey (p : Nat) : ∀ r ∈ picks p ++ unweightedOf order records p,
      (order r).priority = p := fun r hr => by
    simpa using (List.mem_filter.mp ((hblock p).mem_iff.mp hr)).2
  refine ⟨_, hrun, ?_, ?_, fun p => ⟨picks p, ?_, hdrawn p⟩⟩
  · exact (List.Perm.flatMap_left _ fun p _ => hblock p).trans
      (Grouped.perm_flatMap_filter hnodup hmem)
  · exact Grouped.pairwise_key le_refl hle fun p _ => hblockKey p
  · refine Grouped.filter_flatMap_key (f := fun r => (order r).priority) hnodup
      (fun p _ => hblockKey p) fun hp => ?_
    have hnone : (records.filter fun r => (order r).priority = p) = [] :=
      List.filter_eq_nil_iff.mpr fun r hr => by
        have hne : (order r).priority ≠ p := fun he => hp (he ▸ hmem r hr)
        simpa using hne
    exact List.Perm.eq_nil (hnone ▸ hblock p)

end

/-- The double nearest to 0.7, always. -/
def sevenTenths : Random where
  next _ := 6305039478318694 / 9007199254740992
  double _ :=
    Binary64.roundAbs_of_dyadic (n := 6305039478318694) (j := -53) (by norm_num) (by norm_num)
      (by norm_num)
  nonneg _ := by norm_num
  lt_one _ := by norm_num

/-- A hundred times it is a little below 70, and nearest to 70. -/
theorem target_sevenTenths : target sevenTenths 0 100 = 70 := by
  have hlog : Int.log 2 (6305039478318694 / 9007199254740992 * 100 : ℚ) = 6 := by
    have hpos : (0 : ℚ) < 6305039478318694 / 9007199254740992 * 100 := by norm_num
    have hge := (Int.zpow_le_iff_le_log (b := 2) (x := 6) (by norm_num) hpos).mp (by norm_num)
    have hlt := (Int.lt_zpow_iff_log_lt (b := 2) (x := 7) (by norm_num) hpos).mp (by norm_num)
    omega
  have hfloor : ⌊(6305039478318694 / 9007199254740992 * 100 / 2 ^ (-46 : ℤ) : ℚ)⌋ =
      4925812092436479 := by
    rw [Int.floor_eq_iff]
    norm_num
  have hplace : Binary64.place (6305039478318694 / 9007199254740992 * 100) = -46 := by
    rw [Binary64.place, hlog]
    rfl
  have hround : Binary64.roundEven
      (6305039478318694 / 9007199254740992 * 100 / 2 ^ (-46 : ℤ)) = 4925812092436480 := by
    rw [Binary64.roundEven, hfloor, if_neg (by norm_num), if_pos (by norm_num)]
    rfl
  show Binary64.roundAbs (6305039478318694 / 9007199254740992 * ((100 : Nat) : ℚ)) = 70
  rw [Nat.cast_ofNat, Binary64.roundAbs, hplace, hround]
  norm_num

/-- Of the weights 70 and 30 the second is drawn, though the number times 100 is within the first's
interval. -/
theorem orderSrvRecords_rounded :
    orderSrvRecords id sevenTenths [⟨0, 70⟩, ⟨0, 30⟩] = some [⟨0, 30⟩, ⟨0, 70⟩] ∧
      0 ≤ sevenTenths.next 0 * 100 ∧ sevenTenths.next 0 * 100 < 70 := by
  refine ⟨?_, by norm_num [sevenTenths], by norm_num [sevenTenths]⟩
  have hfirst : pick id (target sevenTenths 0 100) [⟨0, 70⟩, ⟨0, 30⟩] = 1 := by
    rw [target_sevenTenths]
    norm_num [pick, pickFrom]
  have hsecond : pick id (target sevenTenths 1 70) [⟨0, 70⟩] = 0 := by
    have hlt := target_lt sevenTenths 1 (show 0 < 70 by decide)
    rw [pick, pickFrom, if_pos (by simpa using hlt)]
    rfl
  have hdraw : draw id sevenTenths 0 100 [⟨0, 70⟩, ⟨0, 30⟩] = some ([⟨0, 30⟩, ⟨0, 70⟩], 2) := by
    rw [draw_of_pick hfirst rfl]
    simp only [List.eraseIdx, id, Nat.reduceSub]
    rw [draw_of_pick hsecond rfl]
    simp [draw]
  let byPriority : InsertionMap Nat (List SrvOrder) :=
    (InsertionMap.empty.push 0 ⟨0, 70⟩).push 0 ⟨0, 30⟩
  have hkeys : (byPriority.entries.map Prod.fst).mergeSort (fun a b => a ≤ b) = [0] :=
    List.mergeSort_singleton 0
  have hget : byPriority.get? 0 = some [⟨0, 70⟩, ⟨0, 30⟩] := rfl
  show orderGroups id sevenTenths byPriority
    ((byPriority.entries.map Prod.fst).mergeSort fun a b => a ≤ b) 0 = _
  rw [hkeys, orderGroups, hget]
  simp [weightSum, orderGroups, hdraw]

end Teamspeak.Client
