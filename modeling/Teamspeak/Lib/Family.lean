import Mathlib.Data.Finset.Card
import Mathlib.Data.List.Nodup
import Mathlib.Logic.Relation
import Mathlib.Logic.Function.Basic

/-!
# Families

A `Family` gives every node a list of children, in order, such that no node stands
twice in a list or in two lists.  It is `Rooted` at some nodes when every list of
children hangs, in the end, below one of them; then it has no cycle.

* `Rooted.acyclic`, `Reach.through_parent`
* `detach`, `rooted_detach`: a node taken out of its list becomes a root.
* `attach`, `rooted_attach`: a root put into the list of a node that hangs below
  another root.
* `cut`, `rooted_cut`: a set of nodes taken out with all below it.
* `walk`, `nodup_walk`, `mem_walk`: the walk down the lists meets each node once.
* `predecessor`: the element before another in a list, with what putting one in
  (`predecessor_place`) and taking one out (`predecessor_filter`) does to it.
-/

namespace Teamspeak

/-- Ordered children for every node, each node in one list at most, and once. -/
@[ext]
structure Family (κ : Type*) where
  kids : κ → List κ
  nodup : ∀ p, (kids p).Nodup
  unique : ∀ {p q c}, c ∈ kids p → c ∈ kids q → p = q

namespace Family

variable {κ : Type*}

/-- `b` is `a`, or hangs below it. -/
def Reach (F : Family κ) (a b : κ) : Prop :=
  Relation.ReflTransGen (fun p c => c ∈ F.kids p) a b

/-- Every list of children hangs below some root, and no root is a child. -/
structure Rooted (F : Family κ) (roots : κ → Prop) : Prop where
  free : ∀ {r p}, roots r → r ∉ F.kids p
  reach : ∀ {p c}, c ∈ F.kids p → ∃ r, roots r ∧ F.Reach r p

variable {F : Family κ} {roots : κ → Prop} {a b c p x : κ}

/-! ### Reaching -/

theorem Reach.refl : F.Reach a a := Relation.ReflTransGen.refl

theorem Reach.trans (h : F.Reach a b) (h' : F.Reach b c) : F.Reach a c :=
  Relation.ReflTransGen.trans h h'

theorem Reach.child (h : F.Reach a p) (hc : c ∈ F.kids p) : F.Reach a c :=
  Relation.ReflTransGen.tail h hc

theorem Reach.mono {G : Family κ} (hsub : ∀ p c, c ∈ F.kids p → c ∈ G.kids p)
    (h : F.Reach a b) : G.Reach a b := by
  induction h with
  | refl => exact Reach.refl
  | tail _ hc ih => exact ih.child (hsub _ _ hc)

theorem reach_of_mem (hc : c ∈ F.kids p) : F.Reach p c := Reach.refl.child hc

/-- What reaches a child is the child, or reaches its parent. -/
theorem Reach.through_parent (h : F.Reach a c) (hc : c ∈ F.kids p) : a = c ∨ F.Reach a p := by
  cases h with
  | refl => exact Or.inl rfl
  | tail hab hbc =>
    rw [F.unique hc hbc]
    exact Or.inr hab

/-- What is reached is the start, or reached through one of its children. -/
theorem Reach.through_child (h : F.Reach a b) : a = b ∨ ∃ c ∈ F.kids a, F.Reach c b := by
  rcases Relation.ReflTransGen.cases_head h with hab | ⟨c, hc, hcb⟩
  · exact Or.inl hab
  · exact Or.inr ⟨c, hc, hcb⟩

theorem Reach.of_no_kids (h : F.Reach a b) (hnil : F.kids a = []) : b = a := by
  rcases h.through_child with hab | ⟨c, hc, -⟩
  · exact hab.symm
  · exact absurd hc (hnil ▸ List.not_mem_nil)

/-- Nothing that a root reaches lies on a cycle. -/
theorem not_cycle_of_reach (hfree : ∀ p, a ∉ F.kids p) (h : F.Reach a b) :
    ∀ c ∈ F.kids b, ¬ F.Reach c b := by
  induction h with
  | refl =>
    intro c hc hca
    rcases hca.through_child with hab | ⟨d, hd, hda⟩
    · exact hfree a (hab ▸ hc)
    · cases hda with
      | refl => exact hfree c hd
      | tail _ hca => exact hfree _ hca
  | tail hab hbc ih =>
    intro d hd hdc
    -- the cycle comes back through the parent of `c`
    rcases hdc.through_parent hbc with hdc | hdb
    · have := F.unique hbc (hdc ▸ hd)
      subst this
      exact ih _ hbc (hdc ▸ Reach.refl)
    · exact ih _ hbc ((reach_of_mem hd).trans hdb)

theorem Rooted.acyclic (h : F.Rooted roots) (hc : c ∈ F.kids p) : ¬ F.Reach c p := by
  obtain ⟨r, hr, hrp⟩ := h.reach hc
  exact not_cycle_of_reach (fun p => h.free hr) hrp c hc

/-- Two children of one node do not reach each other. -/
theorem Rooted.not_reach_sibling (h : F.Rooted roots) (hb : b ∈ F.kids p) (hc : c ∈ F.kids p)
    (hne : b ≠ c) : ¬ F.Reach b c := by
  intro hbc
  rcases hbc.through_parent hc with hbc | hbp
  · exact hne hbc
  · exact h.acyclic hb hbp

theorem Rooted.not_mem_kids_self (h : F.Rooted roots) : x ∉ F.kids x :=
  fun hx => h.acyclic hx Reach.refl

/-- Every child hangs below some root. -/
theorem Rooted.reach_child (h : F.Rooted roots) (hc : c ∈ F.kids p) :
    ∃ r, roots r ∧ F.Reach r c := by
  obtain ⟨r, hr, hrp⟩ := h.reach hc
  exact ⟨r, hr, hrp.child hc⟩

/-! ### Taking a node out of its list -/

section Detach

variable [DecidableEq κ]

def detach (F : Family κ) (x : κ) : Family κ where
  kids p := (F.kids p).filter fun c => c ≠ x
  nodup p := (F.nodup p).filter _
  unique hp hq := F.unique (List.mem_of_mem_filter hp) (List.mem_of_mem_filter hq)

theorem mem_detach : c ∈ (F.detach x).kids p ↔ c ∈ F.kids p ∧ c ≠ x := by
  simp [detach, List.mem_filter]

theorem detach_of_not_mem (hx : x ∉ F.kids p) : (F.detach x).kids p = F.kids p := by
  unfold detach
  rw [List.filter_eq_self]
  intro c hc
  have hne : c ≠ x := by
    rintro rfl
    exact hx hc
  simpa using hne

theorem Reach.of_detach (h : (F.detach x).Reach a b) : F.Reach a b :=
  h.mono fun _ _ hc => (mem_detach.mp hc).1

/-- A path that went through the node now starts there. -/
theorem Reach.detach (h : F.Reach a b) (x : κ) :
    (F.detach x).Reach a b ∨ (F.detach x).Reach x b := by
  induction h with
  | refl => exact Or.inl Reach.refl
  | @tail b c _ hbc ih =>
    by_cases hc : c = x
    · exact Or.inr (hc ▸ Reach.refl)
    · have hc' : c ∈ (F.detach x).kids b := mem_detach.mpr ⟨hbc, hc⟩
      exact ih.imp (fun h => h.child hc') (fun h => h.child hc')

theorem rooted_detach (h : F.Rooted roots) (x : κ) :
    (F.detach x).Rooted fun r => roots r ∨ r = x where
  free := by
    intro r p hr hmem
    obtain ⟨hmem, hne⟩ := mem_detach.mp hmem
    exact hr.elim (fun hr => h.free hr hmem) hne
  reach := by
    intro p c hc
    obtain ⟨r, hr, hrp⟩ := h.reach (mem_detach.mp hc).1
    rcases hrp.detach x with hrp | hxp
    · exact ⟨r, Or.inl hr, hrp⟩
    · exact ⟨x, Or.inr rfl, hxp⟩

/-- What does not hang below a node is reached without it. -/
theorem Reach.detach_of_not_reach (h : F.Reach a b) (hx : ¬ F.Reach x b) :
    (F.detach x).Reach a b :=
  (h.detach x).resolve_right fun hxb => hx hxb.of_detach

end Detach

/-! ### Putting a root into a list -/

section Attach

variable [DecidableEq κ]

/-- Put `x`, which is in no list, into that of `p`, which becomes `l`. -/
def attach (F : Family κ) (p x : κ) (l : List κ) (hl : l.Perm (x :: F.kids p))
    (hx : ∀ q, x ∉ F.kids q) : Family κ where
  kids := Function.update F.kids p l
  nodup q := by
    by_cases hq : q = p
    · subst hq
      rw [Function.update_self, hl.nodup_iff]
      exact List.nodup_cons.mpr ⟨hx q, F.nodup q⟩
    · rw [Function.update_of_ne hq]
      exact F.nodup q
  unique {q q' c} hq hq' := by
    have hmem : ∀ q, c ∈ Function.update F.kids p l q → c = x ∧ q = p ∨ c ∈ F.kids q := by
      intro q hq
      by_cases hqp : q = p
      · subst hqp
        rw [Function.update_self, hl.mem_iff, List.mem_cons] at hq
        exact hq.imp_left fun h => ⟨h, rfl⟩
      · rw [Function.update_of_ne hqp] at hq
        exact Or.inr hq
    rcases hmem q hq with ⟨hc, rfl⟩ | hq
    · rcases hmem q' hq' with ⟨-, rfl⟩ | hq'
      · rfl
      · exact absurd hq' (hc ▸ hx q')
    · rcases hmem q' hq' with ⟨hc, -⟩ | hq'
      · exact absurd hq (hc ▸ hx q)
      · exact F.unique hq hq'

variable {l : List κ} {hl : l.Perm (x :: F.kids p)} {hx : ∀ q, x ∉ F.kids q}

theorem attach_self : (F.attach p x l hl hx).kids p = l := Function.update_self ..

theorem attach_of_ne {q : κ} (hq : q ≠ p) : (F.attach p x l hl hx).kids q = F.kids q :=
  Function.update_of_ne hq ..

theorem mem_attach {q : κ} :
    c ∈ (F.attach p x l hl hx).kids q ↔ c = x ∧ q = p ∨ c ∈ F.kids q := by
  by_cases hq : q = p
  · subst hq
    rw [attach_self, hl.mem_iff, List.mem_cons]
    simp
  · rw [attach_of_ne hq]
    simp [hq]

theorem Reach.attach (h : F.Reach a b) : (F.attach p x l hl hx).Reach a b :=
  h.mono fun _ _ hc => mem_attach.mpr (Or.inr hc)

theorem rooted_attach (h : F.Rooted fun r => roots r ∨ r = x) (hroot : ¬ roots x)
    (hp : ∃ r, roots r ∧ F.Reach r p) : (F.attach p x l hl hx).Rooted roots where
  free := by
    intro r q hr hmem
    rcases mem_attach.mp hmem with ⟨rfl, -⟩ | hmem
    · exact hroot hr
    · exact h.free (Or.inl hr) hmem
  reach := by
    intro q c hc
    obtain ⟨r, hr, hrp⟩ := hp
    have hxroot : (F.attach p x l hl hx).Reach r x :=
      hrp.attach.child (mem_attach.mpr (Or.inl ⟨rfl, rfl⟩))
    rcases mem_attach.mp hc with ⟨-, rfl⟩ | hc
    · exact ⟨r, hr, hrp.attach⟩
    · obtain ⟨r', hr' | rfl, hreach⟩ := h.reach hc
      · exact ⟨r', hr', hreach.attach⟩
      · exact ⟨r, hr, hxroot.trans hreach.attach⟩

omit [DecidableEq κ] in
/-- A root without children need not be one. -/
theorem Rooted.drop (h : F.Rooted fun r => roots r ∨ r = x) (hnil : F.kids x = []) :
    F.Rooted roots where
  free hr := h.free (Or.inl hr)
  reach := by
    intro p c hc
    obtain ⟨r, hr | rfl, hrp⟩ := h.reach hc
    · exact ⟨r, hr, hrp⟩
    · rw [hrp.of_no_kids hnil, hnil] at hc
      exact absurd hc List.not_mem_nil

end Attach

/-! ### Taking out a set of nodes -/

section Cut

open Classical in
/-- Take the nodes of `S` out of every list, and empty their own. -/
noncomputable def cut (F : Family κ) (S : κ → Prop) : Family κ where
  kids p := if S p then [] else (F.kids p).filter fun c => ¬ S c
  nodup p := by
    by_cases hp : S p
    · rw [if_pos hp]
      exact List.nodup_nil
    · rw [if_neg hp]
      exact (F.nodup p).filter _
  unique {p q c} hp hq := by
    have hmem : ∀ p, c ∈ (if S p then [] else (F.kids p).filter fun c => ¬ S c) →
        c ∈ F.kids p := by
      intro p hc
      by_cases hp : S p
      · rw [if_pos hp] at hc
        exact absurd hc List.not_mem_nil
      · rw [if_neg hp] at hc
        exact List.mem_of_mem_filter hc
    exact F.unique (hmem p hp) (hmem q hq)

/-- Closed under going down. -/
def Closed (F : Family κ) (S : κ → Prop) : Prop := ∀ {p c}, S p → c ∈ F.kids p → S c

variable {S T : κ → Prop}

theorem cut_of (hp : S p) : (F.cut S).kids p = [] := if_pos hp

open Classical in
theorem cut_of_not (hp : ¬ S p) : (F.cut S).kids p = (F.kids p).filter fun c => ¬ S c := if_neg hp

theorem mem_cut : c ∈ (F.cut S).kids p ↔ c ∈ F.kids p ∧ ¬ S p ∧ ¬ S c := by
  by_cases hp : S p
  · rw [cut_of hp]
    simp [hp]
  · rw [cut_of_not hp]
    simp [List.mem_filter, hp]

theorem cut_eq_nil (h : ∀ c ∈ F.kids p, S c) : (F.cut S).kids p = [] := by
  rw [List.eq_nil_iff_forall_not_mem]
  intro c hc
  obtain ⟨hc, -, hnot⟩ := mem_cut.mp hc
  exact hnot (h c hc)

theorem Reach.of_cut (h : (F.cut S).Reach a b) : F.Reach a b :=
  h.mono fun _ _ hc => (mem_cut.mp hc).1

/-- A path stays outside a closed set, or ends in it. -/
theorem Reach.cut (h : F.Reach a b) (hS : F.Closed S) : S b ∨ (F.cut S).Reach a b := by
  induction h with
  | refl => exact Or.inr Reach.refl
  | @tail b c _ hbc ih =>
    by_cases hc : S c
    · exact Or.inl hc
    · have hb : ¬ S b := fun hb => hc (hS hb hbc)
      exact Or.inr ((ih.resolve_left hb).child (mem_cut.mpr ⟨hbc, hb, hc⟩))

theorem cut_cut : (F.cut S).cut T = F.cut fun x => S x ∨ T x := by
  apply Family.ext
  funext p
  by_cases hT : T p
  · rw [cut_of hT, cut_of (S := fun x => S x ∨ T x) (Or.inr hT)]
  · by_cases hS : S p
    · rw [cut_of_not hT, cut_of hS, cut_of (S := fun x => S x ∨ T x) (Or.inl hS), List.filter_nil]
    · rw [cut_of_not hT, cut_of_not hS, cut_of_not (S := fun x => S x ∨ T x) (not_or.mpr ⟨hS, hT⟩),
        List.filter_filter]
      apply List.filter_congr
      intro c _
      by_cases hc : S c <;> simp [hc]

theorem cut_congr (h : ∀ x, S x ↔ T x) : F.cut S = F.cut T := by
  have : S = T := funext fun x => propext (h x)
  rw [this]

theorem cut_false (h : ∀ x, ¬ S x) : F.cut S = F := by
  apply Family.ext
  funext p
  rw [cut_of_not (h p), List.filter_eq_self]
  intro c _
  simpa using h c

/-- What a node reaches is the node, and what its children reach without it. -/
theorem reach_iff_detach [DecidableEq κ] (hx : x ∉ F.kids x) :
    F.Reach x b ↔ b = x ∨ ∃ k ∈ F.kids x, (F.detach x).Reach k b := by
  constructor
  · intro h
    have hdetach : (F.detach x).Reach x b := (h.detach x).elim id id
    rcases hdetach.through_child with hxb | ⟨k, hk, hkb⟩
    · exact Or.inl hxb.symm
    · exact Or.inr ⟨k, detach_of_not_mem hx ▸ hk, hkb⟩
  · rintro (rfl | ⟨k, hk, hkb⟩)
    · exact Reach.refl
    · exact (reach_of_mem hk).trans hkb.of_detach

/-- Cutting a node with all below it is detaching it, and cutting what its children
reach. -/
theorem cut_reach_eq [DecidableEq κ] (hx : x ∉ F.kids x) :
    (F.detach x).cut (fun y => ∃ k ∈ F.kids x, (F.detach x).Reach k y) = F.cut (F.Reach x) := by
  obtain ⟨S, hSdef⟩ : ∃ S : κ → Prop, S = fun y => ∃ k ∈ F.kids x, (F.detach x).Reach k y :=
    ⟨_, rfl⟩
  have hreach : ∀ b, F.Reach x b ↔ b = x ∨ S b := by
    intro b
    rw [hSdef]
    exact reach_iff_detach hx
  have hkids : ∀ k ∈ F.kids x, S k := by
    intro k hk
    rw [hSdef]
    exact ⟨k, hk, Reach.refl⟩
  rw [← hSdef]
  apply Family.ext
  funext p
  by_cases hp : F.Reach x p
  · rw [cut_of hp]
    by_cases hS : S p
    · exact cut_of hS
    · -- only the node itself is left, and its children are all cut
      have hpx : p = x := ((hreach p).mp hp).resolve_right hS
      rw [cut_of_not hS, hpx, detach_of_not_mem hx, List.filter_eq_nil_iff]
      intro k hk
      simpa using hkids k hk
  · have hS : ¬ S p := fun hS => hp ((hreach p).mpr (Or.inr hS))
    rw [cut_of_not hp, cut_of_not hS]
    show List.filter _ (List.filter _ _) = _
    rw [List.filter_filter]
    apply List.filter_congr
    intro c _
    by_cases hcx : c = x <;> simp [hreach, hcx]

/-- Cutting what a node's children reach, and then the node, is cutting all it reaches. -/
theorem cut_below_eq :
    (F.cut fun y => ∃ k ∈ F.kids x, F.Reach k y).cut
      ((F.cut fun y => ∃ k ∈ F.kids x, F.Reach k y).Reach x) = F.cut (F.Reach x) := by
  rw [cut_cut]
  apply cut_congr
  intro y
  constructor
  · rintro (⟨k, hk, hky⟩ | hxy)
    · exact (reach_of_mem hk).trans hky
    · exact hxy.of_cut
  · intro hxy
    rcases hxy.through_child with rfl | hbelow
    · exact Or.inr Reach.refl
    · exact Or.inl hbelow

/-- A loop that cuts children of `x`, one with all below it a step, when `S` has been cut
already.  `P` is what the state says of the family. -/
theorem foldlM_cut {σ : Type*} {P : σ → Family κ → Prop} {f : σ → κ → Option σ}
    (hrooted : F.Rooted roots) {below : List κ} (hnodup : below.Nodup) (hS : F.Closed S)
    (hx : ¬ S x) (hbelow : ∀ c ∈ below, c ∈ F.kids x ∧ ¬ S c)
    (hstep : ∀ st G, ∀ c ∈ below, P st G → c ∈ G.kids x → (∀ y, G.Reach c y → F.Reach c y) →
      ∃ next, f st c = some next ∧ P next (G.cut (G.Reach c)))
    {st : σ} (h : P st (F.cut S)) :
    ∃ next, below.foldlM f st = some next ∧
      P next (F.cut fun y => S y ∨ ∃ c ∈ below, F.Reach c y) := by
  induction below generalizing st S with
  | nil =>
    refine ⟨st, rfl, ?_⟩
    rw [cut_congr (T := S) (by simp)]
    exact h
  | cons c below ih =>
    rw [List.nodup_cons] at hnodup
    obtain ⟨hc, hcS⟩ := hbelow c List.mem_cons_self
    obtain ⟨mid, hmid, hP⟩ := hstep st (F.cut S) c List.mem_cons_self h
      (mem_cut.mpr ⟨hc, hx, hcS⟩) fun y hy => hy.of_cut
    -- what the child reaches now is what it reached, but for what is cut already
    have hfamily : (F.cut S).cut ((F.cut S).Reach c) = F.cut fun y => S y ∨ F.Reach c y := by
      rw [cut_cut]
      apply cut_congr
      intro y
      constructor
      · rintro (hy | hy)
        · exact Or.inl hy
        · exact Or.inr hy.of_cut
      · rintro (hy | hy)
        · exact Or.inl hy
        · exact hy.cut hS
    rw [hfamily] at hP
    have hclosed : F.Closed fun y => S y ∨ F.Reach c y := fun hp hmem =>
      hp.imp (fun hp => hS hp hmem) fun hp => hp.child hmem
    obtain ⟨next, hnext, hP⟩ := ih hnodup.2 hclosed
      (not_or.mpr ⟨hx, hrooted.acyclic hc⟩)
      (fun d hd => by
        obtain ⟨hdx, hdS⟩ := hbelow d (List.mem_cons_of_mem _ hd)
        refine ⟨hdx, not_or.mpr ⟨hdS, hrooted.not_reach_sibling hc hdx ?_⟩⟩
        rintro rfl
        exact hnodup.1 hd)
      (fun st G d hd => hstep st G d (List.mem_cons_of_mem _ hd)) hP
    refine ⟨next, ?_, ?_⟩
    · rw [List.foldlM_cons, hmid]
      exact hnext
    · rw [cut_congr (T := fun y => (S y ∨ F.Reach c y) ∨ ∃ d ∈ below, F.Reach d y)]
      · exact hP
      · intro y
        rw [List.exists_mem_cons_iff, or_assoc]

end Cut

/-! ### Walking down -/

/-- Two nodes above a third are above one another. -/
theorem Reach.comparable (ha : F.Reach a c) (hb : F.Reach b c) : F.Reach a b ∨ F.Reach b a := by
  induction ha with
  | refl => exact Or.inr hb
  | tail hap hc ih =>
    rcases hb.through_parent hc with rfl | hbp
    · exact Or.inl (Reach.child hap hc)
    · exact ih hbp

/-- The nodes below `p`, depth first, down to `n` levels. -/
def walk (kids : κ → List κ) : Nat → κ → List κ
  | 0, _ => []
  | n + 1, p => (kids p).flatMap fun c => c :: walk kids n c

theorem below_of_mem_walk {n : Nat} (hx : x ∈ walk F.kids n p) :
    ∃ c ∈ F.kids p, F.Reach c x := by
  induction n generalizing p with
  | zero => exact absurd hx List.not_mem_nil
  | succ n ih =>
    obtain ⟨c, hc, hx⟩ := List.mem_flatMap.mp hx
    refine ⟨c, hc, ?_⟩
    rcases List.mem_cons.mp hx with rfl | hx
    · exact Reach.refl
    · obtain ⟨d, hd, hdx⟩ := ih hx
      exact (reach_of_mem hd).trans hdx

/-- What is at a child, or on the walk from there, hangs below it. -/
theorem reach_of_mem_walk {n : Nat} (hx : x ∈ c :: walk F.kids n c) : F.Reach c x := by
  rcases List.mem_cons.mp hx with rfl | hx
  · exact Reach.refl
  · obtain ⟨d, hd, hdx⟩ := below_of_mem_walk hx
    exact (reach_of_mem hd).trans hdx

theorem nodup_walk (h : F.Rooted roots) (n : Nat) (p : κ) : (walk F.kids n p).Nodup := by
  induction n generalizing p with
  | zero => exact List.nodup_nil
  | succ n ih =>
    rw [walk, List.nodup_flatMap]
    constructor
    · intro c _
      refine List.nodup_cons.mpr ⟨?_, ih c⟩
      intro hmem
      obtain ⟨d, hd, hdc⟩ := below_of_mem_walk hmem
      exact h.acyclic hd hdc
    · refine (F.nodup p).imp_of_mem ?_
      intro b c hb hc hne x hbx hcx
      -- a node below two siblings would put one below the other
      rcases (reach_of_mem_walk hbx).comparable (reach_of_mem_walk hcx) with hbc | hcb
      · exact h.not_reach_sibling hb hc hne hbc
      · exact h.not_reach_sibling hc hb hne.symm hcb

/-- A walk down more levels than there are nodes below `p` meets them all. -/
theorem mem_walk [DecidableEq κ] (h : F.Rooted roots) {n : Nat} {U : Finset κ}
    (hcard : U.card ≤ n) (hU : ∀ c ∈ F.kids p, ∀ y, F.Reach c y → y ∈ U) :
    x ∈ walk F.kids n p ↔ ∃ c ∈ F.kids p, F.Reach c x := by
  refine ⟨below_of_mem_walk, ?_⟩
  induction n generalizing p U with
  | zero =>
    rintro ⟨c, hc, hcx⟩
    have hx := hU c hc x hcx
    rw [Finset.card_eq_zero.mp (Nat.le_zero.mp hcard)] at hx
    exact absurd hx (Finset.notMem_empty x)
  | succ n ih =>
    rintro ⟨c, hc, hcx⟩
    refine List.mem_flatMap.mpr ⟨c, hc, ?_⟩
    rcases hcx.through_child with rfl | hbelow
    · exact List.mem_cons_self
    · have hcU := hU c hc c Reach.refl
      have hcard' : (U.erase c).card ≤ n := by
        rw [Finset.card_erase_of_mem hcU]
        omega
      refine List.mem_cons_of_mem _ (ih hcard' ?_ hbelow)
      intro d hd y hy
      refine Finset.mem_erase.mpr ⟨?_, hU c hc y ((reach_of_mem hd).trans hy)⟩
      rintro rfl
      exact h.acyclic hd hy

end Family

/-! ### Predecessors -/

section Predecessor

variable {κ : Type*} [DecidableEq κ]

/-- The element before `x` in a list that comes after `first`. -/
def predecessor (first : κ) : List κ → κ → κ
  | [], _ => first
  | a :: l, x => if a = x then first else predecessor a l x

/-- Put `x` right after `a`, in a list that comes after `first`; at the end where there
is no `a`. -/
def place (first a x : κ) : List κ → List κ
  | [] => [x]
  | b :: l => if a = first then x :: b :: l else b :: place b a x l

variable {first a x y : κ} {l : List κ}

theorem predecessor_cons_of_ne {b : κ} (h : b ≠ y) :
    predecessor first (b :: l) y = predecessor b l y := if_neg h

theorem predecessor_cons_self : predecessor first (x :: l) x = first := if_pos rfl

/-- What comes before an element is what comes before the list, or in it. -/
theorem predecessor_mem (first : κ) (l : List κ) (y : κ) :
    predecessor first l y = first ∨ predecessor first l y ∈ l := by
  induction l generalizing first with
  | nil => exact Or.inl rfl
  | cons b l ih =>
    by_cases hb : b = y
    · exact Or.inl (if_pos hb)
    · rw [predecessor_cons_of_ne hb]
      rcases ih b with h | h
      · exact Or.inr (by rw [h]; exact List.mem_cons_self)
      · exact Or.inr (List.mem_cons_of_mem _ h)

/-- An element of neither comes before nothing. -/
theorem predecessor_ne {b : κ} (hb : b ∉ l) (hne : b ≠ first) :
    predecessor first l y ≠ b := by
  intro h
  rcases predecessor_mem first l y with h' | h'
  · exact hne (h.symm.trans h')
  · exact hb (h ▸ h')

/-- No two elements come after the same one. -/
theorem predecessor_inj {z : κ} (hl : (first :: l).Nodup) (hy : y ∈ l) (hz : z ∈ l)
    (h : predecessor first l y = predecessor first l z) : y = z := by
  induction l generalizing first with
  | nil => exact absurd hy List.not_mem_nil
  | cons b l ih =>
    rw [List.nodup_cons, List.mem_cons, not_or] at hl
    have hne : ∀ w, predecessor b l w ≠ first := fun w => predecessor_ne hl.1.2 hl.1.1
    by_cases hby : b = y
    · by_cases hbz : b = z
      · exact hby.symm.trans hbz
      · rw [hby, predecessor_cons_self, ← hby, predecessor_cons_of_ne hbz] at h
        exact absurd h.symm (hne z)
    · by_cases hbz : b = z
      · rw [hbz, predecessor_cons_self, ← hbz, predecessor_cons_of_ne hby] at h
        exact absurd h (hne y)
      · rw [predecessor_cons_of_ne hby, predecessor_cons_of_ne hbz] at h
        exact ih hl.2 ((List.mem_cons.mp hy).resolve_left fun heq => hby heq.symm)
          ((List.mem_cons.mp hz).resolve_left fun heq => hbz heq.symm) h

/-- The element before another is the last of those before it. -/
theorem predecessor_append {before after : List κ} (hx : x ∉ before)
    (hlast : (first :: before).getLast? = some a) :
    predecessor first (before ++ x :: after) x = a := by
  induction before generalizing first with
  | nil => exact predecessor_cons_self.trans (Option.some.inj hlast)
  | cons b before ih =>
    rw [List.mem_cons, not_or] at hx
    rw [List.cons_append, predecessor_cons_of_ne fun h => hx.1 h.symm]
    exact ih hx.2 (List.getLast?_cons_cons ▸ hlast)

theorem place_perm (first a x : κ) (l : List κ) : (place first a x l).Perm (x :: l) := by
  induction l generalizing first with
  | nil => exact List.Perm.refl _
  | cons b l ih =>
    rw [place]
    by_cases ha : a = first
    · rw [if_pos ha]
    · rw [if_neg ha]
      exact ((ih b).cons b).trans (List.Perm.swap _ _ _)

/-- An element that is put in has before it what it was put after. -/
theorem predecessor_place_self (hx : x ∉ l) (ha : a = first ∨ a ∈ l) :
    predecessor first (place first a x l) x = a := by
  induction l generalizing first with
  | nil =>
    rw [place, predecessor_cons_self]
    exact (ha.resolve_right List.not_mem_nil).symm
  | cons b l ih =>
    rw [List.mem_cons, not_or] at hx
    rw [place]
    by_cases haf : a = first
    · rw [if_pos haf, predecessor_cons_self, haf]
    · rw [if_neg haf, predecessor_cons_of_ne fun h => hx.1 h.symm]
      exact ih hx.2 (List.mem_cons.mp (ha.resolve_left haf))

/-- Putting `x` after `a` changes what comes before the element that came after `a`. -/
theorem predecessor_place (hl : l.Nodup) (hfirst : first ∉ l) (hx : x ∉ l) (hy : y ∈ l) :
    predecessor first (place first a x l) y =
      if predecessor first l y = a then x else predecessor first l y := by
  induction l generalizing first with
  | nil => exact absurd hy List.not_mem_nil
  | cons b l ih =>
    rw [List.nodup_cons] at hl
    rw [List.mem_cons, not_or] at hx
    have hxy : x ≠ y := by
      rintro rfl
      exact (List.mem_cons.mp hy).elim hx.1 hx.2
    rw [place]
    by_cases ha : a = first
    · rw [if_pos ha, predecessor_cons_of_ne hxy]
      by_cases hb : b = y
      · rw [hb, predecessor_cons_self, predecessor_cons_self, if_pos ha.symm]
      · have hyl : y ∈ l := (List.mem_cons.mp hy).resolve_left fun h => hb h.symm
        rw [predecessor_cons_of_ne hb, predecessor_cons_of_ne hb, if_neg]
        rw [List.mem_cons, not_or] at hfirst
        exact ha ▸ predecessor_ne hfirst.2 hfirst.1
    · rw [if_neg ha]
      by_cases hb : b = y
      · rw [hb, predecessor_cons_self, predecessor_cons_self, if_neg fun h => ha h.symm]
      · have hyl : y ∈ l := (List.mem_cons.mp hy).resolve_left fun h => hb h.symm
        rw [predecessor_cons_of_ne hb, predecessor_cons_of_ne hb]
        exact ih hl.2 hl.1 hx.2 hyl

/-- Taking `x` out changes what comes before the element that came after it. -/
theorem predecessor_filter (hl : l.Nodup) (hfirst : first ≠ x) (hy : y ∈ l) (hxy : y ≠ x) :
    predecessor first (l.filter fun c => c ≠ x) y =
      if predecessor first l y = x then predecessor first l x else predecessor first l y := by
  induction l generalizing first with
  | nil => exact absurd hy List.not_mem_nil
  | cons b l ih =>
    rw [List.nodup_cons] at hl
    by_cases hbx : b = x
    · subst hbx
      have hyl : y ∈ l := (List.mem_cons.mp hy).resolve_left hxy
      have hfilter : l.filter (fun c => c ≠ b) = l := by
        rw [List.filter_eq_self]
        intro c hc
        have hne : c ≠ b := fun h => hl.1 (h ▸ hc)
        simpa using hne
      rw [List.filter_cons_of_neg (by simp), hfilter, predecessor_cons_self,
        predecessor_cons_of_ne fun h => hxy h.symm]
      cases l with
      | nil => exact absurd hyl List.not_mem_nil
      | cons c l =>
        by_cases hc : c = y
        · rw [hc, predecessor_cons_self, predecessor_cons_self, if_pos rfl]
        · rw [predecessor_cons_of_ne hc, predecessor_cons_of_ne hc, if_neg]
          rw [List.mem_cons, not_or] at hl
          exact predecessor_ne hl.1.2 hl.1.1
    · rw [List.filter_cons_of_pos (by simpa using hbx)]
      by_cases hb : b = y
      · rw [hb, predecessor_cons_self, predecessor_cons_self, if_neg hfirst]
      · have hyl : y ∈ l := (List.mem_cons.mp hy).resolve_left fun h => hb h.symm
        rw [predecessor_cons_of_ne hb, predecessor_cons_of_ne hb, predecessor_cons_of_ne hbx]
        exact ih hl.2 hbx hyl

end Predecessor

end Teamspeak
