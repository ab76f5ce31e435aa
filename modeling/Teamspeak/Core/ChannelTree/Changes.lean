import Teamspeak.Core.ChannelTree.Represents

/-!
# The four changes

What each event does to the family a tree represents.  None of them fails, and none
runs out of steps: a walk up or down meets no channel twice, and a tree has one step
more than it has channels.

* `isWithin_spec`: the walk up.
* `remove_spec`: a removal cuts the channel with all below it.
* `create_spec`, `edit_spec`, `move_spec`: the others put one channel into one list.
-/

namespace Teamspeak.ChannelTree

variable {draft : ChannelTree} {F : Family ChannelID} {loose : ChannelID → Prop}
  {p x y : ChannelID}

/-! ### Who is held -/

/-- A channel is held when it is in a list, or loose. -/
theorem Holds.held_iff (h : Holds draft F loose) :
    (∃ c, draft.channels.get? x = some c) ↔ loose x ∨ ∃ p, x ∈ F.kids p := by
  constructor
  · rintro ⟨c, hc⟩
    exact (h.held hc).imp_right fun hx => ⟨_, hx⟩
  · rintro (hl | ⟨p, hx⟩)
    · exact h.loose_held hl
    · obtain ⟨c, hc, -⟩ := h.kid hx
      exact ⟨c, hc⟩

theorem Holds.parent_held (h : Holds draft F loose) (hx : x ∈ F.kids p) :
    p = topChannel ∨ ∃ c, draft.channels.get? p = some c := by
  obtain ⟨r, hr, hreach⟩ := h.rooted.reach hx
  cases hreach with
  | refl => exact hr.imp_right h.loose_held
  | tail _ hp => exact Or.inr (h.held_iff.mpr (Or.inr ⟨_, hp⟩))

/-- What a channel reaches is itself, or held. -/
theorem Holds.held_of_reach (h : Holds draft F loose) (hreach : F.Reach x y) :
    y = x ∨ ∃ c, draft.channels.get? y = some c := by
  cases hreach with
  | refl => exact Or.inl rfl
  | tail _ hy => exact Or.inr (h.held_iff.mpr (Or.inr ⟨_, hy⟩))

theorem Holds.kids_of_not_held (h : Holds draft F loose) (hx : draft.channels.get? x = none)
    (hne : x ≠ topChannel) : F.kids x = [] := by
  rw [List.eq_nil_iff_forall_not_mem]
  intro y hy
  rcases h.parent_held hy with htop | ⟨c, hc⟩
  · exact hne htop
  · rw [hx] at hc
    cases hc

/-- The ids of the channels that are held. -/
def heldIds (draft : ChannelTree) : Finset ChannelID :=
  (draft.channels.entries.map Prod.fst).toFinset

theorem mem_heldIds {c : Channel} (hc : draft.channels.get? x = some c) : x ∈ draft.heldIds :=
  List.mem_toFinset.mpr (List.mem_map_of_mem (InsertionMap.mem_entries.mpr hc))

theorem card_heldIds_lt (draft : ChannelTree) : draft.heldIds.card < draft.steps := by
  have hle := List.toFinset_card_le (draft.channels.entries.map Prod.fst)
  rw [List.length_map] at hle
  exact Nat.lt_succ_of_le hle

theorem Represents.withConsistent (h : Represents draft F loose) (b : Bool) :
    Represents { draft with consistent := b } F loose :=
  ⟨⟨h.kids, h.id, h.kid, h.held, h.loose_held, h.no_top, h.rooted⟩, h.ordered, h.nonempty⟩

/-! ### Walking up -/

theorem isWithin_of_held {c : Channel} (hc : draft.channels.get? x = some c) (hid : c.id = x)
    (n : Nat) (a : ChannelID) :
    isWithin draft (n + 1) x a = if x = a then some true else isWithin draft n c.parentID a := by
  rw [isWithin, hc]
  show (if c.id = a then _ else _) = _
  rw [hid]

/-- **The walk up ends**, and finds the ancestors.  A channel is not met again above
itself, so those still to come are always fewer. -/
theorem isWithin_spec (h : Holds draft F noneLoose) {a : ChannelID} (ha : a ≠ topChannel)
    {n : Nat} {U : Finset ChannelID} (hcard : U.card < n)
    (hx : x = topChannel ∨ ∃ c, draft.channels.get? x = some c)
    (hU : ∀ y, F.Reach y x → y ≠ topChannel → y ∈ U) :
    ∃ b, isWithin draft n x a = some b ∧ (b = true ↔ F.Reach a x) := by
  induction n generalizing x U with
  | zero => exact absurd hcard (Nat.not_lt_zero _)
  | succ n ih =>
    rcases hx with rfl | ⟨c, hc⟩
    · refine ⟨false, ?_, ?_⟩
      · rw [isWithin, h.no_top]
      · constructor
        · exact nofun
        · intro hreach
          cases hreach with
          | refl => exact absurd rfl ha
          | tail _ hmem => exact absurd hmem (h.rooted.free (Or.inl rfl))
    · rw [isWithin_of_held hc (h.id hc)]
      by_cases hxa : x = a
      · exact ⟨true, if_pos hxa, fun _ => hxa ▸ Family.Reach.refl, fun _ => rfl⟩
      · rw [if_neg hxa]
        have hmem : x ∈ F.kids c.parentID := (h.held hc).resolve_left fun hl => hl
        have hxU : x ∈ U := hU x Family.Reach.refl (h.ne_top hc)
        have hcard' : (U.erase x).card < n := by
          rw [Finset.card_erase_of_mem hxU]
          have := Finset.card_pos.mpr ⟨x, hxU⟩
          omega
        obtain ⟨b, hb, hiff⟩ := ih hcard' (h.parent_held hmem) (by
          intro y hy hne
          refine Finset.mem_erase.mpr ⟨?_, hU y (hy.child hmem) hne⟩
          rintro rfl
          exact h.rooted.acyclic hmem hy)
        refine ⟨b, hb, hiff.trans ⟨fun hreach => hreach.child hmem, fun hreach => ?_⟩⟩
        exact (hreach.through_parent hmem).resolve_left fun heq => hxa heq.symm

/-- What is above a channel is the top, or held. -/
theorem Holds.held_of_reach_up (h : Holds draft F loose) (hreach : F.Reach y x)
    (hx : x = topChannel ∨ ∃ c, draft.channels.get? x = some c) (hne : y ≠ topChannel) :
    y ∈ draft.heldIds := by
  rcases hreach.through_child with rfl | ⟨k, hk, -⟩
  · obtain ⟨c, hc⟩ := hx.resolve_left hne
    exact mem_heldIds hc
  · obtain ⟨c, hc⟩ := (h.parent_held hk).resolve_left hne
    exact mem_heldIds hc

/-! ### Removing -/

/-- A loose channel without children is dropped. -/
theorem drop_spec (h : Represents draft F fun y => loose y ∨ y = x) (hloose : ¬ loose x)
    (hnil : F.kids x = []) :
    Represents { draft with kids := draft.kids.delete x, channels := draft.channels.delete x }
      F loose := by
  have hkids : draft.kids.get? x = none := by
    have hget := h.kids x
    unfold kidsOf at hget
    rw [hnil] at hget
    cases hx : draft.kids.get? x with
    | none => rfl
    | some list =>
      rw [hx] at hget
      exact absurd (hx.trans (congrArg some hget)) (h.nonempty x)
  have hne : ∀ {q y}, y ∈ F.kids q → x ≠ y := by
    rintro q y hy rfl
    exact h.rooted.free (Or.inr (Or.inr rfl)) hy
  have hget : ∀ {y}, x ≠ y → (draft.channels.delete x).get? y = draft.channels.get? y :=
    fun hne => InsertionMap.get?_delete_ne _ hne
  have hback : ∀ {y c}, (draft.channels.delete x).get? y = some c →
      x ≠ y ∧ draft.channels.get? y = some c := by
    intro y c hc
    have hxy : x ≠ y := by
      rintro rfl
      rw [InsertionMap.get?_delete_self] at hc
      cases hc
    exact ⟨hxy, hget hxy ▸ hc⟩
  rw [InsertionMap.delete_of_none hkids]
  refine ⟨⟨h.kids, fun hc => h.id (hback hc).2, ?_, ?_, ?_, ?_, ?_⟩, ?_, h.nonempty⟩
  · intro q y hy
    obtain ⟨c, hc, hparent⟩ := h.kid hy
    exact ⟨c, (hget (hne hy)).trans hc, hparent⟩
  · intro y c hc
    obtain ⟨hxy, hc⟩ := hback hc
    exact (h.held hc).imp_left fun hl => hl.resolve_right fun hyx => hxy hyx.symm
  · intro y hl
    obtain ⟨c, hc⟩ := h.loose_held (Or.inl hl)
    have hxy : x ≠ y := by
      rintro rfl
      exact hloose hl
    exact ⟨c, (hget hxy).trans hc⟩
  · cases hc : (draft.channels.delete x).get? topChannel with
    | none => rfl
    | some c => exact absurd (hback hc).2 (by rw [h.no_top]; exact nofun)
  · have hrooted : F.Rooted fun r => (r = topChannel ∨ loose r) ∨ r = x :=
      ⟨fun hr => h.rooted.free (or_assoc.mp hr), fun hc => by
        obtain ⟨r, hr, hreach⟩ := h.rooted.reach hc
        exact ⟨r, or_assoc.mpr hr, hreach⟩⟩
    exact hrooted.drop hnil
  · intro q y hy c hc
    exact h.ordered q y hy c (hback hc).2

/-- What `remove` does with `n` steps, for a channel that has fewer than that below it. -/
def RemoveSpec (n : Nat) : Prop :=
  ∀ (draft : ChannelTree) (F : Family ChannelID) (loose : ChannelID → Prop) (p x : ChannelID)
    (U : Finset ChannelID), Represents draft F loose → x ∈ F.kids p → U.card ≤ n →
      (∀ y, F.Reach x y → y ∈ U) →
      ∃ next, remove n draft x = some next ∧ Represents next (F.cut (F.Reach x)) loose ∧
        (F.kids x = [] → next.consistent = draft.consistent)

/-- What `remove` ends with. -/
def dropped (draft : ChannelTree) (id : ChannelID) : ChannelTree :=
  { draft with kids := draft.kids.delete id, channels := draft.channels.delete id }

section Equations

variable {n : Nat} {c : Channel} {mid last : ChannelTree} {below : List ChannelID}

theorem remove_of_no_below (hc : draft.channels.get? x = some c) (hmid : draft.detach x = some mid)
    (hbelow : mid.kids.get? x = none) : remove (n + 1) draft x = some (dropped mid x) := by
  have hhas : draft.channels.has x = true := InsertionMap.has_iff.mpr ⟨c, hc⟩
  rw [remove, hhas, hmid]
  simp only [Bool.not_true, Bool.false_eq_true, if_false, Option.bind_eq_bind, Option.bind_some,
    Option.pure_def, hbelow]
  rfl

theorem remove_of_below (hc : draft.channels.get? x = some c) (hmid : draft.detach x = some mid)
    (hbelow : mid.kids.get? x = some below)
    (hlast : below.foldlM (remove n) { mid with consistent := false } = some last) :
    remove (n + 1) draft x = some (dropped last x) := by
  have hhas : draft.channels.has x = true := InsertionMap.has_iff.mpr ⟨c, hc⟩
  rw [remove, hhas, hmid]
  simp only [Bool.not_true, Bool.false_eq_true, if_false, Option.bind_eq_bind, Option.bind_some,
    Option.pure_def, hbelow, hlast]
  rfl

theorem remove_of_not_held (hx : draft.channels.get? x = none) :
    remove (n + 1) draft x = some { draft with consistent := false } := by
  have hhas : draft.channels.has x = false := InsertionMap.has_eq_false.mpr hx
  rw [remove, hhas]
  rfl

end Equations

/-- **A removal cuts a channel with all below it.** -/
theorem remove_spec (n : Nat) : RemoveSpec n := by
  induction n with
  | zero =>
    intro draft F loose p x U _ _ hcard hU
    have hxU := hU x Family.Reach.refl
    rw [Finset.card_eq_zero.mp (Nat.le_zero.mp hcard)] at hxU
    exact absurd hxU (Finset.notMem_empty x)
  | succ n ih =>
    intro draft F loose p x U h hx hcard hU
    obtain ⟨c, hc, -⟩ := h.kid hx
    obtain ⟨mid, hmid, hrep, hconsistent, -⟩ := detach_spec h hx
    have hself : x ∉ F.kids x := h.rooted.not_mem_kids_self
    have hkids : (F.detach x).kids x = F.kids x := Family.detach_of_not_mem hself
    have hloose : ¬ loose x := h.not_loose_of_mem hx
    cases hbelow : mid.kids.get? x with
    | none =>
      have hnil : F.kids x = [] := by
        rw [← hkids, ← hrep.kids x, kidsOf, hbelow]
        rfl
      refine ⟨_, remove_of_no_below hc hmid hbelow, ?_, fun _ => hconsistent⟩
      have hfamily : F.cut (F.Reach x) = F.detach x := by
        rw [← Family.cut_reach_eq hself, hnil]
        exact Family.cut_false (by simp)
      rw [hfamily]
      exact drop_spec hrep hloose (hkids.trans hnil)
    | some below =>
      have heq : below = F.kids x := by
        rw [← hkids, ← hrep.kids x, kidsOf, hbelow]
        rfl
      have hne : F.kids x ≠ [] := fun hnil => hrep.nonempty x (by rw [hbelow, heq, hnil])
      -- the channel itself is not among those below it
      have hxU := hU x Family.Reach.refl
      have hcard' : (U.erase x).card ≤ n := by
        rw [Finset.card_erase_of_mem hxU]
        omega
      have hrep' := hrep.withConsistent false
      rw [← Family.cut_false (F := F.detach x) (S := fun _ => False) fun _ => id] at hrep'
      obtain ⟨last, hlast, hcut⟩ := Family.foldlM_cut (x := x)
        (P := fun st G => Represents st G fun y => loose y ∨ y = x) (f := remove n)
        hrep.rooted (heq ▸ F.nodup x) (fun hp _ => hp) id
        (fun k hk => ⟨hkids.symm ▸ heq ▸ hk, id⟩)
        (by
          intro st G k hk hst hkG hreach
          have hkx : k ∈ F.kids x := heq ▸ hk
          obtain ⟨next, hnext, hcut, -⟩ := ih st G _ x k (U.erase x) hst hkG hcard' (by
            intro y hy
            have hky := (hreach y hy).of_detach
            refine Finset.mem_erase.mpr ⟨?_, hU y ((Family.reach_of_mem hkx).trans hky)⟩
            rintro rfl
            exact h.rooted.acyclic hkx hky)
          exact ⟨next, hnext, hcut⟩)
        hrep'
      refine ⟨_, remove_of_below hc hmid hbelow hlast, ?_, fun hnil => absurd hnil hne⟩
      rw [heq, Family.cut_congr (T := fun y => ∃ k ∈ F.kids x, (F.detach x).Reach k y)
        fun y => by simp, Family.cut_reach_eq hself] at hcut
      exact drop_spec hcut hloose (Family.cut_of Family.Reach.refl)

/-! ### Records -/

/-- A record that keeps its id, its parent and its order can be replaced. -/
theorem represents_replace (h : Represents draft F loose) {c c' : Channel}
    (hc : draft.channels.get? x = some c) (hid : c'.id = c.id) (hparent : c'.parentID = c.parentID)
    (horder : c'.order = c.order) :
    Represents { draft with channels := draft.channels.set x c' } F loose := by
  have hback : ∀ {y d'}, (draft.channels.set x c').get? y = some d' →
      ∃ d, draft.channels.get? y = some d ∧ d'.id = d.id ∧ d'.parentID = d.parentID ∧
        d'.order = d.order := by
    intro y d' hd'
    by_cases hxy : x = y
    · subst hxy
      rw [InsertionMap.get?_set_self] at hd'
      cases hd'
      exact ⟨c, hc, hid, hparent, horder⟩
    · rw [InsertionMap.get?_set_ne _ _ hxy] at hd'
      exact ⟨d', hd', rfl, rfl, rfl⟩
  have hforth : ∀ {y d}, draft.channels.get? y = some d →
      ∃ d', (draft.channels.set x c').get? y = some d' ∧ d'.parentID = d.parentID := by
    intro y d hd
    by_cases hxy : x = y
    · subst hxy
      rw [hc] at hd
      cases hd
      exact ⟨c', InsertionMap.get?_set_self .., hparent⟩
    · exact ⟨d, (InsertionMap.get?_set_ne _ _ hxy).trans hd, rfl⟩
  refine ⟨⟨h.kids, ?_, ?_, ?_, ?_, ?_, h.rooted⟩, ?_, h.nonempty⟩
  · intro y d' hd'
    obtain ⟨d, hd, hsame, -⟩ := hback hd'
    exact hsame.trans (h.id hd)
  · intro q y hy
    obtain ⟨d, hd, hq⟩ := h.kid hy
    obtain ⟨d', hd', hsame⟩ := hforth hd
    exact ⟨d', hd', hsame.trans hq⟩
  · intro y d' hd'
    obtain ⟨d, hd, -, hsame, -⟩ := hback hd'
    rw [hsame]
    exact h.held hd
  · intro y hl
    obtain ⟨d, hd⟩ := h.loose_held hl
    obtain ⟨d', hd', -⟩ := hforth hd
    exact ⟨d', hd'⟩
  · exact (InsertionMap.get?_set_ne _ _ (h.ne_top hc)).trans h.no_top
  · intro q y hy d' hd'
    obtain ⟨d, hd, -, -, hsame⟩ := hback hd'
    exact hsame.trans (h.ordered q y hy d hd)

/-- A record for a channel that is in no list makes it loose. -/
theorem represents_set (h : Represents draft F loose) (hx : ∀ q, x ∉ F.kids q)
    (hne : x ≠ topChannel) {c : Channel} (hid : c.id = x) {loose' : ChannelID → Prop}
    (hloose : ∀ y, loose' y ↔ loose y ∨ y = x) :
    Represents { draft with channels := draft.channels.set x c } F loose' := by
  have hother : ∀ {y}, x ≠ y → (draft.channels.set x c).get? y = draft.channels.get? y :=
    fun hxy => InsertionMap.get?_set_ne _ _ hxy
  have hmem : ∀ {q y}, y ∈ F.kids q → x ≠ y := by
    rintro q y hy rfl
    exact hx q hy
  refine ⟨⟨h.kids, ?_, ?_, ?_, ?_, ?_, ?_⟩, ?_, h.nonempty⟩
  · intro y d hd
    by_cases hxy : x = y
    · subst hxy
      rw [InsertionMap.get?_set_self] at hd
      exact Option.some.inj hd ▸ hid
    · exact h.id ((hother hxy).symm.trans hd)
  · intro q y hy
    obtain ⟨d, hd, hq⟩ := h.kid hy
    exact ⟨d, (hother (hmem hy)).trans hd, hq⟩
  · intro y d hd
    by_cases hxy : x = y
    · exact Or.inl ((hloose y).mpr (Or.inr hxy.symm))
    · exact (h.held ((hother hxy).symm.trans hd)).imp_left fun hl => (hloose y).mpr (Or.inl hl)
  · intro y hl
    by_cases hxy : x = y
    · exact ⟨c, hxy ▸ InsertionMap.get?_set_self ..⟩
    · obtain ⟨d, hd⟩ := h.loose_held (((hloose y).mp hl).resolve_right fun heq => hxy heq.symm)
      exact ⟨d, (hother hxy).trans hd⟩
  · exact (hother hne).trans h.no_top
  · refine ⟨?_, ?_⟩
    · rintro r q (rfl | hr) hr'
      · exact h.rooted.free (Or.inl rfl) hr'
      · rcases (hloose r).mp hr with hr | rfl
        · exact h.rooted.free (Or.inr hr) hr'
        · exact hx q hr'
    · intro q y hy
      obtain ⟨r, hr, hreach⟩ := h.rooted.reach hy
      exact ⟨r, hr.imp_right fun hr => (hloose r).mpr (Or.inl hr), hreach⟩
  · intro q y hy d hd
    exact h.ordered q y hy d ((hother (hmem hy)).symm.trans hd)

/-! ### Creating, editing and moving -/

/-- The top, or a channel that is held. -/
def Known (draft : ChannelTree) (p : ChannelID) : Prop :=
  p = topChannel ∨ ∃ c, draft.channels.get? p = some c

theorem Holds.reach_of_known (h : Holds draft F noneLoose) (hp : Known draft p) :
    F.Reach topChannel p := by
  rcases hp with rfl | ⟨c, hc⟩
  · exact Family.Reach.refl
  · obtain ⟨r, rfl | hl, hreach⟩ := h.reach_of_held hc
    · exact hreach
    · exact hl.elim

theorem parentOf_spec (draft : ChannelTree) (parent : ChannelID) :
    ∃ b q, draft.parentOf parent = ({ draft with consistent := b }, q) ∧ Known draft q ∧
      (Known draft parent → q = parent ∧ b = draft.consistent) := by
  have hiff : Known draft parent ↔ parent = topChannel ∨ draft.channels.has parent = true :=
    or_congr_right InsertionMap.has_iff.symm
  unfold parentOf
  by_cases hp : parent = topChannel ∨ draft.channels.has parent = true
  · rw [if_pos hp]
    exact ⟨draft.consistent, parent, rfl, hiff.mpr hp, fun _ => ⟨rfl, rfl⟩⟩
  · rw [if_neg hp]
    exact ⟨false, topChannel, rfl, Or.inl rfl, fun hknown => absurd (hiff.mp hknown) hp⟩

/-- A channel taken out of its list and put into another, below no channel that it is
above. -/
theorem insert_detached (h : Represents draft (F.detach x) fun y => noneLoose y ∨ y = x)
    (hrooted : F.Reach topChannel p) (hwithin : ¬ F.Reach x p) {c : Channel}
    (hc : draft.channels.get? x = some c) (hparent : c.parentID = p) (after : Option ChannelID) :
    ∃ next hx, draft.insert p x after = some next ∧
      Represents next
        ((F.detach x).attach p x (placed after x ((F.detach x).kids p))
          (placed_perm after x ((F.detach x).kids p)) hx) noneLoose ∧
      (Placeable after ((F.detach x).kids p) → next.consistent = draft.consistent) :=
  insert_spec h id hc hparent
    ⟨topChannel, Or.inl rfl, hrooted.detach_of_not_reach hwithin⟩ after

theorem edit_of_no_order (event : ChannelEditedEvent) {c : Channel}
    (hc : draft.channels.get? event.channelID = some c) (hid : c.id = event.channelID)
    (horder : event.changes.order = none) (h : Represents draft F noneLoose) :
    ∃ next, edit draft event = some next ∧ Represents next F noneLoose ∧
      next.consistent = draft.consistent := by
  unfold edit
  rw [hc]
  simp only [horder, hid]
  exact ⟨_, rfl, represents_replace h hc rfl rfl rfl, rfl⟩

theorem edit_of_order (event : ChannelEditedEvent) {c : Channel}
    (hc : draft.channels.get? event.channelID = some c) {order : ChannelID}
    (horder : event.changes.order = some order) (h : Represents draft F noneLoose) :
    ∃ next hx, edit draft event = some next ∧
      Represents next
        ((F.detach event.channelID).attach c.parentID event.channelID
          (placed (some order) event.channelID ((F.detach event.channelID).kids c.parentID))
          (placed_perm _ _ _) hx) noneLoose ∧
      (Placeable (some order) ((F.detach event.channelID).kids c.parentID) →
        next.consistent = draft.consistent) := by
  have hid := h.id hc
  have hmem : event.channelID ∈ F.kids c.parentID := (h.held hc).resolve_left id
  have hrep : Represents
      { draft with
        channels := draft.channels.set event.channelID
          (applyChannelChanges c { event.changes with order := none, parentID := none }) }
      F noneLoose := represents_replace h hc rfl rfl rfl
  obtain ⟨mid, hmid, hdetached, hconsistent, hsame⟩ := detach_spec hrep hmem
  obtain ⟨next, hx, hnext, hresult, hkeep⟩ :=
    insert_detached hdetached (h.reach_of_known (h.parent_held hmem)) (h.rooted.acyclic hmem)
      (hsame.trans (InsertionMap.get?_set_self ..)) rfl (some order)
  refine ⟨next, hx, ?_, hresult, fun hplace => (hkeep hplace).trans hconsistent⟩
  unfold edit
  rw [hc]
  simp only [horder, hid]
  rw [hmid]
  exact hnext

/-- What is left of a move once the parent is settled. -/
theorem moveTo_spec (h : Represents draft F noneLoose) {c : Channel}
    (hc : draft.channels.get? x = some c) (hknown : Known draft p) (hwithin : ¬ F.Reach x p)
    (order : ChannelID) :
    ∃ next hx, (do
        let mid ← draft.detach x
        insert { mid with channels := mid.channels.set x { c with parentID := p } } p x
          (some order)) = some next ∧
      Represents next
        ((F.detach x).attach p x (placed (some order) x ((F.detach x).kids p))
          (placed_perm _ _ _) hx) noneLoose ∧
      (Placeable (some order) ((F.detach x).kids p) → next.consistent = draft.consistent) := by
  have hmem : x ∈ F.kids c.parentID := (h.held hc).resolve_left id
  have hid : c.id = x := h.id hc
  obtain ⟨mid, hmid, hdetached, hconsistent, -⟩ := detach_spec h hmem
  have hloose : Represents
      { mid with channels := mid.channels.set x { c with parentID := p } } (F.detach x)
        fun y => noneLoose y ∨ y = x :=
    represents_set (c := { c with parentID := p }) hdetached (fun q hx => (Family.mem_detach.mp hx).2 rfl) (h.ne_top hc)
      hid fun y => (or_iff_left_of_imp Or.inr).symm
  obtain ⟨next, hx, hnext, hresult, hkeep⟩ :=
    insert_detached hloose (h.reach_of_known hknown) hwithin (InsertionMap.get?_set_self ..) rfl
      (some order)
  refine ⟨next, hx, ?_, hresult, fun hplace => (hkeep hplace).trans hconsistent⟩
  rw [hmid]
  exact hnext

/-- **A move** puts the channel under the parent it names, or leaves it under its own. -/
theorem move_spec (h : Represents draft F noneLoose) (event : ChannelMovedEvent) {c : Channel}
    (hc : draft.channels.get? event.channelID = some c) :
    ∃ next q hx, move draft event = some next ∧
      Represents next
        ((F.detach event.channelID).attach q event.channelID
          (placed (some event.order) event.channelID ((F.detach event.channelID).kids q))
          (placed_perm _ _ _) hx) noneLoose ∧
      (Known draft event.parentID → ¬ F.Reach event.channelID event.parentID →
        q = event.parentID ∧ (Placeable (some event.order) ((F.detach event.channelID).kids q) →
          next.consistent = draft.consistent)) := by
  have hid := h.id hc
  have hmem : event.channelID ∈ F.kids c.parentID := (h.held hc).resolve_left id
  obtain ⟨b, q, hparent, hq, hsame⟩ := parentOf_spec draft event.parentID
  have hrep := h.withConsistent b
  obtain ⟨within, hwithin, hreach⟩ := isWithin_spec hrep.toHolds (h.ne_top hc)
    (card_heldIds_lt { draft with consistent := b }) hq
    fun y hy hne => hrep.toHolds.held_of_reach_up hy hq hne
  cases within with
  | true =>
    -- under itself: back under its own parent
    obtain ⟨next, hx, hnext, hresult, -⟩ := moveTo_spec (h.withConsistent false) hc
      (h.parent_held hmem) (h.rooted.acyclic hmem) event.order
    refine ⟨next, c.parentID, hx, ?_, hresult, ?_⟩
    · rw [← hid] at hwithin hnext
      unfold move
      rw [hc]
      simp only [hparent, hwithin, Option.bind_eq_bind, Option.bind_some, if_true]
      exact hnext
    · intro hknown hnot
      exact absurd ((hsame hknown).1 ▸ hreach.mp rfl) hnot
  | false =>
    have hnot : ¬ F.Reach event.channelID q := fun hq => Bool.noConfusion (hreach.mpr hq)
    obtain ⟨next, hx, hnext, hresult, hkeep⟩ := moveTo_spec hrep hc hq hnot event.order
    refine ⟨next, q, hx, ?_, hresult, ?_⟩
    · rw [← hid] at hwithin hnext
      unfold move
      rw [hc]
      simp only [hparent, hwithin, Option.bind_eq_bind, Option.bind_some,
        Bool.false_eq_true, if_false]
      exact hnext
    · intro hknown _
      obtain ⟨hq, hb⟩ := hsame hknown
      exact ⟨hq, fun hplace => (hkeep hplace).trans hb⟩

theorem Holds.not_mem_of_not_held (h : Holds draft F loose) (hx : draft.channels.get? x = none)
    (q : ChannelID) : x ∉ F.kids q := by
  intro hmem
  obtain ⟨c, hc, -⟩ := h.kid hmem
  rw [hx] at hc
  cases hc

theorem Holds.cut_of_not_held (h : Holds draft F loose) (hx : draft.channels.get? x = none)
    (hne : x ≠ topChannel) : F.cut (F.Reach x) = F := by
  have hnil := h.kids_of_not_held hx hne
  apply Family.ext
  funext q
  by_cases hq : F.Reach x q
  · rw [Family.cut_of hq, hq.of_no_kids hnil, hnil]
  · rw [Family.cut_of_not hq, List.filter_eq_self]
    intro y hy
    have hreach : ¬ F.Reach x y := by
      intro hxy
      rw [hxy.of_no_kids hnil] at hy
      exact h.not_mem_of_not_held hx q hy
    simpa using hreach

/-- A channel that is not held is put under a parent. -/
theorem createIn_spec (h : Represents draft F noneLoose) (hnew : draft.channels.get? x = none)
    (hne : x ≠ topChannel) (hknown : Known draft p) {c : Channel} (hid : c.id = x)
    (hparent : c.parentID = p) (after : Option ChannelID) :
    ∃ next hx, insert { draft with channels := draft.channels.set x c } p x after = some next ∧
      Represents next (F.attach p x (placed after x (F.kids p)) (placed_perm _ _ _) hx) noneLoose ∧
      (Placeable after (F.kids p) → next.consistent = draft.consistent) := by
  have hloose : Represents { draft with channels := draft.channels.set x c } F
      fun y => noneLoose y ∨ y = x :=
    represents_set h (h.not_mem_of_not_held hnew) hne hid fun _ => Iff.rfl
  exact insert_spec hloose id (InsertionMap.get?_set_self ..) hparent
    ⟨topChannel, Or.inl rfl, h.reach_of_known hknown⟩ after

/-- What a creation leaves of the family before it puts its channel in: all but the
channel's earlier self, with all below it. -/
theorem replaced_spec (h : Represents draft F noneLoose) (hne : x ≠ topChannel) :
    ∃ mid, (if draft.channels.has x then
        remove draft.steps { draft with consistent := false } x else some draft) = some mid ∧
      Represents mid (F.cut (F.Reach x)) noneLoose ∧ mid.channels.get? x = none ∧
      (draft.channels.get? x = none → mid = draft) := by
  cases hx : draft.channels.get? x with
  | none =>
    rw [InsertionMap.has_eq_false.mpr hx, h.cut_of_not_held hx hne]
    exact ⟨draft, rfl, h, hx, fun _ => rfl⟩
  | some c =>
    have hmem : x ∈ F.kids c.parentID := (h.held hx).resolve_left id
    obtain ⟨mid, hmid, hrep, -⟩ := remove_spec draft.steps { draft with consistent := false } F
      noneLoose c.parentID x draft.heldIds (h.withConsistent false) hmem
      (card_heldIds_lt draft).le (by
        intro y hy
        rcases h.held_of_reach hy with rfl | ⟨d, hd⟩
        · exact mem_heldIds hx
        · exact mem_heldIds hd)
    refine ⟨mid, ?_, hrep, ?_, nofun⟩
    · rw [if_pos (InsertionMap.has_iff.mpr ⟨c, hx⟩)]
      exact hmid
    · cases hget : mid.channels.get? x with
      | none => rfl
      | some d =>
        have hcut := (hrep.held hget).resolve_left id
        exact absurd Family.Reach.refl (Family.mem_cut.mp hcut).2.2

/-- **A creation** puts a channel under the parent it names, or at the top, in place of
its earlier self. -/
theorem create_spec (h : Represents draft F noneLoose) (event : ChannelCreatedEvent)
    (hne : event.channelID ≠ topChannel) :
    ∃ next G q hx, create draft event = some next ∧ G = F.cut (F.Reach event.channelID) ∧
      Represents next
        (G.attach q event.channelID (placed event.changes.order event.channelID (G.kids q))
          (placed_perm _ _ _) hx) noneLoose ∧
      (draft.channels.get? event.channelID = none → Known draft event.parentID →
        q = event.parentID ∧ (Placeable event.changes.order (G.kids q) →
          next.consistent = draft.consistent)) := by
  obtain ⟨mid, hmid, hrep, hnew, hsame⟩ := replaced_spec h hne
  obtain ⟨b, q, hparent, hq, hkept⟩ := parentOf_spec mid event.parentID
  obtain ⟨next, hx, hnext, hresult, hkeep⟩ :=
    createIn_spec (hrep.withConsistent b) hnew hne hq
      (c := applyChannelChanges
        { id := event.channelID, parentID := topChannel, order := topChannel,
          properties := createdChannelDefaults }
        { event.changes with parentID := some q }) rfl rfl event.changes.order
  refine ⟨next, _, q, hx, ?_, rfl, hresult, ?_⟩
  · unfold create
    simp only [hmid, Option.bind_eq_bind, Option.bind_some, hparent]
    exact hnext
  · intro hnot hknown
    rw [hsame hnot] at hkept
    obtain ⟨hq, hb⟩ := hkept hknown
    exact ⟨hq, fun hplace => (hkeep hplace).trans hb⟩

end Teamspeak.ChannelTree
