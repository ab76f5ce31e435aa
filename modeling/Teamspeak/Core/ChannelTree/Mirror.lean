import Teamspeak.Core.ChannelTree.Invariant
import Teamspeak.Core.ChannelTree.Listing
import Teamspeak.Core.ChannelTree.Server

/-!
# A tree follows its server

A tree built from a server's listing and fed the events of its operations has the
server's listing after each of them, and is consistent: `follows_server`.

* `Follows`: the tree and the server have one family.
* `create_follows`, `move_follows`, `reorder_follows`, `edit_follows`, `delete_follows`:
  one event on each side.
* `Tracks`: what holds along a journal, kept by `tracks_operate`.
-/

namespace Teamspeak.ChannelTree

/-- Rows that list the channels of a server, in any order. -/
def Lists (rows : List Channel) (server : Server) : Prop :=
  (rows.map fun c => (c.id, ({ parent := c.parentID, order := c.order } : Node))).Perm
    server.nodes.entries

instance (rows : List Channel) (server : Server) : Decidable (Lists rows server) :=
  inferInstanceAs (Decidable (List.Perm _ _))

/-- The tree has the server's channels, each with the parent, the place and the order that
it has there. -/
structure Mirrors (tree : ChannelTree) (server : Server) : Prop where
  records : ∀ x, (tree.get x).map
      (fun c => (c.id, ({ parent := c.parentID, order := c.order } : Node))) =
    (server.nodes.get? x).map fun n => (x, n)
  children : ∀ p, tree.kidsOf p = server.childrenOf p
  consistent : tree.consistent = true

/-- What the server keeps once it has sent `sent`. -/
def serverAt (start : Server) (sent : List (Event × Server)) : Server :=
  (sent.getLast?.map Prod.snd).getD start

structure Follows (tree : ChannelTree) (server : Server) (F : Family ChannelID) : Prop where
  represents : Represents tree F noneLoose
  keeps : Keeps server F
  consistent : tree.consistent = true

variable {tree : ChannelTree} {server : Server} {F : Family ChannelID} {p x a : ChannelID}

theorem Follows.mirrors (h : Follows tree server F) : Mirrors tree server where
  records := by
    intro x
    cases hc : tree.get x with
    | none =>
      cases hn : server.nodes.get? x with
      | none => rfl
      | some n =>
        obtain ⟨c, hc', -⟩ := h.represents.kid (h.keeps.node.mp hn).1
        exact absurd (hc.symm.trans hc') nofun
    | some c =>
      have hx := h.represents.mem_kids hc
      rw [h.keeps.get?_eq hx, ← h.represents.ordered _ x hx c hc, Option.map_some, Option.map_some,
        h.represents.id hc]
  children p := (h.represents.kids p).trans (childrenOf_eq h.keeps p).symm
  consistent := h.consistent

/-- What the server has, the tree holds. -/
theorem Follows.known (h : Follows tree server F)
    (hp : p = topChannel ∨ server.nodes.has p = true) : Known tree p := by
  refine hp.imp_right fun hhas => ?_
  obtain ⟨q, hq⟩ := h.keeps.has_iff.mp hhas
  obtain ⟨c, hc, -⟩ := h.represents.kid hq
  exact ⟨c, hc⟩

/-- **The server's walk up** is the tree's. -/
theorem Follows.within_eq (h : Follows tree server F) {n : Nat} {b : Bool}
    (hx : Known tree x) (hwithin : isWithin tree n x a = some b) : server.within n x a = b := by
  induction n generalizing x with
  | zero => exact absurd hwithin nofun
  | succ n ih =>
    rw [Server.within]
    rcases hx with rfl | ⟨c, hc⟩
    · rw [isWithin, h.represents.no_top] at hwithin
      rw [if_pos rfl]
      exact Option.some.inj hwithin
    · rw [isWithin_of_held hc (h.represents.id hc)] at hwithin
      rw [if_neg (h.represents.ne_top hc)]
      by_cases hxa : x = a
      · rw [if_pos hxa] at hwithin ⊢
        exact Option.some.inj hwithin
      · rw [if_neg hxa] at hwithin ⊢
        have hmem := h.represents.mem_kids hc
        rw [h.keeps.get?_eq hmem]
        exact ih (h.represents.parent_held hmem) hwithin

/-- A server has a step for every channel of its tree. -/
theorem Follows.card_lt (h : Follows tree server F) : tree.heldIds.card < server.steps := by
  have hsub : tree.heldIds ⊆ (server.nodes.entries.map Prod.fst).toFinset := by
    intro y hy
    obtain ⟨⟨y, c⟩, hc, rfl⟩ := List.mem_map.mp (List.mem_toFinset.mp hy)
    have hget := h.keeps.get?_eq (h.represents.mem_kids (InsertionMap.mem_entries.mp hc))
    exact List.mem_toFinset.mpr (List.mem_map_of_mem (InsertionMap.mem_entries.mpr hget))
  have hle := (Finset.card_le_card hsub).trans (List.toFinset_card_le _)
  rw [List.length_map] at hle
  exact Nat.lt_succ_of_le hle

theorem Follows.not_reach (h : Follows tree server F) (ha : a ≠ topChannel) (hx : Known tree x)
    (hwithin : server.within server.steps x a = false) : ¬ F.Reach a x := by
  obtain ⟨b, hb, hreach⟩ := isWithin_spec h.represents.toHolds ha h.card_lt hx
    fun y hy hne => h.represents.held_of_reach_up hy hx hne
  rw [h.within_eq hx hb] at hwithin
  rw [← hreach, hwithin]
  exact Bool.false_ne_true

/-! ### One event on each side -/

section Events

variable (h : Follows tree server F) {after : ChannelID}
  {properties : List (Str × Option PropertyValue)}
include h

theorem create_follows (hne : x ≠ topChannel) (hnew : ∀ q, x ∉ F.kids q)
    (hp : p = topChannel ∨ server.nodes.has p = true)
    (hafter : after = topChannel ∨ after ∈ F.kids p) :
    ∃ next, apply tree (.created
        { channelID := x
          parentID := p
          changes := { parentID := some p, order := some after, properties } }) = some next ∧
      Follows next (server.insert x p after)
        (F.attach p x (place topChannel after x (F.kids p)) (place_perm _ _ _ _) hnew) := by
  have hnot : tree.channels.get? x = none := by
    cases hc : tree.channels.get? x with
    | none => rfl
    | some c => exact absurd (h.represents.mem_kids hc) (hnew _)
  obtain ⟨next, G, q, hx, hnext, hG, hrep, hkept⟩ := create_spec h.represents
    { channelID := x
      parentID := p
      changes := { parentID := some p, order := some after, properties } } hne
  obtain rfl : G = F := hG.trans (h.represents.cut_of_not_held hnot hne)
  obtain ⟨rfl, hkeep⟩ := hkept hnot (h.known hp)
  refine ⟨next, ?_, hrep, keeps_insert h.keeps hnew hne hafter, ?_⟩
  · exact (if_neg hne).trans hnext
  · exact (hkeep ⟨after, rfl, hafter⟩).trans h.consistent

omit h in
/-- What a channel can come after once it is taken out. -/
theorem place_detach (hafter : after = topChannel ∨ after ∈ F.kids p ∧ after ≠ x) :
    after = topChannel ∨ after ∈ (F.detach x).kids p :=
  hafter.imp_right Family.mem_detach.mpr

theorem move_follows {q : ChannelID} (hx : x ∈ F.kids q)
    (hp : p = topChannel ∨
      server.nodes.has p = true ∧ server.within server.steps p x = false)
    (hafter : after = topChannel ∨ after ∈ F.kids p ∧ after ≠ x)
    (hnew : ∀ r, x ∉ (F.detach x).kids r) :
    ∃ next, apply tree (.moved { channelID := x, parentID := p, order := after }) = some next ∧
      Follows next ((server.remove x).insert x p after)
        ((F.detach x).attach p x (place topChannel after x ((F.detach x).kids p))
          (place_perm _ _ _ _) hnew) := by
  have hne : x ≠ topChannel := h.represents.ne_top_of_mem hx
  obtain ⟨c, hc, -⟩ := h.represents.kid hx
  have hknown : Known tree p := h.known (hp.imp_right And.left)
  have hwithin : ¬ F.Reach x p := by
    rcases hp with rfl | ⟨-, hwithin⟩
    · intro hreach
      rcases Relation.ReflTransGen.cases_tail hreach with heq | ⟨r, -, hmem⟩
      · exact hne heq.symm
      · exact h.keeps.no_top r hmem
    · exact h.not_reach hne hknown hwithin
  obtain ⟨next, r, hx', hnext, hrep, hkept⟩ := move_spec h.represents
    { channelID := x, parentID := p, order := after } hc
  obtain ⟨rfl, hkeep⟩ := hkept hknown hwithin
  have hplace := place_detach hafter
  refine ⟨next, ?_, hrep, keeps_insert (keeps_remove h.keeps hx) hnew hne hplace, ?_⟩
  · exact (if_neg hne).trans hnext
  · exact (hkeep ⟨after, rfl, hplace⟩).trans h.consistent

theorem reorder_follows (hx : x ∈ F.kids p)
    (hafter : after = topChannel ∨ after ∈ F.kids p ∧ after ≠ x)
    (hnew : ∀ r, x ∉ (F.detach x).kids r) :
    ∃ next, apply tree (.edited
        { channelID := x, changes := { order := some after, properties } }) = some next ∧
      Follows next ((server.remove x).insert x p after)
        ((F.detach x).attach p x (place topChannel after x ((F.detach x).kids p))
          (place_perm _ _ _ _) hnew) := by
  have hne : x ≠ topChannel := h.represents.ne_top_of_mem hx
  obtain ⟨c, hc, rfl⟩ := h.represents.kid hx
  obtain ⟨next, hx', hnext, hrep, hkeep⟩ := edit_of_order
    { channelID := x, changes := { order := some after, properties } } hc rfl h.represents
  have hplace := place_detach hafter
  refine ⟨next, ?_, hrep, keeps_insert (keeps_remove h.keeps hx) hnew hne hplace, ?_⟩
  · exact (if_neg hne).trans hnext
  · exact (hkeep ⟨after, rfl, hplace⟩).trans h.consistent

theorem edit_follows (hx : x ∈ F.kids p) :
    ∃ next, apply tree (.edited { channelID := x, changes := { properties } }) = some next ∧
      Follows next server F := by
  have hne : x ≠ topChannel := h.represents.ne_top_of_mem hx
  obtain ⟨c, hc, -⟩ := h.represents.kid hx
  obtain ⟨next, hnext, hrep, hkeep⟩ := edit_of_no_order
    { channelID := x, changes := { properties } } hc (h.represents.id hc) rfl h.represents
  refine ⟨next, ?_, hrep, h.keeps, hkeep.trans h.consistent⟩
  exact (if_neg hne).trans hnext

/-- A channel without subchannels is deleted. -/
theorem delete_follows (hx : x ∈ F.kids p) (hnil : F.kids x = []) :
    ∃ next, apply tree (.deleted { channelID := x }) = some next ∧
      Follows next (server.remove x) (F.cut (F.Reach x)) := by
  have hne : x ≠ topChannel := h.represents.ne_top_of_mem hx
  obtain ⟨c, hc, -⟩ := h.represents.kid hx
  obtain ⟨next, hnext, hrep, hkeep⟩ := remove_spec tree.steps tree F noneLoose p x tree.heldIds
    h.represents hx (card_heldIds_lt tree).le (by
      intro y hy
      rw [hy.of_no_kids hnil]
      exact mem_heldIds hc)
  have hfamily : F.detach x = F.cut (F.Reach x) := by
    rw [← Family.cut_reach_eq h.represents.rooted.not_mem_kids_self, hnil]
    exact (Family.cut_false (by simp)).symm
  refine ⟨next, ?_, hrep, hfamily ▸ keeps_remove h.keeps hx, (hkeep hnil).trans h.consistent⟩
  exact (if_neg hne).trans hnext

end Events

/-! ### Along a journal -/

/-- The tree of `rows` follows the server through all that it has sent since `start`. -/
structure Tracks (rows : List Channel) (start : Server) (st : Journal) (F : Family ChannelID) :
    Prop where
  server : st.server = serverAt start st.sent
  follows : ∃ tree, run rows (st.sent.map Prod.fst) = some tree ∧ Follows tree st.server F
  mirrors : ∀ before after, st.sent = before ++ after →
    ∃ tree, run rows (before.map Prod.fst) = some tree ∧ Mirrors tree (serverAt start before)

namespace Tracks

variable {rows : List Channel} {start : Server} {st : Journal} (h : Tracks rows start st F)
include h

theorem keeps : Keeps st.server F := by
  obtain ⟨tree, -, hfollows⟩ := h.follows
  exact hfollows.keeps

theorem rooted : F.Rooted fun r => r = topChannel ∨ noneLoose r := by
  obtain ⟨tree, -, hfollows⟩ := h.follows
  exact hfollows.represents.rooted

/-- **One more event** that the tree follows. -/
theorem send {server : Server} {event : Event} {G : Family ChannelID}
    (hstep : ∀ tree, Follows tree st.server F →
      ∃ next, apply tree event = some next ∧ Follows next server G) :
    Tracks rows start (st.send server event) G := by
  obtain ⟨tree, htree, hfollows⟩ := h.follows
  obtain ⟨next, hnext, hresult⟩ := hstep tree hfollows
  have hserver : server = serverAt start (st.sent ++ [(event, server)]) := by
    unfold serverAt
    rw [List.getLast?_concat]
    rfl
  have hrun : run rows ((st.sent ++ [(event, server)]).map Prod.fst) = some next := by
    rw [List.map_append]
    exact (run_concat _ _ _).trans (htree ▸ hnext)
  refine ⟨hserver, ⟨next, hrun, hresult⟩, ?_⟩
  intro before after hsent
  have hsent : st.sent ++ [(event, server)] = before ++ after := hsent
  rcases List.eq_nil_or_concat after with rfl | ⟨after, last, rfl⟩
  · rw [List.append_nil] at hsent
    rw [← hsent, ← hserver]
    exact ⟨next, hrun, hresult.mirrors⟩
  · rw [List.concat_eq_append, ← List.append_assoc] at hsent
    exact h.mirrors before after (List.append_inj_left' hsent rfl)

end Tracks

/-- A deletion with `n` steps, of a channel with fewer than that below it, is followed. -/
theorem tracks_down {rows : List Channel} {start : Server} (n : Nat) {st : Journal}
    {U : Finset ChannelID} (h : Tracks rows start st F) (hx : x ∈ F.kids p) (hcard : U.card ≤ n)
    (hU : ∀ y, F.Reach x y → y ∈ U) :
    Tracks rows start (Journal.down n st x) (F.cut (F.Reach x)) := by
  induction n generalizing st F p x U with
  | zero =>
    have hxU := hU x Family.Reach.refl
    rw [Finset.card_eq_zero.mp (Nat.le_zero.mp hcard)] at hxU
    exact absurd hxU (Finset.notMem_empty x)
  | succ n ih =>
    have hself : x ∉ F.kids x := h.rooted.not_mem_kids_self
    have hxU := hU x Family.Reach.refl
    have hcard' : (U.erase x).card ≤ n := by
      rw [Finset.card_erase_of_mem hxU]
      omega
    have h' := h
    rw [← Family.cut_false (F := F) (S := fun _ => False) fun _ => id] at h'
    obtain ⟨mid, hmid, hcut⟩ := Family.foldlM_cut (x := x) (P := Tracks rows start)
      (f := fun st k => some (Journal.down n st k)) h.rooted (F.nodup x) (fun hp _ => hp) id
      (fun k hk => ⟨hk, id⟩)
      (by
        intro st G k hk hst hkG hreach
        refine ⟨_, rfl, ih (U := U.erase x) hst hkG hcard' ?_⟩
        intro y hy
        have hky := hreach y hy
        refine Finset.mem_erase.mpr ⟨?_, hU y ((Family.reach_of_mem hk).trans hky)⟩
        rintro rfl
        exact h.rooted.acyclic hk hky)
      h'
    rw [Family.cut_congr (T := fun y => ∃ k ∈ F.kids x, F.Reach k y) fun y => by simp] at hcut
    have hfold : (F.kids x).foldl (Journal.down n) st = mid := by
      have hpure := List.foldlM_pure (m := Option) (l := F.kids x) (f := Journal.down n) (b := st)
      exact Option.some.inj (hpure.symm.trans hmid)
    -- the subchannels are gone, so the channel is a leaf
    have hnot : ¬ ∃ k ∈ F.kids x, F.Reach k x := by
      rintro ⟨k, hk, hkx⟩
      exact h.rooted.acyclic hk hkx
    have hleaf : (F.cut fun y => ∃ k ∈ F.kids x, F.Reach k y).kids x = [] :=
      Family.cut_eq_nil fun k hk => ⟨k, hk, Family.Reach.refl⟩
    have hstill : x ∈ (F.cut fun y => ∃ k ∈ F.kids x, F.Reach k y).kids p := by
      refine Family.mem_cut.mpr ⟨hx, ?_, hnot⟩
      rintro ⟨k, hk, hkp⟩
      exact h.rooted.acyclic hk (hkp.child hx)
    rw [Journal.down, childrenOf_eq h.keeps, hfold, ← Family.cut_below_eq]
    exact hcut.send fun tree hfollows => delete_follows hfollows hstill hleaf

/-- **Any operation** that is allowed is followed. -/
theorem tracks_operate {rows : List Channel} {start : Server} {st : Journal}
    (h : Tracks rows start st F) {operation : Operation} (hallowed : Allowed st.server operation) :
    ∃ G, Tracks rows start (st.operate operation) G := by
  have hin : ∀ {x}, st.server.nodes.has x = true → ∃ p, x ∈ F.kids p := h.keeps.has_iff.mp
  have hdetached : ∀ x q, x ∉ (F.detach x).kids q := fun x q hx => (Family.mem_detach.mp hx).2 rfl
  cases operation with
  | create channel parent after properties =>
    obtain ⟨hne, hnew, hparent, hafter⟩ := hallowed
    rw [childrenOf_eq h.keeps] at hafter
    have hnot : ∀ q, channel ∉ F.kids q := by
      intro q hmem
      rw [h.keeps.has_iff.mpr ⟨q, hmem⟩] at hnew
      cases hnew
    exact ⟨_, h.send fun tree hfollows => create_follows hfollows hne hnot hparent hafter⟩
  | move channel parent after =>
    obtain ⟨hhas, hparent, hafter⟩ := hallowed
    rw [childrenOf_eq h.keeps] at hafter
    obtain ⟨q, hq⟩ := hin hhas
    exact ⟨_, h.send fun tree hfollows =>
      move_follows hfollows hq hparent hafter (hdetached channel)⟩
  | reorder channel after properties =>
    obtain ⟨hhas, hafter⟩ := hallowed
    obtain ⟨p, hp⟩ := hin hhas
    have hget := h.keeps.get?_eq hp
    rw [Server.siblings, hget, Option.elim_some, childrenOf_eq h.keeps] at hafter
    rw [Journal.operate, hget]
    exact ⟨_, h.send fun tree hfollows =>
      reorder_follows hfollows hp hafter (hdetached channel)⟩
  | edit channel properties =>
    obtain ⟨p, hp⟩ := hin hallowed
    exact ⟨F, h.send fun tree hfollows => edit_follows hfollows hp⟩
  | delete channel =>
    obtain ⟨p, hp⟩ := hin hallowed
    obtain ⟨tree, -, hfollows⟩ := h.follows
    obtain ⟨c, hc, -⟩ := hfollows.represents.kid hp
    refine ⟨_, tracks_down st.server.steps h hp hfollows.card_lt.le ?_⟩
    intro y hy
    rcases hfollows.represents.held_of_reach hy with rfl | ⟨d, hd⟩
    · exact mem_heldIds hc
    · exact mem_heldIds hd

theorem tracks_run {rows : List Channel} {start : Server} {operations : List Operation}
    {st last : Journal} (h : Tracks rows start st F) (hrun : st.run operations = some last) :
    ∃ G, Tracks rows start last G := by
  unfold Journal.run at hrun
  induction operations generalizing st F with
  | nil =>
    cases hrun
    exact ⟨F, h⟩
  | cons operation operations ih =>
    rw [List.foldlM_cons] at hrun
    by_cases hallowed : Allowed st.server operation
    · rw [if_pos hallowed] at hrun
      obtain ⟨G, hG⟩ := tracks_operate h hallowed
      exact ih hG hrun
    · rw [if_neg hallowed] at hrun
      cases hrun

/-! ### From the first listing on -/

/-- Where the server keeps a family, its listing is one of that family. -/
theorem rowsOf_listing {rows : List Channel} (hkeeps : Keeps server F)
    (hrooted : F.Rooted fun r => r = topChannel ∨ noneLoose r) (h : Lists rows server) :
    RowsOf F rows where
  nodup := by
    have hids : (rows.map fun c =>
        (c.id, ({ parent := c.parentID, order := c.order } : Node))).map Prod.fst =
          rows.map Channel.id := by
      rw [List.map_map]
      rfl
    rw [← hids, (h.map Prod.fst).nodup_iff]
    exact server.nodes.nodup
  row := by
    intro c hc
    exact hkeeps.node.mp (InsertionMap.mem_entries.mp (h.mem_iff.mp (List.mem_map_of_mem hc)))
  all := by
    intro p x hx
    have hmem := h.mem_iff.mpr (InsertionMap.mem_entries.mpr (hkeeps.get?_eq hx))
    obtain ⟨c, hc, heq⟩ := List.mem_map.mp hmem
    exact List.mem_map.mpr ⟨c, hc, congrArg Prod.fst heq⟩
  rooted := hrooted

/-- **A listing is where following starts.** -/
theorem tracks_listing {rows : List Channel} (hkeeps : Keeps server F)
    (hrooted : F.Rooted fun r => r = topChannel ∨ noneLoose r) (h : Lists rows server) :
    Tracks rows server { server } F := by
  obtain ⟨tree, htree, hrep, hconsistent, -⟩ :=
    fromChannels_of_family (rowsOf_listing hkeeps hrooted h)
  have hfollows : Follows tree server F := ⟨hrep, hkeeps, hconsistent⟩
  have hrun : run rows [] = some tree := by
    unfold run
    rw [htree]
    rfl
  refine ⟨rfl, ⟨tree, hrun, hfollows⟩, ?_⟩
  intro before after hsent
  obtain ⟨rfl, -⟩ := List.append_eq_nil_iff.mp hsent.symm
  exact ⟨tree, hrun, hfollows.mirrors⟩

/-- What a server keeps before its first channel. -/
def noChannels : Family ChannelID where
  kids _ := []
  nodup _ := List.nodup_nil
  unique hp := absurd hp List.not_mem_nil

theorem tracks_empty : Tracks [] {} {} noChannels := by
  apply tracks_listing
  · exact ⟨fun {x n} => ⟨nofun, fun h => absurd h.1 List.not_mem_nil⟩,
      fun _ => List.not_mem_nil⟩
  · exact ⟨fun _ => List.not_mem_nil, fun hc => absurd hc List.not_mem_nil⟩
  · exact List.Perm.refl _

/-- **A tree follows its server**: built from the listing of a server, in any order, and fed
the events of the operations that follow, it has after each event the server's listing,
and is consistent. -/
theorem follows_server (past operations : List Operation) {st last : Journal}
    (hpast : Journal.run {} past = some st)
    (hrun : Journal.run { server := st.server } operations = some last) {rows : List Channel}
    (hrows : Lists rows st.server) (before after : List (Event × Server))
    (hsent : last.sent = before ++ after) :
    ∃ tree, run rows (before.map Prod.fst) = some tree ∧
      Mirrors tree (serverAt st.server before) := by
  obtain ⟨F, hst⟩ := tracks_run tracks_empty hpast
  obtain ⟨G, hlast⟩ := tracks_run (tracks_listing hst.keeps hst.rooted hrows) hrun
  exact hlast.mirrors before after hsent

/-- Three channels, listed out of order; then one moves up, and its old parent goes. -/
theorem follows_server_move_delete :
    ∃ st last,
      Journal.run {} [.create 2 0 0 [], .create 5 2 0 [], .create 3 0 2 []] = some st ∧
      Journal.run { server := st.server } [.move 5 0 3, .delete 2] = some last ∧
      ∃ tree,
        run [{ id := 5, parentID := 2, order := 0, properties := .empty },
          { id := 3, parentID := 0, order := 2, properties := .empty },
          { id := 2, parentID := 0, order := 0, properties := .empty }]
          (last.sent.map Prod.fst) = some tree ∧
        Mirrors tree (serverAt st.server last.sent) :=
  ⟨_, _, rfl, rfl,
    follows_server [.create 2 0 0 [], .create 5 2 0 [], .create 3 0 2 []] [.move 5 0 3, .delete 2]
      rfl rfl (by decide) _ [] (List.append_nil _).symm⟩

end Teamspeak.ChannelTree
