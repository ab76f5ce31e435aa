import Teamspeak.Core.ChannelTree.Represents

/-!
# The server's tree

The server that a tree follows keeps, for each channel, its parent and the sibling
before it; when a channel comes or goes it rewrites the order of the one behind.  A
client is told of the channel alone.

* `Operation`, `Journal.operate`: what is done on the server, and the events it sends.
* `Keeps`: the family that a server keeps.
* `keeps_remove`, `keeps_insert`: what rewriting one order does to it.
* `childrenOf_eq`: following the orders finds the family's lists.
-/

namespace Teamspeak.ChannelTree

/-- What the server keeps of a channel. -/
structure Node where
  parent : ChannelID
  order : ChannelID
  deriving DecidableEq

structure Server where
  nodes : InsertionMap ChannelID Node := .empty
  deriving DecidableEq

namespace Server

/-- The children that come after `after`, each found by the order it has. -/
def chain (server : Server) (kids : List ChannelID) :
    Nat → ChannelID → List ChannelID → List ChannelID
  | 0, _, out => out
  | steps + 1, after, out =>
    match kids.find? fun k => (server.nodes.get? k).map Node.order = some after ∧ k ∉ out with
    | none => out
    | some next => chain server kids steps next (out ++ [next])

/-- The ids under `parent`, in the order that the nodes name. -/
def childrenOf (server : Server) (parent : ChannelID) : List ChannelID :=
  let kids := (server.nodes.entries.filter fun entry => entry.2.parent = parent).map Prod.fst
  server.chain kids kids.length topChannel []

/-- Give the node that `behind` picks, if any, another order. -/
def relink (server : Server) (behind : ChannelID × Node → Bool) (order : ChannelID) : Server :=
  match server.nodes.entries.find? behind with
  | none => server
  | some (k, node) => { nodes := server.nodes.set k { node with order } }

/-- The channel, and those beside it. -/
def siblings (server : Server) (channel : ChannelID) : List ChannelID :=
  (server.nodes.get? channel).elim [] fun node => server.childrenOf node.parent

def insert (server : Server) (channel parent after : ChannelID) : Server :=
  let server := server.relink
    (fun (k, node) => k ≠ channel ∧ node.parent = parent ∧ node.order = after) channel
  { nodes := server.nodes.set channel { parent, order := after } }

def remove (server : Server) (channel : ChannelID) : Server :=
  match server.nodes.get? channel with
  | none => server
  | some gone =>
    let server := server.relink
      (fun (_, node) => node.parent = gone.parent ∧ node.order = channel) gone.order
    { nodes := server.nodes.delete channel }

/-- Whether `at_` is `ancestor` or sits below it. -/
def within (server : Server) : Nat → ChannelID → ChannelID → Bool
  | 0, _, _ => false
  | steps + 1, at_, ancestor =>
    if at_ = topChannel then false
    else if at_ = ancestor then true
    else
      match server.nodes.get? at_ with
      | none => false
      | some node => within server steps node.parent ancestor

/-- The steps that a walk up or down may take. -/
def steps (server : Server) : Nat := server.nodes.size + 1

end Server

/-! ### Operations -/

inductive Operation
  | create (channel parent after : ChannelID) (properties : List (Str × Option PropertyValue))
  | move (channel parent after : ChannelID)
  | reorder (channel after : ChannelID) (properties : List (Str × Option PropertyValue))
  | edit (channel : ChannelID) (properties : List (Str × Option PropertyValue))
  | delete (channel : ChannelID)

/-- What the server carries out: a new id, a parent that is there and not below the
channel, and a sibling other than the channel to come after, or none. -/
def Allowed (server : Server) : Operation → Prop
  | .create channel parent after _ =>
    channel ≠ topChannel ∧ server.nodes.has channel = false ∧
      (parent = topChannel ∨ server.nodes.has parent = true) ∧
      (after = topChannel ∨ after ∈ server.childrenOf parent)
  | .move channel parent after =>
    server.nodes.has channel = true ∧
      (parent = topChannel ∨
        server.nodes.has parent = true ∧ server.within server.steps parent channel = false) ∧
      (after = topChannel ∨ after ∈ server.childrenOf parent ∧ after ≠ channel)
  | .reorder channel after _ =>
    server.nodes.has channel = true ∧
      (after = topChannel ∨ after ∈ server.siblings channel ∧ after ≠ channel)
  | .edit channel _ => server.nodes.has channel = true
  | .delete channel => server.nodes.has channel = true

instance (server : Server) (operation : Operation) : Decidable (Allowed server operation) :=
  match operation with
  | .create .. => inferInstanceAs (Decidable (_ ∧ _ ∧ _ ∧ _))
  | .move .. => inferInstanceAs (Decidable (_ ∧ _ ∧ _))
  | .reorder .. => inferInstanceAs (Decidable (_ ∧ _))
  | .edit .. => inferInstanceAs (Decidable (_ = _))
  | .delete _ => inferInstanceAs (Decidable (_ = _))

/-- A server at work: the events it has sent, each with what it kept from then on. -/
structure Journal where
  server : Server := {}
  sent : List (Event × Server) := []

namespace Journal

def send (st : Journal) (server : Server) (event : Event) : Journal :=
  { server, sent := st.sent ++ [(event, server)] }

/-- Delete a channel, its subchannels first. -/
def down : Nat → Journal → ChannelID → Journal
  | 0, st, _ => st
  | steps + 1, st, channel =>
    let st := (st.server.childrenOf channel).foldl (down steps) st
    st.send (st.server.remove channel) (.deleted { channelID := channel })

/-- One operation, and the events it sends. -/
def operate (st : Journal) : Operation → Journal
  | .create channel parent after properties =>
    st.send (st.server.insert channel parent after)
      (.created
        { channelID := channel
          parentID := parent
          changes := { parentID := some parent, order := some after, properties } })
  | .move channel parent after =>
    st.send ((st.server.remove channel).insert channel parent after)
      (.moved { channelID := channel, parentID := parent, order := after })
  | .reorder channel after properties =>
    match st.server.nodes.get? channel with
    | none => st
    | some node =>
      st.send ((st.server.remove channel).insert channel node.parent after)
        (.edited { channelID := channel, changes := { order := some after, properties } })
  | .edit channel properties =>
    st.send st.server (.edited { channelID := channel, changes := { properties } })
  | .delete channel => down st.server.steps st channel

/-- Operations one after another, each allowed when it comes. -/
def run (st : Journal) (operations : List Operation) : Option Journal :=
  operations.foldlM
    (fun st operation => if Allowed st.server operation then some (st.operate operation) else none)
    st

end Journal

/-! ### The family of a server -/

/-- The nodes of `server` are the places of `F`. -/
structure Keeps (server : Server) (F : Family ChannelID) : Prop where
  node : ∀ {x n}, server.nodes.get? x = some n ↔
    x ∈ F.kids n.parent ∧ n.order = predecessor topChannel (F.kids n.parent) x
  no_top : ∀ p, topChannel ∉ F.kids p

variable {server : Server} {F : Family ChannelID} {p q x y a : ChannelID}

namespace Keeps

theorem get?_eq (h : Keeps server F) (hx : x ∈ F.kids p) :
    server.nodes.get? x =
      some { parent := p, order := predecessor topChannel (F.kids p) x } :=
  h.node.mpr ⟨hx, rfl⟩

theorem has_iff (h : Keeps server F) : server.nodes.has x = true ↔ ∃ p, x ∈ F.kids p := by
  rw [InsertionMap.has_iff]
  constructor
  · rintro ⟨n, hn⟩
    exact ⟨n.parent, (h.node.mp hn).1⟩
  · rintro ⟨p, hx⟩
    exact ⟨_, h.get?_eq hx⟩

theorem nodup_cons (h : Keeps server F) (p : ChannelID) : (topChannel :: F.kids p).Nodup :=
  List.nodup_cons.mpr ⟨h.no_top p, F.nodup p⟩

/-- No two nodes of one parent have the same order. -/
theorem order_inj (h : Keeps server F) {m n : Node} (hx : server.nodes.get? x = some m)
    (hy : server.nodes.get? y = some n) (hparent : m.parent = n.parent)
    (horder : m.order = n.order) : x = y := by
  obtain ⟨hx, hm⟩ := h.node.mp hx
  obtain ⟨hy, hn⟩ := h.node.mp hy
  rw [hm, hn, hparent] at horder
  exact predecessor_inj (h.nodup_cons n.parent) (hparent ▸ hx) hy horder

end Keeps

/-! ### Following the orders -/

theorem find?_eq_of_unique {α : Type*} {l : List α} {f : α → Bool} {b : α} (hb : b ∈ l)
    (hf : f b = true) (hunique : ∀ c ∈ l, f c = true → c = b) : l.find? f = some b := by
  cases hfind : l.find? f with
  | none => exact absurd hf (List.find?_eq_none.mp hfind b hb)
  | some c => rw [hunique c (List.mem_of_find?_eq_some hfind) (List.find?_some hfind)]

theorem chain_eq (h : Keeps server F) {kids : List ChannelID}
    (hkids : ∀ k, k ∈ kids ↔ k ∈ F.kids p) {before rest : List ChannelID}
    (hsplit : F.kids p = before ++ rest) {n : Nat} (hn : rest.length ≤ n) {after : ChannelID}
    (hlast : (topChannel :: before).getLast? = some after) :
    server.chain kids n after before = F.kids p := by
  induction rest generalizing before n after with
  | nil =>
    rw [List.append_nil] at hsplit
    cases n with
    | zero => exact hsplit.symm
    | succ n =>
      have hnone : (kids.find? fun k =>
          (server.nodes.get? k).map Node.order = some after ∧ k ∉ before) = none := by
        rw [List.find?_eq_none]
        intro k hk
        have hmem : k ∈ before := hsplit ▸ (hkids k).mp hk
        simp [hmem]
      rw [Server.chain, hnone]
      exact hsplit.symm
  | cons c rest ih =>
    obtain ⟨n, rfl⟩ : ∃ m, n = m + 1 := ⟨n - 1, by rw [List.length_cons] at hn; omega⟩
    have hnodup := F.nodup p
    rw [hsplit] at hnodup
    have hnew : c ∉ before := fun hc => (List.nodup_append'.mp hnodup).2.2 hc List.mem_cons_self
    have hc : c ∈ F.kids p := hsplit ▸ List.mem_append_right _ List.mem_cons_self
    have hpred : predecessor topChannel (F.kids p) c = after :=
      hsplit ▸ predecessor_append hnew hlast
    have hfind : (kids.find? fun k =>
        (server.nodes.get? k).map Node.order = some after ∧ k ∉ before) = some c := by
      apply find?_eq_of_unique ((hkids c).mpr hc)
      · rw [h.get?_eq hc]
        simp [hpred, hnew]
      · intro k hk hf
        have hk := (hkids k).mp hk
        rw [h.get?_eq hk] at hf
        have horder : predecessor topChannel (F.kids p) k = after := by
          have hboth := of_decide_eq_true hf
          exact Option.some.inj hboth.1
        exact predecessor_inj (h.nodup_cons p) hk hc (horder.trans hpred.symm)
    rw [Server.chain, hfind]
    apply ih
    · rw [hsplit, List.append_assoc]
      rfl
    · rw [List.length_cons] at hn
      omega
    · rw [← List.cons_append]
      exact List.getLast?_concat

/-- **Following the orders** finds the lists of the family. -/
theorem childrenOf_eq (h : Keeps server F) (p : ChannelID) : server.childrenOf p = F.kids p := by
  have hkids : ∀ k, k ∈ (server.nodes.entries.filter fun entry => entry.2.parent = p).map
      Prod.fst ↔ k ∈ F.kids p := by
    intro k
    rw [List.mem_map]
    constructor
    · rintro ⟨⟨k, n⟩, hmem, rfl⟩
      rw [List.mem_filter, decide_eq_true_eq] at hmem
      obtain ⟨hmem, rfl⟩ := hmem
      exact (h.node.mp (InsertionMap.mem_entries.mp hmem)).1
    · intro hk
      refine ⟨(k, _), List.mem_filter.mpr ⟨InsertionMap.mem_entries.mpr (h.get?_eq hk), ?_⟩, rfl⟩
      exact decide_eq_true rfl
  have hnodup : ((server.nodes.entries.filter fun entry => entry.2.parent = p).map
      Prod.fst).Nodup := server.nodes.nodup.sublist (List.filter_sublist.map _)
  have hperm := (List.perm_ext_iff_of_nodup hnodup (F.nodup p)).mpr hkids
  exact chain_eq h hkids (List.nil_append _).symm hperm.length_eq.ge rfl

/-! ### Rewriting an order -/

/-- Only the node that is picked changes. -/
theorem get?_relink {behind : ChannelID × Node → Bool}
    (hunique : ∀ x y m n, server.nodes.get? x = some m → server.nodes.get? y = some n →
      behind (x, m) = true → behind (y, n) = true → x = y) (order y : ChannelID) :
    (server.relink behind order).nodes.get? y =
      (server.nodes.get? y).map fun n => if behind (y, n) = true then { n with order } else n := by
  unfold Server.relink
  cases hfind : server.nodes.entries.find? behind with
  | none =>
    cases hy : server.nodes.get? y with
    | none => rfl
    | some n =>
      have hnot := List.find?_eq_none.mp hfind (y, n) (InsertionMap.mem_entries.mpr hy)
      rw [Option.map_some, if_neg hnot]
  | some entry =>
    obtain ⟨k, m⟩ := entry
    have hk := InsertionMap.mem_entries.mp (List.mem_of_find?_eq_some hfind)
    have hbehind := List.find?_some hfind
    show (server.nodes.set k _).get? y = _
    rw [InsertionMap.get?_set]
    by_cases hky : k = y
    · rw [if_pos hky, ← hky, hk, Option.map_some, if_pos hbehind]
    · rw [if_neg hky]
      cases hy : server.nodes.get? y with
      | none => rfl
      | some n =>
        rw [Option.map_some, if_neg fun hn => hky (hunique k y m n hk hy hbehind hn)]

/-- Nodes with one order rewritten are the places of `G`, where `G` differs from `F` by
that alone. -/
theorem relinked_iff (h : Keeps server F) {G : Family ChannelID} {b : ChannelID}
    (hG : ∀ q, y ∈ F.kids q → predecessor topChannel (G.kids q) y =
      if q = p ∧ predecessor topChannel (F.kids q) y = a then b
      else predecessor topChannel (F.kids q) y) {n : Node} :
    ((server.nodes.get? y).map fun n =>
        if n.parent = p ∧ n.order = a then { n with order := b } else n) = some n ↔
      y ∈ F.kids n.parent ∧ n.order = predecessor topChannel (G.kids n.parent) y := by
  constructor
  · intro hn
    obtain ⟨m, hm, rfl⟩ := Option.map_eq_some_iff.mp hn
    obtain ⟨hy, horder⟩ := h.node.mp hm
    have hnew := hG m.parent hy
    rw [← horder] at hnew
    by_cases hif : m.parent = p ∧ m.order = a
    · rw [if_pos hif] at hnew ⊢
      exact ⟨hy, hnew.symm⟩
    · rw [if_neg hif] at hnew ⊢
      exact ⟨hy, hnew.symm⟩
  · rintro ⟨hy, horder⟩
    rw [h.get?_eq hy, Option.map_some]
    rw [hG n.parent hy] at horder
    by_cases hif : n.parent = p ∧ predecessor topChannel (F.kids n.parent) y = a
    · rw [if_pos hif] at horder ⊢
      rw [← horder]
    · rw [if_neg hif] at horder ⊢
      rw [← horder]

/-- **Taking a channel out** gives the one behind it the order it had. -/
theorem keeps_remove (h : Keeps server F) (hx : x ∈ F.kids p) :
    Keeps (server.remove x) (F.detach x) := by
  have hne : topChannel ≠ x := by
    rintro rfl
    exact h.no_top p hx
  have hget : ∀ y, (server.remove x).nodes.get? y =
      if x = y then none
      else (server.nodes.get? y).map fun n =>
        if n.parent = p ∧ n.order = x then
          { n with order := predecessor topChannel (F.kids p) x }
        else n := by
    intro y
    unfold Server.remove
    rw [h.get?_eq hx]
    show ((server.relink _ _).nodes.delete x).get? y = _
    rw [InsertionMap.get?_delete, get?_relink]
    · simp only [decide_eq_true_eq]
    · intro y z m n hm hn hym hzn
      simp only [decide_eq_true_eq] at hym hzn
      exact h.order_inj hm hn (hym.1.trans hzn.1.symm) (hym.2.trans hzn.2.symm)
  refine ⟨?_, fun q hq => h.no_top q (Family.mem_detach.mp hq).1⟩
  intro y n
  rw [hget]
  by_cases hxy : x = y
  · rw [if_pos hxy]
    constructor
    · intro hn
      cases hn
    · rintro ⟨hy, -⟩
      exact absurd hxy.symm (Family.mem_detach.mp hy).2
  · rw [if_neg hxy, relinked_iff h (G := F.detach x)]
    · exact and_congr_left fun _ =>
        ⟨fun hy => Family.mem_detach.mpr ⟨hy, fun heq => hxy heq.symm⟩,
          fun hy => (Family.mem_detach.mp hy).1⟩
    · intro q hy
      by_cases hq : q = p
      · subst hq
        simp only [true_and]
        exact predecessor_filter (F.nodup q) hne hy fun heq => hxy heq.symm
      · rw [detach_kids_of_ne hx hq, if_neg fun hboth => hq hboth.1]

/-- **Putting a channel in** gives the one behind it that channel for its order. -/
theorem keeps_insert (h : Keeps server F) (hx : ∀ q, x ∉ F.kids q) (hne : x ≠ topChannel)
    (ha : a = topChannel ∨ a ∈ F.kids p) :
    Keeps (server.insert x p a)
      (F.attach p x (place topChannel a x (F.kids p)) (place_perm _ _ _ _) hx) := by
  have hget : ∀ y, (server.insert x p a).nodes.get? y =
      if x = y then some { parent := p, order := a }
      else (server.nodes.get? y).map fun n =>
        if n.parent = p ∧ n.order = a then { n with order := x } else n := by
    intro y
    show ((server.relink _ _).nodes.set x _).get? y = _
    rw [InsertionMap.get?_set]
    by_cases hxy : x = y
    · rw [if_pos hxy, if_pos hxy]
    · rw [if_neg hxy, if_neg hxy, get?_relink]
      · have hyx : y ≠ x := fun heq => hxy heq.symm
        simp only [decide_eq_true_eq, ne_eq, hyx, not_false_eq_true, true_and]
      · intro y z m n hm hn hym hzn
        simp only [decide_eq_true_eq] at hym hzn
        exact h.order_inj hm hn (hym.2.1.trans hzn.2.1.symm) (hym.2.2.trans hzn.2.2.symm)
  have hself : predecessor topChannel (place topChannel a x (F.kids p)) x = a :=
    predecessor_place_self (hx p) ha
  refine ⟨?_, ?_⟩
  · intro y n
    rw [hget, Family.mem_attach]
    by_cases hxy : x = y
    · rw [if_pos hxy]
      constructor
      · intro hn
        cases hn
        exact ⟨Or.inl ⟨hxy.symm, rfl⟩, by rw [Family.attach_self, ← hxy, hself]⟩
      · rintro ⟨⟨-, hp⟩ | hy, horder⟩
        · rw [hp, Family.attach_self, ← hxy, hself] at horder
          rw [← hp, ← horder]
        · exact absurd hy (hxy ▸ hx _)
    · rw [if_neg hxy, relinked_iff h
        (G := F.attach p x (place topChannel a x (F.kids p)) (place_perm _ _ _ _) hx)]
      · exact and_congr_left fun _ =>
          (or_iff_right fun hboth : y = x ∧ n.parent = p => hxy hboth.1.symm).symm
      · intro q hy
        by_cases hq : q = p
        · subst hq
          simp only [true_and, Family.attach_self]
          exact predecessor_place (F.nodup q) (h.no_top q) (hx q) hy
        · rw [Family.attach_of_ne hq, if_neg fun hboth => hq hboth.1]
  · intro q hq
    rcases Family.mem_attach.mp hq with ⟨heq, -⟩ | hq
    · exact hne heq.symm
    · exact h.no_top q hq

end Teamspeak.ChannelTree
