import Teamspeak.Core.ChannelTree.Invariant
import Teamspeak.Core.ChannelTree.Listing

/-!
# Building a tree again

The records of a tree say all that it holds: rows made of them, in any order, give the
tree again, and a consistent one.  What an operation does to a list it does to the orders
in it, and so nothing is lost of a tree that is not consistent itself.

* `Represents.rowsOf`: the records of a tree describe its family.
* `rebuild`: the tree made of them.
-/

namespace Teamspeak.ChannelTree

/-- The same channels, under the same parents, in the same order. -/
structure Same (tree tree' : ChannelTree) : Prop where
  get : ∀ x, tree.get x = tree'.get x
  kidsOf : ∀ p, tree.kidsOf p = tree'.kidsOf p

namespace Same

variable {tree tree' : ChannelTree}

theorem children (h : Same tree tree') (p : ChannelID) : tree.children p = tree'.children p := by
  rw [ChannelTree.children, ChannelTree.children, h.kidsOf, funext h.get]

theorem size (h : Same tree tree') : tree.size = tree'.size := by
  have hmem : ∀ {tree : ChannelTree} {x}, x ∈ tree.channels.entries.map Prod.fst ↔
      ∃ c, tree.get x = some c := by
    intro tree x
    rw [List.mem_map]
    constructor
    · rintro ⟨e, he, rfl⟩
      exact ⟨e.2, InsertionMap.mem_entries.mp he⟩
    · rintro ⟨c, hc⟩
      exact ⟨(x, c), InsertionMap.mem_entries.mpr hc, rfl⟩
  have hperm : (tree.channels.entries.map Prod.fst).Perm (tree'.channels.entries.map Prod.fst) := by
    rw [List.perm_ext_iff_of_nodup tree.channels.nodup tree'.channels.nodup]
    intro x
    rw [hmem, hmem, h.get]
  have hlength := hperm.length_eq
  rwa [List.length_map, List.length_map] at hlength

end Same

variable {tree tree' : ChannelTree} {F : Family ChannelID} {listing : List Channel}

theorem mem_listing (hlisting : listing.Perm (tree.channels.entries.map Prod.snd)) {c : Channel} :
    c ∈ listing ↔ ∃ x, tree.get x = some c := by
  rw [hlisting.mem_iff, List.mem_map]
  constructor
  · rintro ⟨⟨x, c⟩, hmem, rfl⟩
    exact ⟨x, InsertionMap.mem_entries.mp hmem⟩
  · rintro ⟨x, hc⟩
    exact ⟨(x, c), InsertionMap.mem_entries.mpr hc, rfl⟩

/-- **The records of a tree describe its family**, in any order. -/
theorem Represents.rowsOf (h : Represents tree F noneLoose)
    (hlisting : listing.Perm (tree.channels.entries.map Prod.snd)) : RowsOf F listing where
  nodup := by
    have hids : (tree.channels.entries.map Prod.snd).map Channel.id =
        tree.channels.entries.map Prod.fst := by
      rw [List.map_map]
      exact List.map_congr_left fun e he => h.id (InsertionMap.mem_entries.mp he)
    rw [(hlisting.map _).nodup_iff, hids]
    exact tree.channels.nodup
  row := by
    intro c hmem
    obtain ⟨x, hc⟩ := (mem_listing hlisting).mp hmem
    obtain rfl := h.id hc
    exact ⟨h.mem_kids hc, h.ordered _ _ (h.mem_kids hc) c hc⟩
  all := by
    intro p x hx
    obtain ⟨c, hc, -⟩ := h.kid hx
    obtain rfl := h.id hc
    exact List.mem_map_of_mem ((mem_listing hlisting).mpr ⟨_, hc⟩)
  rooted := h.rooted

/-- Trees of one family whose records are the same rows are the same. -/
theorem Represents.same (h : Represents tree F noneLoose) (h' : Represents tree' F noneLoose)
    (hrows : ∀ x c, tree.get x = some c → tree'.get x = some c) : Same tree tree' where
  get := by
    intro x
    cases hget : tree.get x with
    | some c => exact (hrows x c hget).symm
    | none =>
      cases hget' : tree'.get x with
      | none => rfl
      | some c =>
        obtain ⟨p, hp⟩ := h'.held_iff_listed.mp ⟨c, hget'⟩
        obtain ⟨d, hd, -⟩ := h.kid hp
        exact absurd (hget.symm.trans hd) (Option.some_ne_none d).symm
  kidsOf := fun p => (h.kids p).trans (h'.kids p).symm

/-- **Rebuilding**: whatever a tree was made of and fed, its own channels, in any order,
make the same tree again, and a consistent one. -/
theorem rebuild (rows : List Channel) (events : List Event) :
    ∃ tree, run rows events = some tree ∧
      ∀ listing : List Channel, listing.Perm (tree.channels.entries.map Prod.snd) →
        ∃ tree', fromChannels listing = some tree' ∧ tree'.consistent = true ∧
          Same tree tree' := by
  obtain ⟨tree, F, htree, hrep⟩ := run_represents rows events
  refine ⟨tree, htree, fun listing hlisting => ?_⟩
  obtain ⟨tree', htree', hrep', hconsistent, hrecords⟩ :=
    fromChannels_of_family (hrep.rowsOf hlisting)
  refine ⟨tree', htree', hconsistent, hrep.same hrep' fun x c hc => ?_⟩
  obtain rfl := hrep.id hc
  exact hrecords c ((mem_listing hlisting).mpr ⟨_, hc⟩)

end Teamspeak.ChannelTree
