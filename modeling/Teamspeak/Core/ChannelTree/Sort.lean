import Teamspeak.Lib.Family
import Teamspeak.Core.ChannelTree

/-!
# Sorting siblings

`sortSiblings` lists every sibling once, whatever predecessors they name
(`sortSiblings_perm`); siblings that name one another in one chain it lists along that
chain, and finds no flaw (`sortSiblings_chain`).

The loop ends: a turn uses up a place on the stack, or lists a channel that was not
listed, and puts no more places on the stack than there are siblings.
-/

namespace Teamspeak.ChannelTree

/-! ### The channels filed under a key -/

/-- The table that `sortSiblings` looks predecessors up in. -/
def afterTable (siblings : List Channel) : InsertionMap ChannelID (List Channel) :=
  siblings.foldl (fun after channel => after.push (afterKey siblings channel) channel) .empty

theorem get?_afterTable (siblings : List Channel) (k : ChannelID) :
    ((afterTable siblings).get? k).getD [] =
      siblings.filter fun channel => afterKey siblings channel = k := by
  unfold afterTable
  rw [InsertionMap.get?_foldl_push]
  rfl

/-- The frame that `enter` gives. -/
theorem enter_fst (siblings : List Channel) (k : ChannelID) (st : Sorting) :
    (enter (afterTable siblings) k st).1 =
      siblings.filter fun channel => afterKey siblings channel = k :=
  get?_afterTable siblings k

theorem enter_out (after : InsertionMap ChannelID (List Channel)) (k : ChannelID) (st : Sorting) :
    (enter after k st).2.out = st.out := by
  show (if _ then _ else _ : Sorting).out = _
  split <;> rfl

theorem enter_of_length_le {after : InsertionMap ChannelID (List Channel)} {k : ChannelID}
    {st : Sorting} (h : (enter after k st).1.length ≤ 1) : (enter after k st).2 = st :=
  if_neg (Nat.not_lt.mpr h)

/-! ### Every sibling once -/

variable {siblings : List Channel}

/-- What is listed is listed once, and is a sibling. -/
structure Listed (siblings : List Channel) (out : List ChannelID) : Prop where
  nodup : out.Nodup
  subset : out ⊆ siblings.map Channel.id

theorem Listed.length_le {out : List ChannelID} (h : Listed siblings out) :
    out.length ≤ siblings.length := by
  have hle := (List.subperm_of_subset h.nodup h.subset).length_le
  rwa [List.length_map] at hle

theorem Listed.append {out : List ChannelID} (h : Listed siblings out) {channel : Channel}
    (hmem : channel ∈ siblings) (hnew : channel.id ∉ out) :
    Listed siblings (out ++ [channel.id]) where
  nodup := List.nodup_append'.mpr ⟨h.nodup, List.nodup_singleton _, by simpa using hnew⟩
  subset := List.append_subset.mpr ⟨h.subset, by simpa using ⟨channel, hmem, rfl⟩⟩

/-- What the turns still to come can use up. -/
def stackWeight (siblings : List Channel) (stack : List (List Channel)) (out : List ChannelID) :
    Nat :=
  (stack.map fun list => list.length + 1).sum +
    (siblings.length - out.length) * (siblings.length + 1)

/-- Every frame holds siblings only. -/
def StackOk (siblings : List Channel) (stack : List (List Channel)) : Prop :=
  ∀ list ∈ stack, ∀ channel ∈ list, channel ∈ siblings

theorem length_filter_afterKey (siblings : List Channel) (k : ChannelID) :
    (siblings.filter fun channel => afterKey siblings channel = k).length ≤ siblings.length :=
  List.length_filter_le _ _

/-- **The loop ends**, and lists siblings, each once, after those listed before. -/
theorem followStack_spec (steps : Nat) (stack : List (List Channel)) (st : Sorting)
    (hstack : StackOk siblings stack) (hst : Listed siblings st.out)
    (hsteps : stackWeight siblings stack st.out < steps) :
    ∃ next, followStack (afterTable siblings) steps stack st = some next ∧
      Listed siblings next.out ∧ st.out ⊆ next.out := by
  induction steps generalizing stack st with
  | zero => exact absurd hsteps (Nat.not_lt_zero _)
  | succ steps ih =>
    cases stack with
    | nil => exact ⟨st, rfl, hst, List.Subset.refl _⟩
    | cons list stack =>
    cases list with
    | nil =>
      rw [followStack]
      apply ih _ _ (fun list hlist => hstack list (List.mem_cons_of_mem _ hlist)) hst
      simp only [stackWeight, List.map_cons, List.sum_cons, List.length_nil] at hsteps ⊢
      omega
    | cons channel list =>
      have hrest : StackOk siblings (list :: stack) := by
        intro list' hlist' c hc
        rcases List.mem_cons.mp hlist' with rfl | hlist'
        · exact hstack _ List.mem_cons_self c (List.mem_cons_of_mem _ hc)
        · exact hstack _ (List.mem_cons_of_mem _ hlist') c hc
      rw [followStack]
      by_cases hseen : channel.id ∈ st.out
      · rw [if_pos hseen]
        apply ih _ _ hrest hst
        simp only [stackWeight, List.map_cons, List.sum_cons, List.length_cons] at hsteps ⊢
        omega
      · -- a new channel: its own frame comes on top
        rw [if_neg hseen]
        have hmem : channel ∈ siblings := hstack _ List.mem_cons_self _ List.mem_cons_self
        have hlisted := hst.append hmem hseen
        have hframe := enter_fst siblings channel.id { st with out := st.out ++ [channel.id] }
        have hout := enter_out (afterTable siblings) channel.id
          { st with out := st.out ++ [channel.id] }
        have hlength := length_filter_afterKey siblings channel.id
        have hlisted' : (st.out ++ [channel.id]).length = st.out.length + 1 := List.length_append
        obtain ⟨next, hnext, hresult, hsub⟩ := ih
          ((enter (afterTable siblings) channel.id
            { st with out := st.out ++ [channel.id] }).1 :: list :: stack)
          (enter (afterTable siblings) channel.id { st with out := st.out ++ [channel.id] }).2
          (by
            intro list' hlist' c hc
            rcases List.mem_cons.mp hlist' with rfl | hlist'
            · rw [hframe] at hc
              exact List.mem_of_mem_filter hc
            · exact hrest _ hlist' c hc)
          (hout ▸ hlisted)
          (by
            have hle := hlisted.length_le
            rw [hlisted'] at hle
            have hmul : (siblings.length - st.out.length) * (siblings.length + 1) =
                (siblings.length - (st.out.length + 1)) * (siblings.length + 1) +
                  (siblings.length + 1) := by
              rw [← Nat.succ_mul]
              congr 1
              omega
            simp only [stackWeight, hframe, hout, hlisted', List.map_cons, List.sum_cons,
              List.length_cons] at hsteps ⊢
            omega)
        refine ⟨next, hnext, hresult, ?_⟩
        rw [hout] at hsub
        exact List.Subset.trans (List.subset_append_left _ _) hsub

/-- One call of `follow`, with the steps that `sortSiblings` gives it. -/
theorem follow_spec (siblings : List Channel) (st : Sorting) (hst : Listed siblings st.out) (start : ChannelID) :
    ∃ next, follow (afterTable siblings) ((siblings.length + 1) * (siblings.length + 1) + 1) start
        st = some next ∧ Listed siblings next.out ∧ st.out ⊆ next.out := by
  have hframe := enter_fst siblings start st
  have hout := enter_out (afterTable siblings) start st
  have hlength := length_filter_afterKey siblings start
  obtain ⟨next, hnext, hresult, hsub⟩ := followStack_spec
    ((siblings.length + 1) * (siblings.length + 1) + 1) [(enter (afterTable siblings) start st).1]
    (enter (afterTable siblings) start st).2
    (by
      intro list hlist c hc
      rw [List.mem_singleton.mp hlist, hframe] at hc
      exact List.mem_of_mem_filter hc)
    (hout ▸ hst)
    (by
      have hmul : (siblings.length - st.out.length) * (siblings.length + 1) ≤
          siblings.length * (siblings.length + 1) := Nat.mul_le_mul_right _ (Nat.sub_le _ _)
      have hsucc : (siblings.length + 1) * (siblings.length + 1) =
          siblings.length * (siblings.length + 1) + (siblings.length + 1) := Nat.succ_mul _ _
      simp only [stackWeight, hframe, hout, List.map_cons, List.map_nil, List.sum_cons,
        List.sum_nil]
      omega)
  exact ⟨next, hnext, hresult, hout ▸ hsub⟩

/-- The siblings that no chain reached follow. -/
theorem foldlM_follow {rest : List Channel} (hrest : ∀ c ∈ rest, c ∈ siblings) {st : Sorting}
    (hst : Listed siblings st.out) :
    ∃ next, rest.foldlM (fun st channel =>
        if channel.id ∈ st.out then some st
        else follow (afterTable siblings) ((siblings.length + 1) * (siblings.length + 1) + 1)
          channel.id { out := st.out ++ [channel.id], consistent := false }) st = some next ∧
      Listed siblings next.out ∧ st.out ⊆ next.out ∧ ∀ c ∈ rest, c.id ∈ next.out := by
  induction rest generalizing st with
  | nil => exact ⟨st, rfl, hst, List.Subset.refl _, fun c hc => absurd hc List.not_mem_nil⟩
  | cons channel rest ih =>
    have hmem := hrest channel List.mem_cons_self
    obtain ⟨mid, hmid, hlisted, hsub, hin⟩ : ∃ mid, (if channel.id ∈ st.out then some st
        else follow (afterTable siblings) ((siblings.length + 1) * (siblings.length + 1) + 1)
          channel.id { out := st.out ++ [channel.id], consistent := false }) = some mid ∧
        Listed siblings mid.out ∧ st.out ⊆ mid.out ∧ channel.id ∈ mid.out := by
      by_cases hseen : channel.id ∈ st.out
      · exact ⟨st, if_pos hseen, hst, List.Subset.refl _, hseen⟩
      · obtain ⟨mid, hmid, hlisted, hsub⟩ := follow_spec siblings
          { out := st.out ++ [channel.id], consistent := false }
          (hst.append hmem hseen) channel.id
        refine ⟨mid, (if_neg hseen).trans hmid, hlisted, ?_, hsub (by simp)⟩
        exact List.Subset.trans (List.subset_append_left _ _) hsub
    obtain ⟨next, hnext, hresult, hsub', hall⟩ :=
      ih (fun c hc => hrest c (List.mem_cons_of_mem _ hc)) hlisted
    refine ⟨next, ?_, hresult, List.Subset.trans hsub hsub', ?_⟩
    · rw [List.foldlM_cons, hmid]
      exact hnext
    · intro c hc
      rcases List.mem_cons.mp hc with rfl | hc
      · exact hsub' hin
      · exact hall c hc

/-- **Every sibling is listed once**, whatever predecessors they name. -/
theorem sortSiblings_perm (siblings : List Channel) (hnodup : (siblings.map Channel.id).Nodup)
    (consistent : Bool) :
    ∃ st, sortSiblings siblings consistent = some st ∧ st.out.Perm (siblings.map Channel.id) := by
  obtain ⟨mid, hmid, hlisted, -⟩ := follow_spec siblings
    { consistent := consistent && siblings.all fun channel =>
      channel.order = topChannel ∨ channel.order ∈ siblings.map Channel.id }
    ⟨List.nodup_nil, List.nil_subset _⟩ topChannel
  obtain ⟨st, hst, hresult, -, hall⟩ := foldlM_follow (fun c hc => hc) hlisted
  refine ⟨st, ?_, ?_⟩
  · unfold sortSiblings
    rw [show siblings.foldl (fun after channel => after.push (afterKey siblings channel) channel)
      InsertionMap.empty = afterTable siblings from rfl]
    simp only [hmid, Option.bind_eq_bind, Option.bind_some]
    exact hst
  · rw [List.perm_ext_iff_of_nodup hresult.nodup hnodup]
    intro id
    constructor
    · exact fun h => hresult.subset h
    · intro h
      obtain ⟨c, hc, rfl⟩ := List.mem_map.mp h
      exact hall c hc

/-! ### One chain -/

/-- Channels that name one another, in turn, the first one `first`. -/
def Chained (first : ChannelID) : List Channel → Prop
  | [] => True
  | c :: chain => c.order = first ∧ Chained c.id chain

/-- The orders along a chain are the ids before it. -/
theorem Chained.orders {first : ChannelID} {chain : List Channel} (h : Chained first chain) :
    chain.map Channel.order = (first :: chain.map Channel.id).dropLast := by
  induction chain generalizing first with
  | nil => rfl
  | cons c chain ih =>
    rw [List.map_cons, List.map_cons, h.1, ih h.2]
    rfl

theorem filter_eq_singleton {α β : Type} [DecidableEq β] {f : α → β} {l : List α}
    (h : (l.map f).Nodup) {a : α} (ha : a ∈ l) : l.filter (fun b => f b = f a) = [a] := by
  induction l with
  | nil => exact absurd ha List.not_mem_nil
  | cons b l ih =>
    rw [List.map_cons, List.nodup_cons] at h
    rcases List.mem_cons.mp ha with rfl | ha
    · rw [List.filter_cons_of_pos (by simp), List.filter_eq_nil_iff.mpr]
      intro b hb
      have hne : f b ≠ f a := fun heq => h.1 (heq ▸ List.mem_map_of_mem hb)
      simpa using hne
    · have hne : f b ≠ f a := fun heq => h.1 (heq ▸ List.mem_map_of_mem ha)
      rw [List.filter_cons_of_neg (by simpa using hne), ih h.2 ha]

section Chain

variable {chain : List Channel} (hperm : siblings.Perm chain) (hchain : Chained topChannel chain)
  (hnodup : (topChannel :: chain.map Channel.id).Nodup)
include hperm hchain hnodup

omit hnodup in
/-- In a chain every channel is filed under the order it has. -/
theorem afterKey_chain {c : Channel} (hc : c ∈ siblings) :
    (c.order = topChannel ∨ c.order ∈ siblings.map Channel.id) ∧
      afterKey siblings c = c.order := by
  have hmem : c.order ∈ (topChannel :: chain.map Channel.id).dropLast :=
    hchain.orders ▸ List.mem_map_of_mem (hperm.mem_iff.mp hc)
  have hor : c.order = topChannel ∨ c.order ∈ siblings.map Channel.id := by
    rcases List.mem_cons.mp ((List.dropLast_sublist _).subset hmem) with h | h
    · exact Or.inl h
    · exact Or.inr ((hperm.map _).mem_iff.mpr h)
  refine ⟨hor, ?_⟩
  unfold afterKey
  by_cases htop : c.order = topChannel
  · rw [if_neg fun h => h.1 htop, htop]
  · rw [if_pos ⟨htop, hor.resolve_left htop⟩]

theorem nodup_orders : (siblings.map Channel.order).Nodup := by
  rw [(hperm.map _).nodup_iff, hchain.orders]
  exact hnodup.sublist (List.dropLast_sublist _)

/-- Under the id that is listed last, only the channel that comes next is filed. -/
theorem filter_chain {before rest : List Channel} (hsplit : chain = before ++ rest)
    {last : ChannelID} (hlast : (topChannel :: before.map Channel.id).getLast? = some last) :
    (siblings.filter fun c => afterKey siblings c = last) = rest.take 1 := by
  have hkey : (siblings.filter fun c => afterKey siblings c = last) =
      siblings.filter fun c => c.order = last := by
    apply List.filter_congr
    intro c hc
    rw [(afterKey_chain hperm hchain hc).2]
  obtain ⟨ids, hids⟩ := List.getLast?_eq_some_iff.mp hlast
  have horders := hchain.orders
  rw [hsplit, List.map_append, List.map_append, ← List.cons_append, hids] at horders
  rw [hkey]
  cases rest with
  | nil =>
    rw [List.map_nil, List.append_nil, List.map_nil, List.append_nil, List.dropLast_concat]
      at horders
    rw [List.take_nil, List.filter_eq_nil_iff]
    intro c hc
    have hmem : c.order ∈ ids := by
      rw [← horders]
      exact List.mem_map_of_mem (by simpa [hsplit] using hperm.mem_iff.mp hc)
    rw [hsplit, List.append_nil, hids] at hnodup
    have hne : c.order ≠ last := by
      intro heq
      exact (List.nodup_append'.mp hnodup).2.2 (heq ▸ hmem) (List.mem_singleton_self _)
    simpa using hne
  | cons c rest =>
    have hc : c ∈ siblings := hperm.mem_iff.mpr (by simp [hsplit])
    have horder : c.order = last := by
      rw [List.map_cons, List.map_cons, List.append_assoc, List.dropLast_append_of_ne_nil (by simp)]
        at horders
      have hlength : (before.map Channel.order).length = ids.length := by
        have hlen := congrArg List.length hids
        simp only [List.length_cons, List.length_map, List.length_append, List.length_nil] at hlen
        simp only [List.length_map]
        omega
      have htail := List.append_inj_right horders hlength
      rw [List.singleton_append, List.dropLast_cons_of_ne_nil (by simp)] at htail
      exact (List.cons.inj htail).1
    rw [← horder, filter_eq_singleton (nodup_orders hperm hchain hnodup) hc]
    rfl

/-- The loop follows the chain to its end. -/
theorem followStack_chain {before rest : List Channel} (hsplit : chain = before ++ rest) (m : Nat)
    {steps : Nat} (hsteps : 2 * rest.length + m + 2 ≤ steps) (consistent : Bool) :
    followStack (afterTable siblings) steps (rest.take 1 :: List.replicate m [])
        { out := before.map Channel.id, consistent } =
      some { out := chain.map Channel.id, consistent } := by
  induction rest generalizing before m steps with
  | nil =>
    rw [hsplit, List.append_nil, List.take_nil]
    clear hsplit
    -- only empty frames are left
    induction m generalizing steps with
    | zero =>
      obtain ⟨steps, rfl⟩ : ∃ k, steps = k + 2 := ⟨steps - 2, by
        simp only [List.length_nil] at hsteps
        omega⟩
      rfl
    | succ m ih =>
      obtain ⟨steps, rfl⟩ : ∃ k, steps = k + 1 := ⟨steps - 1, by omega⟩
      rw [followStack, List.replicate_succ]
      apply ih
      omega
  | cons c rest ih =>
    obtain ⟨steps, rfl⟩ : ∃ k, steps = k + 1 := ⟨steps - 1, by omega⟩
    have hnew : c.id ∉ before.map Channel.id := by
      rw [hsplit, List.map_append, ← List.cons_append] at hnodup
      intro hmem
      exact (List.nodup_append'.mp hnodup).2.2 (List.mem_cons_of_mem _ hmem)
        (List.mem_map_of_mem List.mem_cons_self)
    have hsplit' : chain = (before ++ [c]) ++ rest := by rw [hsplit, List.append_assoc]; rfl
    have hids : before.map Channel.id ++ [c.id] = (before ++ [c]).map Channel.id := by
      rw [List.map_append]
      rfl
    have hframe := (enter_fst siblings c.id
      { out := (before ++ [c]).map Channel.id, consistent }).trans
        (filter_chain hperm hchain hnodup hsplit' (by
          rw [List.map_append, ← List.cons_append]
          exact List.getLast?_concat))
    have hstate := enter_of_length_le (hframe ▸ List.length_take_le 1 rest)
    rw [List.take_succ_cons, List.take_zero, followStack, if_neg hnew]
    simp only [hids]
    rw [hframe, hstate]
    exact ih hsplit' (m + 1) (by
      simp only [List.length_cons] at hsteps
      omega)

/-- **Siblings of one chain are listed along it**, and without a flaw. -/
theorem sortSiblings_chain (consistent : Bool) :
    sortSiblings siblings consistent = some { out := chain.map Channel.id, consistent } := by
  have hnamed : (siblings.all fun channel =>
      channel.order = topChannel ∨ channel.order ∈ siblings.map Channel.id) = true := by
    rw [List.all_eq_true]
    intro c hc
    simpa using (afterKey_chain hperm hchain hc).1
  have hframe := (enter_fst siblings topChannel { consistent }).trans
    (filter_chain hperm hchain hnodup (List.nil_append chain).symm rfl)
  have hstate := enter_of_length_le (hframe ▸ List.length_take_le 1 chain)
  have hfollow : follow (afterTable siblings) ((siblings.length + 1) * (siblings.length + 1) + 1)
      topChannel { consistent } = some { out := chain.map Channel.id, consistent } := by
    have hsquare : (siblings.length + 1) * (siblings.length + 1) =
        siblings.length * siblings.length + 2 * siblings.length + 1 := by ring
    have hlength := hperm.length_eq
    have henter : enter (afterTable siblings) topChannel { consistent } =
        (chain.take 1, { consistent }) := Prod.ext hframe hstate
    unfold follow
    rw [henter]
    apply followStack_chain hperm hchain hnodup (List.nil_append chain).symm 0
    omega
  have hloop : ∀ rest : List Channel, (∀ c ∈ rest, c ∈ siblings) →
      rest.foldlM (fun st channel =>
        if channel.id ∈ st.out then some st
        else follow (afterTable siblings) ((siblings.length + 1) * (siblings.length + 1) + 1)
          channel.id { out := st.out ++ [channel.id], consistent := false })
        ({ out := chain.map Channel.id, consistent } : Sorting) =
          some { out := chain.map Channel.id, consistent } := by
    intro rest hrest
    induction rest with
    | nil => rfl
    | cons c rest ih =>
      have hmem : c.id ∈ chain.map Channel.id :=
        List.mem_map_of_mem (hperm.mem_iff.mp (hrest c List.mem_cons_self))
      rw [List.foldlM_cons, if_pos hmem]
      exact ih fun d hd => hrest d (List.mem_cons_of_mem _ hd)
  unfold sortSiblings
  rw [hnamed, show siblings.foldl
      (fun after channel => after.push (afterKey siblings channel) channel)
      InsertionMap.empty = afterTable siblings from rfl]
  simp only [Bool.and_true, hfollow, Option.bind_eq_bind, Option.bind_some]
  exact hloop siblings fun c hc => hc

end Chain

end Teamspeak.ChannelTree
