import Teamspeak.Stream

/-!
# Published streams

What holds of the published streams whenever an operation is next, whatever the listeners
do meanwhile.

* `PubsSound`: `published` holds the streams that have not ended, but for those about to be
  finished; one that is being finished has its `ended` event still to come, and emits it
  once.
* `PubsSound.endStream`, `PubsSound.reset`: streams leave `published` before they are
  finished.
* `PubsSound.finish`, `PubsSound.closeRequests`, `PubsSound.endPeers`: how one is finished.
* `PubsSound.adopted`: a new one.
-/

namespace Teamspeak.Stream

/-- The operations that concern published streams. -/
def Op.ofPubs : Op → Bool
  | .finish _ _ | .closeRequests _ _ _ | .endPeers _ _ _ => true
  | _ => false

/-- The operations in the loops of `finish`. -/
def Op.finishes (p : PubID) : Op → Bool
  | .closeRequests p' _ _ | .endPeers p' _ _ => p' = p
  | _ => false

def PubEvent.isEnded : PubEvent → Bool
  | .ended _ => true
  | .request _ => false

/-- How often a stream has emitted `ended`. -/
def Published.endings (pub : Published) : Nat := pub.emitted.countP PubEvent.isEnded

/-- What the published streams are, for the streams themselves. -/
def Published.Alike (a b : Published) : Prop :=
  b.id = a.id ∧ b.ended = a.ended ∧ b.endings = a.endings

theorem Published.Alike.refl (pub : Published) : pub.Alike pub := ⟨rfl, rfl, rfl⟩

structure PubsSound (s : Session) (code : List Op) : Prop where
  held : ∀ id p, s.published.get? id = some p →
    p < s.nextPub ∧ (s.pubs p).id = id ∧ (s.pubs p).ended = false
  live : ∀ p < s.nextPub, (s.pubs p).ended = false →
    s.published.get? (s.pubs p).id = some p ∨ ∃ ended, Op.finish p ended ∈ code
  finishing : ∀ p ended, Op.finish p ended ∈ code →
    p < s.nextPub ∧ s.published.get? (s.pubs p).id ≠ some p
  once : ∀ p, (s.pubs p).endings + code.countP (Op.finishes p) = if (s.pubs p).ended then 1 else 0
  fresh : ∀ p, s.nextPub ≤ p → (s.pubs p).ended = false

/-- What `#end` leaves of the Session, and what is to follow. -/
theorem Streams.endStream_eq (t : Streams) (id : Str) (cause : EndCause) (reason : Nat) :
    (t.endStream id cause reason).1.toSession =
        { t.toSession with published := t.published.delete id } ∧
      (t.endStream id cause reason).2 =
        ((t.published.get? id).map fun p => Op.finish p ⟨cause, reason⟩).toList ++
          [.endWatch id (t.infos.get? id) cause reason] := by
  obtain ⟨u, hu⟩ : ∃ u, u = (if cause = .gone then t
    else { t with stopped := renew maxStopped id t.stopped }) := ⟨_, rfl⟩
  have hsame : u.toSession = t.toSession ∧ u.infos = t.infos := by
    rw [hu]
    split
    · exact ⟨rfl, rfl⟩
    · exact ⟨rfl, rfl⟩
  rw [Streams.endStream]
  dsimp only
  rw [← hu, ← hsame.1, ← hsame.2]
  split
  · rename_i hinfo
    exact ⟨rfl, by rw [hinfo]⟩
  · rename_i info hinfo
    rw [hinfo]
    split
    · exact ⟨rfl, rfl⟩
    · exact ⟨rfl, rfl⟩

namespace PubsSound

variable {s s' : Session} {t : Streams} {code : List Op}

theorem congr (h : PubsSound s code) (hpublished : s'.published = s.published)
    (hnext : s'.nextPub = s.nextPub) (hpubs : ∀ p, (s.pubs p).Alike (s'.pubs p)) :
    PubsSound s' code where
  held id p hget := by
    rw [hpublished] at hget
    rw [hnext, (hpubs p).1, (hpubs p).2.1]
    exact h.held id p hget
  live p hp hended := by
    rw [hnext] at hp
    rw [(hpubs p).2.1] at hended
    rw [hpublished, (hpubs p).1]
    exact h.live p hp hended
  finishing p ended hop := by
    rw [hpublished, hnext, (hpubs p).1]
    exact h.finishing p ended hop
  once p := by
    rw [(hpubs p).2.1, (hpubs p).2.2]
    exact h.once p
  fresh p hp := by
    rw [hnext] at hp
    rw [(hpubs p).2.1]
    exact h.fresh p hp

theorem alike_modifyPub (t : Streams) {p : PubID} {f : Published → Published}
    (hf : (t.pubs p).Alike (f (t.pubs p))) (j : PubID) :
    (t.pubs j).Alike ((t.modifyPub p f).pubs j) := by
  by_cases hj : j = p
  · subst hj
    rw [Streams.pubs_modifyPub, if_pos rfl]
    exact hf
  · rw [Streams.pubs_modifyPub, if_neg hj]
    exact .refl _

theorem modifyPub (h : PubsSound t.toSession code) {p : PubID} {f : Published → Published}
    (hf : (t.pubs p).Alike (f (t.pubs p))) : PubsSound (t.modifyPub p f).toSession code :=
  h.congr rfl rfl (alike_modifyPub t hf)

/-- A stream that is being finished is finished once. -/
theorem finishes_eq_zero {op : Op} {p : PubID} (h : PubsSound s (op :: code))
    (hop : op.finishes p = true) : (s.pubs p).ended = true ∧ code.countP (Op.finishes p) = 0 ∧
      (s.pubs p).endings = 0 := by
  have honce := h.once p
  rw [List.countP_cons, if_pos hop] at honce
  cases hended : (s.pubs p).ended with
  | false =>
    rw [hended, if_neg Bool.false_ne_true] at honce
    omega
  | true =>
    rw [hended, if_pos rfl] at honce
    exact ⟨rfl, by omega, by omega⟩

/-- Streams leave `published`, each to be finished. -/
theorem leave (h : PubsSound s code) {published : InsertionMap Str PubID} {ended : StreamEnded}
    {ps : List PubID}
    (hsub : ∀ id p, published.get? id = some p → s.published.get? id = some p ∧ p ∉ ps)
    (hps : ∀ id p, s.published.get? id = some p → published.get? id = some p ∨ p ∈ ps)
    (hheld : ∀ p ∈ ps, ∃ id, s.published.get? id = some p) :
    PubsSound { s with published } (ps.map (Op.finish · ended) ++ code) where
  held id p hget := h.held id p (hsub id p hget).1
  live p hp hended := by
    rcases h.live p hp hended with hget | ⟨e, he⟩
    · rcases hps _ p hget with hget' | hmem
      · exact Or.inl hget'
      · exact Or.inr ⟨ended, List.mem_append_left _ (List.mem_map_of_mem hmem)⟩
    · exact Or.inr ⟨e, List.mem_append_right _ he⟩
  finishing p e hop := by
    rcases List.mem_append.mp hop with hmem | hmem
    · obtain ⟨p', hp', heq⟩ := List.mem_map.mp hmem
      obtain ⟨rfl, rfl⟩ := Op.finish.inj heq
      obtain ⟨id, hget⟩ := hheld p' hp'
      exact ⟨(h.held id p' hget).1, fun hget' => (hsub _ _ hget').2 hp'⟩
    · obtain ⟨hp, hne⟩ := h.finishing p e hmem
      exact ⟨hp, fun hget' => hne (hsub _ _ hget').1⟩
  once p := by
    have hnone : (ps.map (Op.finish · ended)).countP (Op.finishes p) = 0 := by
      rw [List.countP_eq_zero]
      intro op hop
      obtain ⟨p', -, rfl⟩ := List.mem_map.mp hop
      exact Bool.false_ne_true
    rw [List.countP_append, hnone, Nat.zero_add]
    exact h.once p
  fresh := h.fresh

theorem delete (h : PubsSound s code) (id : Str) (ended : StreamEnded) :
    PubsSound { s with published := s.published.delete id }
      (((s.published.get? id).map fun p => Op.finish p ended).toList ++ code) := by
  have hmap : ((s.published.get? id).map fun p => Op.finish p ended).toList =
      (s.published.get? id).toList.map (Op.finish · ended) := by
    cases s.published.get? id <;> rfl
  rw [hmap]
  refine h.leave ?_ ?_ ?_
  · intro id' p hget
    rw [InsertionMap.get?_delete] at hget
    split at hget
    · cases hget
    rename_i hne
    refine ⟨hget, fun hmem => hne ?_⟩
    have hp := Option.mem_toList.mp hmem
    exact (h.held id p hp).2.1.symm.trans (h.held id' p hget).2.1
  · intro id' p hget
    by_cases hid : id = id'
    · subst hid
      exact Or.inr (Option.mem_toList.mpr hget)
    · exact Or.inl (by rw [InsertionMap.get?_delete_ne _ hid, hget])
  · intro p hmem
    exact ⟨id, Option.mem_toList.mp hmem⟩

theorem clear (h : PubsSound s code) (ended : StreamEnded) :
    PubsSound { s with published := .empty }
      ((s.published.entries.map Prod.snd).map (Op.finish · ended) ++ code) := by
  refine h.leave ?_ ?_ ?_
  · intro id p hget
    cases hget
  · intro id p hget
    exact Or.inr (List.mem_map_of_mem (InsertionMap.mem_entries.mpr hget))
  · intro p hmem
    obtain ⟨⟨id, p'⟩, hentry, rfl⟩ := List.mem_map.mp hmem
    exact ⟨id, InsertionMap.mem_entries.mp hentry⟩

/-- What is next concerns no stream, once its own is dealt with. -/
theorem tail_finish {p : PubID} {ended : StreamEnded} (h : PubsSound s (.finish p ended :: code))
    (hended : (s.pubs p).ended = true) : PubsSound s code where
  held := h.held
  live p' hp' hended' := by
    refine (h.live p' hp' hended').imp_right ?_
    rintro ⟨e, he⟩
    refine ⟨e, (List.mem_cons.mp he).resolve_left fun heq => ?_⟩
    rw [(Op.finish.inj heq).1, hended] at hended'
    cases hended'
  finishing p' e hop := h.finishing p' e (List.mem_cons_of_mem _ hop)
  once p' := by
    have honce := h.once p'
    rwa [List.countP_cons_of_neg Bool.false_ne_true] at honce
  fresh := h.fresh

theorem finish {p : PubID} {ended : StreamEnded}
    (h : PubsSound t.toSession (.finish p ended :: code)) :
    PubsSound (t.finish p ended).1.toSession ((t.finish p ended).2 ++ code) := by
  rw [Streams.finish]
  split
  · rename_i hended
    exact h.tail_finish hended
  rename_i hopen
  have hfinishing := h.finishing p ended List.mem_cons_self
  have hsame : ∀ j, j ≠ p → (t.pubs j).Alike
      ((t.modifyPub p fun pub => { pub with ended := true, slots := [], resolving := .empty }).pubs
        j) := by
    intro j hj
    rw [Streams.pubs_modifyPub, if_neg hj]
    exact .refl _
  have hself : (t.modifyPub p fun pub =>
      { pub with ended := true, slots := [], resolving := .empty }).pubs p =
      { t.pubs p with ended := true, slots := [], resolving := .empty } := if_pos rfl
  constructor
  · intro id p' hget
    have hheld := h.held id p' hget
    have hne : p' ≠ p := by
      rintro rfl
      exact hfinishing.2 (hheld.2.1.symm ▸ hget)
    rw [(hsame p' hne).1, (hsame p' hne).2.1]
    exact hheld
  · intro p' hp' hended
    have hne : p' ≠ p := by
      rintro rfl
      rw [hself] at hended
      cases hended
    rw [(hsame p' hne).2.1] at hended
    rw [(hsame p' hne).1]
    refine (h.live p' hp' hended).imp_right ?_
    rintro ⟨e, he⟩
    refine ⟨e, List.mem_append_right _ ((List.mem_cons.mp he).resolve_left fun heq => ?_)⟩
    exact hne (Op.finish.inj heq).1
  · intro p' e hop
    have hmem : Op.finish p' e ∈ code := by
      rcases List.mem_cons.mp hop with heq | hmem
      · cases heq
      · exact hmem
    have hold := h.finishing p' e (List.mem_cons_of_mem _ hmem)
    refine ⟨hold.1, fun hget => hold.2 ?_⟩
    by_cases hj : p' = p
    · rwa [hj, hself, ← hj] at hget
    · rwa [(hsame p' hj).1] at hget
  · intro p'
    have honce := h.once p'
    rw [List.countP_cons_of_neg Bool.false_ne_true] at honce
    by_cases hj : p' = p
    · subst hj
      have hzero : code.countP (Op.finishes p') = 0 ∧ (t.pubs p').endings = 0 := by
        rw [if_neg hopen] at honce
        omega
      rw [hself, List.singleton_append, List.countP_cons, hzero.1,
        if_pos (show (Op.closeRequests p' _ ended).finishes p' = true from decide_eq_true rfl)]
      show (t.pubs p').endings + 1 = 1
      rw [hzero.2]
    · have hneg : ¬ (Op.closeRequests p ((t.pubs p).pending.entries.map Prod.snd) ended).finishes
          p' = true := fun heq => hj (of_decide_eq_true heq).symm
      rw [(hsame p' hj).2.1, (hsame p' hj).2.2, List.singleton_append,
        List.countP_cons_of_neg hneg]
      exact honce
  · intro p' hp'
    have hne : p' ≠ p := by
      rintro rfl
      exact absurd hfinishing.1 (Nat.not_lt.mpr hp')
    rw [(hsame p' hne).2.1]
    exact h.fresh p' hp'

/-- The loops of `finish` go on. -/
theorem next {op op' : Op} (h : PubsSound s (op :: code))
    (hop : ∀ p, op'.finishes p = op.finishes p)
    (hnot : ∀ p ended, op ≠ .finish p ended) (hnot' : ∀ p ended, op' ≠ .finish p ended) :
    PubsSound s (op' :: code) where
  held := h.held
  live p hp hended := by
    refine (h.live p hp hended).imp_right ?_
    rintro ⟨e, he⟩
    exact ⟨e, List.mem_cons_of_mem _
      ((List.mem_cons.mp he).resolve_left fun heq => hnot p e heq.symm)⟩
  finishing p ended hmem := by
    refine h.finishing p ended (List.mem_cons_of_mem _ ?_)
    exact (List.mem_cons.mp hmem).resolve_left fun heq => hnot' p ended heq.symm
  once p := by
    have honce := h.once p
    rw [List.countP_cons] at honce ⊢
    rw [hop p]
    exact honce
  fresh := h.fresh

theorem endPeers_nil {p : PubID} {ended : StreamEnded}
    (h : PubsSound t.toSession (.endPeers p [] ended :: code)) :
    PubsSound (t.endPeers p ended []).1.toSession code := by
  obtain ⟨hended, hzero, hendings⟩ := h.finishes_eq_zero (p := p) (decide_eq_true rfl)
  have hself : (t.endPeers p ended []).1.pubs p =
      { t.pubs p with emitted := (t.pubs p).emitted ++ [PubEvent.ended ended] } := if_pos rfl
  have hsame : ∀ j, j ≠ p → (t.endPeers p ended []).1.pubs j = t.pubs j := fun j hj => if_neg hj
  have hbasic : ∀ j, ((t.endPeers p ended []).1.pubs j).id = (t.pubs j).id ∧
      ((t.endPeers p ended []).1.pubs j).ended = (t.pubs j).ended := by
    intro j
    by_cases hj : j = p
    · rw [hj, hself]
      exact ⟨rfl, rfl⟩
    · rw [hsame j hj]
      exact ⟨rfl, rfl⟩
  constructor
  · intro id p' hget
    rw [(hbasic p').1, (hbasic p').2]
    exact h.held id p' hget
  · intro p' hp' hopen
    rw [(hbasic p').2] at hopen
    rw [(hbasic p').1]
    refine (h.live p' hp' hopen).imp_right ?_
    rintro ⟨e, he⟩
    exact ⟨e, (List.mem_cons.mp he).resolve_left nofun⟩
  · intro p' e hop
    rw [(hbasic p').1]
    exact h.finishing p' e (List.mem_cons_of_mem _ hop)
  · intro p'
    rw [(hbasic p').2]
    by_cases hj : p' = p
    · subst hj
      rw [hself, hzero, hended, if_pos rfl]
      show List.countP PubEvent.isEnded _ + 0 = 1
      rw [List.countP_append]
      show (t.pubs p').endings + 1 + 0 = 1
      rw [hendings]
    · have honce := h.once p'
      have hneg : ¬ (Op.endPeers p [] ended).finishes p' = true :=
        fun heq => hj (of_decide_eq_true heq).symm
      rw [List.countP_cons_of_neg hneg] at honce
      rw [hsame p' hj]
      exact honce
  · intro p' hp'
    rw [(hbasic p').2]
    exact h.fresh p' hp'

theorem adopted (h : PubsSound s code) {id : Str} (hnone : s.published.get? id = none)
    {pubs : Nat → Published} (hnew : pubs s.nextPub = { id })
    (hold : ∀ j, j ≠ s.nextPub → pubs j = s.pubs j) :
    PubsSound
      { s with pubs, nextPub := s.nextPub + 1, published := s.published.set id s.nextPub }
      code where
  held id' p hget := by
    rw [InsertionMap.get?_set] at hget
    split at hget
    · rename_i hid
      cases hget
      show s.nextPub < s.nextPub + 1 ∧ (pubs s.nextPub).id = id' ∧ (pubs s.nextPub).ended = false
      rw [hnew]
      exact ⟨Nat.lt_succ_self _, hid, rfl⟩
    · have hheld := h.held id' p hget
      show p < s.nextPub + 1 ∧ (pubs p).id = id' ∧ (pubs p).ended = false
      rw [hold p (Nat.ne_of_lt hheld.1)]
      exact ⟨Nat.lt_succ_of_lt hheld.1, hheld.2⟩
  live p hp hopen := by
    show (s.published.set id s.nextPub).get? (pubs p).id = some p ∨ _
    by_cases hj : p = s.nextPub
    · subst hj
      rw [hnew]
      exact Or.inl (InsertionMap.get?_set_self _ _ _)
    · have hlt : p < s.nextPub := Nat.lt_of_le_of_ne (Nat.le_of_lt_succ hp) hj
      change (pubs p).ended = false at hopen
      rw [hold p hj] at hopen ⊢
      refine (h.live p hlt hopen).imp_left fun hget => ?_
      rw [InsertionMap.get?_set_ne, hget]
      intro hid
      rw [← hid, hnone] at hget
      cases hget
  finishing p ended hop := by
    obtain ⟨hp, hne⟩ := h.finishing p ended hop
    refine ⟨Nat.lt_succ_of_lt hp, ?_⟩
    show (s.published.set id s.nextPub).get? (pubs p).id ≠ some p
    rw [hold p (Nat.ne_of_lt hp), InsertionMap.get?_set]
    split
    · intro heq
      exact Nat.ne_of_gt hp (Option.some.inj heq)
    · exact hne
  once p := by
    show (pubs p).endings + _ = if (pubs p).ended then 1 else 0
    have honce := h.once p
    by_cases hj : p = s.nextPub
    · subst hj
      rw [h.fresh s.nextPub (Nat.le_refl _), if_neg Bool.false_ne_true] at honce
      rw [hnew, if_neg Bool.false_ne_true]
      show 0 + _ = 0
      omega
    · rw [hold p hj]
      exact honce
  fresh p hp := by
    have hlt : s.nextPub < p := hp
    show (pubs p).ended = false
    rw [hold p (Nat.ne_of_gt hlt)]
    exact h.fresh p (Nat.le_of_lt hlt)

end PubsSound

end Teamspeak.Stream
