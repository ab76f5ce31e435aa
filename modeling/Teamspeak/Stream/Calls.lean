import Teamspeak.Stream.Published
import Teamspeak.Stream.Watching

/-!
# Calls of `watch`

What the calls of `watch`, and what answers them, keep of `WatchesSound`.

* `WatchesSound.watch`, `WatchesSound.joined`, `WatchesSound.heardWatch`: a call goes on.
* `WatchesSound.caught`: one that failed takes its watch with it, unless the watch has
  settled meanwhile.
* `WatchesSound.onRespond`: the publisher answers.
-/

namespace Teamspeak.Stream.WatchesSound

variable {t : Streams} {code : List Op}

theorem lt_of_call {s : Session} {w : WatchID} (h : WatchesSound s code)
    (hcall : (s.watches w).call ≠ .settled) : w < s.nextWatch := by
  by_contra hle
  exact hcall (h.fresh w (Nat.le_of_not_lt hle))

/-- What is heard of a watch leaves it as it is, for what it waits for. -/
theorem modifyWatch (h : WatchesSound t.toSession code) {w : WatchID} {f : Watch → Watch}
    (hf : SameWatch (t.watches w) (f (t.watches w))) :
    WatchesSound (t.modifyWatch w f).toSession code :=
  h.congr rfl (sameWatch_modifyWatch t hf) (fun _ => .refl _) rfl rfl

theorem modifyPeer (h : WatchesSound t.toSession code) {q : PeerID} {f : Peer → Peer}
    (hf : SamePeer (t.peers q) (f (t.peers q))) :
    WatchesSound (t.modifyPeer q f).toSession code :=
  h.congr rfl (fun _ => .refl _) (samePeer_modifyPeer t hf) rfl rfl

theorem deliver (h : WatchesSound t.toSession code) (q : PeerID) (json : Str) :
    WatchesSound (t.deliver q json).1.toSession code := by
  rw [Streams.deliver]
  split
  · exact h
  · exact h.modifyPeer ⟨rfl, rfl, rfl⟩

theorem keepEarly (h : WatchesSound t.toSession code) (w : WatchID) (json : Str) :
    WatchesSound (t.keepEarly w json).1.toSession code := by
  rw [Streams.keepEarly]
  dsimp only
  split
  · have hkept : WatchesSound (t.modifyWatch w fun watch =>
        { watch with early := ((t.watches w).early ++ [json]).tail, overflowed := true }).toSession
        code := h.modifyWatch ⟨rfl, rfl, rfl, rfl, rfl⟩
    split
    · exact hkept
    · exact hkept
  · exact h.modifyWatch ⟨rfl, rfl, rfl, rfl, rfl⟩

/-! ### The call -/

theorem watch (h : WatchesSound t.toSession code) (target : Str ⊕ StreamInfo) (aborted : Bool) :
    WatchesSound (t.watch target aborted).toSession code := by
  rw [Streams.watch]
  dsimp only
  split
  · exact h
  rename_i known _
  split
  · exact h
  rename_i hnot
  have hfree : t.watching.get? (target.elim (fun id => id) StreamInfo.id) = none := by
    rw [← InsertionMap.has_eq_false]
    exact Bool.eq_false_iff.mpr fun hhas => hnot (Or.inr (Or.inr (Or.inl hhas)))
  exact h.newWatch { id := target.elim (fun id => id) StreamInfo.id
                     streamer := known.clientId, call := .sending }
    hfree rfl (if_pos rfl) (fun j hj => if_neg hj) rfl rfl rfl rfl

theorem onSent (h : WatchesSound t.toSession code) (w : WatchID) :
    WatchesSound (t.onSent w).toSession code :=
  h.modifyWatch ⟨rfl, rfl, rfl, rfl, rfl⟩

theorem joined (h : WatchesSound t.toSession []) (w : WatchID) (result : Except Failure Unit) :
    WatchesSound (t.joined w result).toSession [] := by
  rw [Streams.joined]
  split
  · exact h
  rename_i hcall
  have hopen : (t.watches w).call.isOpen = true := by
    rw [not_not.mp hcall]
    rfl
  cases result with
  | ok _ => exact h.goOn ⟨rfl, rfl, rfl, rfl, rfl⟩ hopen rfl fun _ => List.not_mem_nil
  | error failure => exact h.goOn ⟨rfl, rfl, rfl, rfl, rfl⟩ hopen rfl fun _ => List.not_mem_nil

theorem giveUpWatch (h : WatchesSound t.toSession code) (w : WatchID) (failure : Failure) :
    WatchesSound (t.giveUpWatch w failure).toSession code := by
  rw [Streams.giveUpWatch]
  split
  · exact h
  rename_i hcall
  have hwaiting := not_not.mp hcall
  refine h.goOn ⟨rfl, rfl, rfl, rfl, rfl⟩ ?_ rfl fun failure' hop => ?_
  · rw [hwaiting]
    rfl
  · have hthrown := (h.rejecting w failure' hop).2.2
    rw [hwaiting] at hthrown
    cases hthrown

/-- A call is answered in a turn of its own. -/
theorem answer (h : WatchesSound t.toSession []) {w : WatchID} {result : Except Failure PeerID}
    (hcall : (t.watches w).call ≠ .settled)
    (hview : Held t.toSession w → (t.watches w).view ≠ none)
    (hresult : ∀ failure, result = .error failure → ¬Held t.toSession w) :
    WatchesSound (t.answerWatch w result).toSession [] :=
  h.answerWatch (.refl _) (fun _ hop => Or.inl hop) (fun _ => List.not_mem_nil) hcall hview hresult

theorem heardWatch (h : WatchesSound t.toSession []) (w : WatchID) :
    WatchesSound (t.heardWatch w).toSession [] := by
  rw [Streams.heardWatch]
  split
  · rename_i q hcall hsettled
    refine h.answer (by rw [hcall]; nofun) (fun hheld hview => ?_) nofun
    rw [(h.waits w hheld hview).1] at hsettled
    cases hsettled
  · rename_i failure hcall hsettled
    refine h.goOn ⟨rfl, rfl, rfl, rfl, rfl⟩ ?_ rfl fun _ => List.not_mem_nil
    rw [hcall]
    rfl
  · rename_i q hcall hsettled
    have hw := h.lt_of_call (w := w) (by rw [hcall]; nofun)
    exact h.answer (by rw [hcall]; nofun) (fun hheld => absurd hheld (h.owed w hw hcall).2) nofun
  · rename_i failure hcall hsettled
    have hw := h.lt_of_call (w := w) (by rw [hcall]; nofun)
    have hnot := (h.owed w hw hcall).2
    exact h.answer (by rw [hcall]; nofun) (fun hheld => absurd hheld hnot) fun _ _ => hnot
  · exact h

/-- A watch that fails leaves `watching`, to be refused. -/
theorem refuse (h : WatchesSound t.toSession []) {w : WatchID} {failure : Failure}
    (hcall : (t.watches w).call = .thrown failure) (hheld : Held t.toSession w)
    (hview : (t.watches w).view = none) :
    WatchesSound { t.toSession with watching := t.watching.delete (t.watches w).id }
      [.rejectWatch w failure] := by
  have hw := h.lt_of_held hheld
  refine h.drop [.rejectWatch w failure] ?_ ?_ ?_ ?_ ?_
  · intro id w' hget
    rw [InsertionMap.get?_delete] at hget
    split at hget
    · cases hget
    · exact hget
  · intro w' hheld'
    by_cases hid : (t.watches w).id = (t.watches w').id
    · have heq : w = w' := by
        rw [Held, ← hid, hheld] at hheld'
        exact Option.some.inj hheld'
      subst heq
      exact Or.inr (Or.inr ⟨hview, failure, List.mem_cons_self⟩)
    · exact Or.inl (by rw [InsertionMap.get?_delete_ne _ hid, hheld'])
  · rintro w' ⟨gone, cause, hop⟩
    cases List.mem_singleton.mp hop
  · intro w' failure' hop
    obtain ⟨rfl, rfl⟩ := Op.rejectWatch.inj (List.mem_singleton.mp hop)
    rw [InsertionMap.get?_delete_self]
    exact ⟨hw, (Option.some_ne_none _).symm, hcall⟩
  · intro w'
    exact List.countP_le_length

theorem rejectWatch {w : WatchID} {failure : Failure}
    (h : WatchesSound t.toSession (.rejectWatch w failure :: code)) :
    WatchesSound (t.answerWatch w (.error failure)).toSession code := by
  obtain ⟨hw, hnot, hcall⟩ := h.rejecting w failure List.mem_cons_self
  refine h.answerWatch (List.sublist_cons_self _ _) (fun op hop => ?_) (fun failure' hop => ?_)
    (by rw [hcall]; nofun) (fun hheld => absurd hheld hnot) fun _ _ => hnot
  · exact (List.mem_cons.mp hop).elim (fun heq => Or.inr ⟨failure, heq⟩) Or.inl
  · have honce := h.once w
    rw [List.countP_cons_of_pos (show (Op.rejectWatch w failure).rejects w = true from
      decide_eq_true rfl)] at honce
    have hpos : 0 < code.countP (Op.rejects w) :=
      List.countP_pos_iff.mpr ⟨_, hop, decide_eq_true rfl⟩
    omega

theorem caught (h : WatchesSound t.toSession []) (w : WatchID) :
    WatchesSound (t.caught w).1.toSession ((t.caught w).2.filter Op.ofWatches) := by
  unfold Streams.caught
  dsimp only
  split
  · rename_i failure hcall
    have hopen : (t.watches w).call ≠ .settled := by
      rw [hcall]
      exact WatchCall.noConfusion
    have hw := h.lt_of_call hopen
    split
    · rename_i hsettled
      split
      · rename_i q hview
        exact h.answer hopen (fun _ hnone => by rw [hview] at hnone; cases hnone)
          fun failure heq => by cases heq
      · rename_i hview
        -- The watch has left `watching`.
        have hnot : ¬Held t.toSession w := by
          refine hsettled.resolve_right ?_
          rw [hview]
          exact Bool.false_ne_true
        split
        · exact h.answer hopen (fun hheld => absurd hheld hnot) fun _ _ => hnot
        · have hpending : (t.watches w).settled ≠ .pending := by
            intro hpending
            rcases h.unsettled w hw hpending with hheld | hcall' | ⟨gone, cause, hop⟩ | ⟨f, hop⟩
            · exact hnot hheld
            · exact hopen hcall'
            · cases hop
            · cases hop
          refine h.setCall ⟨rfl, rfl, rfl⟩ (.refl _) (fun _ hop => Or.inl hop)
            (fun hheld => absurd hheld hnot) (fun heq => absurd heq hopen)
            (fun _ => ⟨hpending, hnot⟩) (fun _ hop => absurd hop List.not_mem_nil) (fun _ => ?_)
            fun failure' hmem => h.refused w hw failure' hmem
          show (t.watches w).answers.length = 0
          rw [h.answered w hw, if_neg hopen]
    · rename_i hsettled
      have hheld : Held t.toSession w := by
        by_contra hnot
        exact hsettled (Or.inl hnot)
      have hview : (t.watches w).view = none := by
        rw [← Option.not_isSome_iff_eq_none]
        exact fun hsome => hsettled (Or.inr hsome)
      have hrefuse := h.refuse hcall hheld hview
      split
      · have hend := Streams.endStream_eq
          { t with watching := t.watching.delete (t.watches w).id } (t.watches w).id .gone 0
        have hops : ((t.published.get? (t.watches w).id).map
            fun p => Op.finish p ⟨.gone, 0⟩).toList.filter Op.ofWatches = [] := by
          cases t.published.get? (t.watches w).id <;> rfl
        rw [hend.1, hend.2, List.filter_append, List.filter_append, hops]
        exact hrefuse.congr rfl (fun _ => .refl _) (fun _ => .refl _) rfl rfl
      · have hanswer : WatchesSound (Streams.answerWatch
            { t with watching := t.watching.delete (t.watches w).id } w
            (.error failure)).toSession [] := hrefuse.rejectWatch
        split
        · exact hanswer
        · exact hanswer
  · exact h

/-! ### The publisher's answer -/

theorem onRespond (h : WatchesSound t.toSession []) (params : Params) :
    WatchesSound (t.onRespond params).toSession [] := by
  rw [Streams.onRespond]
  dsimp only
  split
  · exact h
  rename_i w hget
  split
  · exact h
  rename_i hsome
  have hview : (t.watches w).view = none := Option.not_isSome_iff_eq_none.mp hsome
  have hheld : Held t.toSession w := by
    rw [Held, (h.held _ w hget).2]
    exact hget
  have hrefused : ∀ failure, WatchesSound (Streams.rejectSettled
      { t with watching := t.watching.delete ((params.get? (.of "id")).getD []) } w
      failure).toSession [] := by
    intro failure
    have hdelete := h.delete hget failure .closed
    exact hdelete.closeWaiting (t := { t with watching := _ }) hview failure
  split
  · exact hrefused .denied
  split
  · exact hrefused .noOffer
  · exact h.openView hheld hview

end Teamspeak.Stream.WatchesSound
