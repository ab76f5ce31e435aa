import Teamspeak.Client.Discovery.Resolved

/-!
# How long an answer is good for

* `Resolver.settled_stays`: a resolution settles once.
* `Resolver.step_gives`: what a resolution gives comes from the cache, or was found just now, or
  says nothing of how long it is good for.
* `answers_fresh`: **an answer is given before it expires**, ten minutes after it was found.
-/

namespace Teamspeak.Client

section

variable {isIP : Str → Nat} {signal : Option AbortReason} {host port : Str}

/-! ### What is returned as it is -/

theorem directAnswered_ne_answers (lookups : List Lookup) (addrs : List ResolvedAddr) :
    directAnswered isIP signal host port lookups ≠ .answers addrs := by
  rw [directAnswered]
  intro h
  split at h
  · dsimp only at h
    split at h
    · cases h
    · split at h
      · cases h
      · cases h
  · cases h

theorem resolveTSDNSSRV_ne_answers (domains : List Str) (addrs : List ResolvedAddr) :
    (resolveTSDNSSRV isIP signal host port domains).next ≠ .answers addrs := by
  induction domains with
  | nil => exact directAnswered_ne_answers _ addrs
  | cons domain domains ih =>
    rw [resolveTSDNSSRV, srv]
    split
    · exact ih
    · exact Next.noConfusion

theorem tsdnsAnswered_ne_answers {lookup : Lookup} {rest : Turn} {addrs : List ResolvedAddr}
    (h : rest.next ≠ .answers addrs) : (tsdnsAnswered isIP port lookup rest).next ≠
      .answers addrs := by
  rw [tsdnsAnswered]
  split
  · exact Next.noConfusion
  · exact h

theorem askServers_ne_answers (domains servers : List Str) (addrs : List ResolvedAddr) :
    (askServers isIP signal host port domains servers).next ≠ .answers addrs := by
  induction servers with
  | nil => exact resolveTSDNSSRV_ne_answers domains addrs
  | cons server servers ih =>
    rw [askServers]
    dsimp only
    split
    · exact tsdnsAnswered_ne_answers ih
    · exact Next.noConfusion

theorem resolveHost_ne_answers (addrs : List ResolvedAddr) :
    (resolveHost isIP signal host port).next ≠ .answers addrs := by
  rw [resolveHost, srv]
  split
  · exact resolveTSDNSSRV_ne_answers _ addrs
  · exact Next.noConfusion

/-- Says nothing of how long it is good for. -/
def Undated (addrs : List ResolvedAddr) : Prop := ∀ a ∈ addrs, a.expiry = none

theorem resolveAddress_answers {nicknames : Bool} {address : Str}
    {cached : Option (List ResolvedAddr)} {addrs : List ResolvedAddr}
    (h : (resolveAddress isIP signal nicknames address cached).next = .answers addrs) :
    cached = some addrs ∨ Undated addrs := by
  cases cached with
  | some cached =>
    obtain rfl := Next.answers.inj h
    exact Or.inl rfl
  | none =>
    rw [resolveAddress] at h
    dsimp only at h
    split at h
    · obtain rfl := Next.answers.inj h
      refine Or.inr fun a ha => ?_
      obtain rfl := List.mem_singleton.mp ha
      rfl
    · split at h
      · cases h
      · exact absurd h (resolveHost_ne_answers addrs)

theorem react_answers {decode : Bytes → Str} {cache : Str → Option (List ResolvedAddr)}
    {q q' : Request} {wait : Wait} {reply : Reply} {turn : Turn} {addrs : List ResolvedAddr}
    (hreact : q.react isIP decode cache wait reply = some (q', turn))
    (h : turn.next = .answers addrs) : (∃ address, cache address = some addrs) ∨ Undated addrs := by
  cases Request.reacts_of_react hreact with
  | nickname response =>
    rw [Request.nicknameAnswered] at h
    dsimp only at h
    split at h
    · cases h
    · split at h
      · rename_i nickAddr hanswer
        exact (resolveAddress_answers h).imp_left fun hcached => ⟨nickAddr, hcached⟩
      · exact absurd h (resolveHost_ne_answers addrs)
  | nicknameAborted cause => cases h
  | srv answer =>
    rw [srvAnswered] at h
    split at h
    · cases h
    · exact absurd h (resolveTSDNSSRV_ne_answers _ addrs)
  | srvAborted cause => exact absurd h (resolveTSDNSSRV_ne_answers _ addrs)
  | domain domain domains answer => exact absurd h (askServers_ne_answers _ _ addrs)
  | domainAborted domain domains cause => exact absurd h (resolveTSDNSSRV_ne_answers _ addrs)
  | server servers domains index ended =>
    exact absurd h (tsdnsAnswered_ne_answers (askServers_ne_answers _ _ addrs))
  | reading servers domains index still => cases h
  | serverAborted lookup servers domains cause =>
    exact absurd h (tsdnsAnswered_ne_answers (askServers_ne_answers _ _ addrs))
  | direct lookups index e => exact absurd h (directAnswered_ne_answers _ addrs)
  | directAborted lookups cause => exact absurd h (directAnswered_ne_answers _ addrs)

end

namespace Resolver

variable {isIP : Str → Nat} {decode : Bytes → Str} {nicknameLookup : Bool}

/-! ### One step -/

/-- A resolution settles once. -/
theorem settled_stays {r : Resolver} {id : Nat} {t : Resolution}
    {result : Except ResolveError (List ResolvedAddr)} (ht : r.resolutions[id]? = some t)
    (hphase : t.phase = .settled result) (e : ResolverEvent) :
    (r.step isIP decode nicknameLookup e).resolutions[id]? = some t := by
  have hlt : id < r.resolutions.length := (List.getElem?_eq_some_iff.mp ht).1
  generalize hstep : r.step isIP decode nicknameLookup e = r'
  cases steps_of_step hstep with
  | clock now => exact ht
  | invalid empty => exact (List.getElem?_append_left hlt).trans ht
  | begun given request begins => exact (List.getElem?_append_left hlt).trans ht
  | missed id' reply => exact ht
  | @reacted id' reply t' wait q turn at_id waits reacts =>
    have hne : id' ≠ id := by
      rintro rfl
      obtain rfl := Option.some.inj (at_id.symm.trans ht)
      rw [hphase] at waits
      cases waits
    exact (List.getElem?_set_ne hne).trans ht

/-- Where addresses come from that are given in a turn. -/
theorem after_gives {r : Resolver} {q : Request} {turn : Turn} {addrs : List ResolvedAddr}
    (h : (r.after isIP q turn).phase = .settled (.ok addrs)) :
    turn.next = .answers addrs ∨ (∃ found, addrs = r.withExpiry found) ∨ Undated addrs := by
  have hphase : r.phaseAfter isIP q turn.next = .settled (.ok addrs) := h
  cases hnext : turn.next with
  | waits wait =>
    rw [hnext] at hphase
    cases hphase
  | answers addrs' =>
    rw [hnext] at hphase
    cases hphase
    exact Or.inl rfl
  | found found =>
    rw [hnext] at hphase
    cases hphase
    exact Or.inr (Or.inl ⟨found, rfl⟩)
  | throws =>
    rw [hnext, phaseAfter, thrown] at hphase
    split at hphase
    · cases hphase
    · cases hphase
      refine Or.inr (Or.inr fun a ha => ?_)
      obtain rfl := List.mem_singleton.mp ha
      rfl

/-- **What a resolution gives**: what is in the cache, what was found just now, or an address
without a time. -/
theorem step_gives {r : Resolver} {e : ResolverEvent} {id : Nat} {t : Resolution}
    {addrs : List ResolvedAddr} (hnew : r.resolutions[id]? ≠ some t)
    (ht : (r.step isIP decode nicknameLookup e).resolutions[id]? = some t)
    (hphase : t.phase = .settled (.ok addrs)) :
    (∃ address, r.getValidCache address = some addrs) ∨ (∃ found, addrs = r.withExpiry found) ∨
      Undated addrs := by
  have hlast : ∀ {t' : Resolution}, (r.resolutions ++ [t'])[id]? = some t → t = t' := by
    intro t' ht
    rcases Nat.lt_or_ge id r.resolutions.length with hlt | hge
    · rw [List.getElem?_append_left hlt] at ht
      exact absurd ht hnew
    · rw [List.getElem?_append_right hge] at ht
      exact List.mem_singleton.mp (List.mem_of_getElem? ht)
  generalize hstep : r.step isIP decode nicknameLookup e = r' at ht
  cases steps_of_step hstep with
  | clock now => exact absurd ht hnew
  | invalid empty =>
    obtain rfl := hlast ht
    cases hphase
  | @begun inputAddr aborted q turn given request begins =>
    obtain rfl := hlast ht
    rcases after_gives hphase with hanswers | hrest
    · rw [begins] at hanswers
      exact (resolveAddress_answers hanswers).imp (fun hcached => ⟨inputAddr, hcached⟩) Or.inr
    · exact Or.inr hrest
  | missed id' reply => exact absurd ht hnew
  | @reacted id' reply t' wait q turn at_id waits reacts =>
    by_cases hid : id' = id
    · subst hid
      rw [List.getElem?_set_self (List.getElem?_eq_some_iff.mp at_id).1] at ht
      obtain rfl := Option.some.inj ht
      rcases after_gives hphase with hanswers | hrest
      · exact (react_answers reacts hanswers).imp_right Or.inr
      · exact Or.inr hrest
    · rw [List.getElem?_set_ne hid] at ht
      exact absurd ht hnew

/-- What goes to the cache was found just now. -/
theorem cache_step {r : Resolver} {e : ResolverEvent} {address : Str} {addrs : List ResolvedAddr}
    (h : (r.step isIP decode nicknameLookup e).cache.get? address = some addrs) :
    r.cache.get? address = some addrs ∨ ∃ found, addrs = r.withExpiry found := by
  have hafter : ∀ {q : Request} {next : Next}, (r.cacheAfter q next).get? address = some addrs →
      r.cache.get? address = some addrs ∨ ∃ found, addrs = r.withExpiry found := by
    intro q next h
    cases next with
    | found found =>
      rw [cacheAfter, InsertionMap.get?_set] at h
      split at h
      · exact Or.inr ⟨found, (Option.some.inj h).symm⟩
      · exact Or.inl h
    | waits wait => exact Or.inl h
    | answers addrs' => exact Or.inl h
    | throws => exact Or.inl h
  generalize hstep : r.step isIP decode nicknameLookup e = r' at h
  cases steps_of_step hstep with
  | clock now => exact Or.inl h
  | invalid empty => exact Or.inl h
  | begun given request begins => exact hafter h
  | missed id reply => exact Or.inl h
  | reacted at_id waits reacts => exact hafter h

/-! ### Every run -/

variable (isIP decode nicknameLookup) in
/-- Found at some time of the run. -/
def FoundIn (es : List ResolverEvent) (addrs : List ResolvedAddr) : Prop :=
  ∃ before, before <+: es ∧ ∀ a ∈ addrs,
    a.expiry = some ((run (step isIP decode nicknameLookup) {} before).now + cacheTtlMs)

theorem foundIn_withExpiry (es : List ResolverEvent) (found : Found) :
    FoundIn isIP decode nicknameLookup es
      ((run (step isIP decode nicknameLookup) {} es).withExpiry found) := by
  refine ⟨es, List.prefix_refl es, fun a ha => ?_⟩
  obtain ⟨result, -, rfl⟩ := List.mem_map.mp ha
  rfl

/-- What is in the cache was found at some time of the run. -/
theorem cache_foundIn (es : List ResolverEvent) (address : Str) (addrs : List ResolvedAddr)
    (h : (run (step isIP decode nicknameLookup) {} es).cache.get? address = some addrs) :
    FoundIn isIP decode nicknameLookup es addrs := by
  induction es using List.reverseRecOn with
  | nil => cases h
  | append_singleton es e ih =>
    have hmore : ∀ {addrs}, FoundIn isIP decode nicknameLookup es addrs →
        FoundIn isIP decode nicknameLookup (es ++ [e]) addrs := by
      rintro addrs ⟨before, hprefix, hexpiry⟩
      exact ⟨before, hprefix.trans (List.prefix_append es [e]), hexpiry⟩
    rw [run_concat] at h
    rcases cache_step h with hold | ⟨found, rfl⟩
    · exact hmore (ih hold)
    · exact hmore (foundIn_withExpiry es found)

theorem getValidCache_in_time {r : Resolver} {address : Str} {addrs : List ResolvedAddr}
    {expiry : Nat} (h : r.getValidCache address = some addrs)
    (hall : ∀ a ∈ addrs, a.expiry = some expiry) : r.now ≤ expiry := by
  rw [getValidCache] at h
  split at h
  · cases h
  · cases h
  · rename_i first rest hcached
    split at h
    · cases h
    · rename_i hnot
      obtain rfl := Option.some.inj h
      rw [hall first List.mem_cons_self] at hnot
      simpa using hnot

variable (isIP decode nicknameLookup) in
/-- Whatever comes after a run, the addresses that are then given are still good, for ten minutes
after they were found, or say nothing of that. -/
def GivesFresh (es : List ResolverEvent) : Prop :=
  ∀ (e : ResolverEvent) (id : Nat) (t : Resolution) (addrs : List ResolvedAddr),
    (run (step isIP decode nicknameLookup) {} es).resolutions[id]? ≠ some t →
    (run (step isIP decode nicknameLookup) {} (es ++ [e])).resolutions[id]? = some t →
    t.phase = .settled (.ok addrs) → ∀ a ∈ addrs, ∀ expiry, a.expiry = some expiry →
      (run (step isIP decode nicknameLookup) {} es).now ≤ expiry ∧
        ∃ before, before <+: es ∧
          expiry = (run (step isIP decode nicknameLookup) {} before).now + cacheTtlMs

end Resolver

/-- **An answer is given before it expires**, however the clock is set, and it expires ten minutes
after it was found. -/
theorem answers_fresh (isIP : Str → Nat) (decode : Bytes → Str) (nicknameLookup : Bool)
    (es : List ResolverEvent) : Resolver.GivesFresh isIP decode nicknameLookup es := by
  intro e id t addrs hnew ht hphase a ha expiry hexpiry
  rw [run_concat] at ht
  rcases Resolver.step_gives hnew ht hphase with ⟨address, hcached⟩ | ⟨found, rfl⟩ | hundated
  · have hget : (run (Resolver.step isIP decode nicknameLookup) {} es).cache.get? address =
        some addrs := Resolver.get?_of_getValidCache hcached
    obtain ⟨before, hprefix, hall⟩ := Resolver.cache_foundIn es address addrs hget
    obtain rfl := Option.some.inj (hexpiry.symm.trans (hall a ha))
    exact ⟨Resolver.getValidCache_in_time hcached hall, before, hprefix, rfl⟩
  · obtain ⟨result, -, rfl⟩ := List.mem_map.mp ha
    obtain rfl := Option.some.inj hexpiry
    exact ⟨Nat.le_add_right _ _, es, List.prefix_refl es, rfl⟩
  · rw [hundated a ha] at hexpiry
    cases hexpiry

end Teamspeak.Client
