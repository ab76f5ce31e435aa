import Teamspeak.Client.Discovery.Documented
import Teamspeak.Lib.Run

/-!
# What a resolution comes to

Any number of resolutions at once, each told by its own services, at any time, and by the cache
they share.

* `Next.Sound`: what a resolution has heard, what it waits for and what it gives fit together.
* `react_sound`: whatever happens, they go on to.
* `resolves_as_documented`: **every resolution gives what is documented**, of a network that says
  what it heard, or what another found for its address, or the address as given.
-/

namespace Teamspeak.Client

section

variable (isIP : Str → Nat) (nicknameLookup : Bool)

namespace Request

/-- It looks for the address it was given, or for what that stands for. -/
def Led (q : Request) : Prop :=
  ∀ net : Network, net.Agrees q.heard → net.nicknamed isIP nicknameLookup q.inputAddr = q.address

/-- The addresses that the network has for it, whatever it says that was not heard. -/
def Finds (q : Request) (addrs : List ResolvedAddr) : Prop :=
  ∀ net : Network, net.Agrees q.heard →
    (addrs.map fun a => (a.addr, a.source)) = net.documented isIP q.address

/-- The signal has aborted if the caller's has, and for its reason if it was the first. -/
def Heeds (q : Request) : Prop :=
  (q.signal = none → q.caller = none) ∧
    ∀ reason, q.signal = some (.caller reason) → q.caller = some reason

/-- What `resolve` gives past the budget. -/
def asGiven (q : Request) : List ResolvedAddr :=
  let { host, port } := splitHostPort isIP q.inputAddr
  [{ addr := joinHostPort isIP host port, source := .direct }]

/-- **What the addresses are that a resolution gives**; `kept` says what others found. -/
inductive Tells (kept : Str → List ResolvedAddr → Prop) (q : Request) :
    List ResolvedAddr → Prop
  | found {addrs : List ResolvedAddr} (led : q.Led isIP nicknameLookup)
      (finds : q.Finds isIP addrs) : Tells kept q addrs
  | kept {addrs : List ResolvedAddr}
      (led : q.address = q.inputAddr ∨ q.Led isIP nicknameLookup)
      (found : kept q.address addrs) : Tells kept q addrs
  | given (caller : q.caller = none) (signal : q.signal = some .budget) :
      Tells kept q (q.asGiven isIP)

/-- Why a resolution fails. -/
inductive Fails (q : Request) : ResolveError → Prop
  | invalid (empty : q.inputAddr = []) :
      Fails q (.invalid ⟨q.inputAddr, .of "empty address"⟩)
  | aborted {reason : Nat} (caller : q.caller = some reason) : Fails q (.aborted reason)

end Request

/-- What a resolution is about to do, or waits for, after all it has heard. -/
inductive Next.Sound (kept : Str → List ResolvedAddr → Prop) (q : Request) : Next → Prop
  | asks (address : q.address = q.inputAddr) (heard : q.heard = [])
      (name : isIpAddress isIP (q.target isIP).host = false)
      (asks : asksNickname nicknameLookup (q.target isIP).host = true) :
      Sound kept q (.waits .nickname)
  | follows {next : Next} (led : q.Led isIP nicknameLookup)
      (name : isIpAddress isIP (q.target isIP).host = false)
      (follows : next.Follows isIP q.signal (q.target isIP).host (q.target isIP).port
        (fun net => net.preferences isIP (q.target isIP).host (q.target isIP).port) q.heard)
      (signal : ∀ wait, next = .waits wait → q.signal = none) : Sound kept q next
  | answers {addrs : List ResolvedAddr} (ne : addrs ≠ [])
      (tells : q.Tells isIP nicknameLookup kept addrs) : Sound kept q (.answers addrs)
  | throws (signal : q.signal.isSome = true) : Sound kept q .throws

/-- What is true of a resolution at any time. -/
def Resolution.Pursues (kept : Str → List ResolvedAddr → Prop) (t : Resolution) : Prop :=
  match t.phase with
  | .waits wait => (Next.waits wait).Sound isIP nicknameLookup kept t.toRequest
  | .settled (.ok addrs) => addrs ≠ [] ∧ t.Tells isIP nicknameLookup kept addrs
  | .settled (.error e) => t.Fails e

variable {isIP nicknameLookup} {kept : Str → List ResolvedAddr → Prop}

/-! ### What was heard stays heard -/

theorem Request.Led.mono {q q' : Request} (h : q.Led isIP nicknameLookup)
    (hinput : q'.inputAddr = q.inputAddr) (haddress : q'.address = q.address)
    (hheard : q.heard ⊆ q'.heard) : q'.Led isIP nicknameLookup := by
  intro net hnet
  rw [hinput, haddress]
  exact h net (hnet.mono hheard)

theorem Request.Tells.imp {kept' : Str → List ResolvedAddr → Prop} {q : Request}
    {addrs : List ResolvedAddr} (h : q.Tells isIP nicknameLookup kept addrs)
    (himp : ∀ address addrs, kept address addrs → kept' address addrs) :
    q.Tells isIP nicknameLookup kept' addrs := by
  cases h with
  | found led finds => exact .found led finds
  | kept led found => exact .kept led (himp _ _ found)
  | given caller signal => exact .given caller signal

theorem Next.Sound.imp {kept' : Str → List ResolvedAddr → Prop} {q : Request} {next : Next}
    (h : next.Sound isIP nicknameLookup kept q)
    (himp : ∀ address addrs, kept address addrs → kept' address addrs) :
    next.Sound isIP nicknameLookup kept' q := by
  cases h with
  | asks address heard name asks => exact .asks address heard name asks
  | follows led name follows signal => exact .follows led name follows signal
  | answers ne tells => exact .answers ne (tells.imp himp)
  | throws signal => exact .throws signal

theorem Resolution.Pursues.imp {kept' : Str → List ResolvedAddr → Prop} {t : Resolution}
    (h : t.Pursues isIP nicknameLookup kept)
    (himp : ∀ address addrs, kept address addrs → kept' address addrs) :
    t.Pursues isIP nicknameLookup kept' := by
  rw [Resolution.Pursues] at h ⊢
  split at h
  · exact h.imp himp
  · exact ⟨h.1, h.2.imp himp⟩
  · exact h

/-! ### Where a resolution starts -/

theorem resolveHost_sound {q : Request} (hled : q.Led isIP nicknameLookup)
    (hname : isIpAddress isIP (q.target isIP).host = false) :
    (resolveHost isIP q.signal (q.target isIP).host (q.target isIP).port).next.Sound isIP
      nicknameLookup kept q := by
  cases hsignal : q.signal with
  | none =>
    refine .follows hled hname ?_ fun wait _ => hsignal
    exact ⟨Wait.noConfusion, trivial, fun net _ => rfl⟩
  | some reason =>
    have hnext : (resolveHost isIP (some reason) (q.target isIP).host
        (q.target isIP).port).next = .throws := resolveTSDNSSRV_aborted reason _
    rw [hnext]
    exact .throws (by rw [hsignal]; rfl)

/-- From `#resolve` on, with the nickname service to be asked or not. -/
theorem resolveAddress_sound {q : Request} {nicknames : Bool}
    {cached : Option (List ResolvedAddr)}
    (hcached : ∀ addrs, cached = some addrs → addrs ≠ [] ∧ kept q.address addrs)
    (hat : q.address = q.inputAddr ∨ q.Led isIP nicknameLookup)
    (hled : (isIpAddress isIP (q.target isIP).host = true ∨
      asksNickname nicknames (q.target isIP).host = false) → q.Led isIP nicknameLookup)
    (hasks : nicknames = true →
      nicknameLookup = true ∧ q.address = q.inputAddr ∧ q.heard = []) :
    (resolveAddress isIP q.signal nicknames q.address cached).next.Sound isIP nicknameLookup kept
      q := by
  cases cached with
  | some addrs =>
    obtain ⟨hne, hkept⟩ := hcached addrs rfl
    exact .answers hne (.kept hat hkept)
  | none =>
    rw [resolveAddress]
    dsimp only
    by_cases hip : isIpAddress isIP (q.target isIP).host = true
    · have hip' : isIpAddress isIP (splitHostPort isIP q.address).host = true := hip
      rw [if_pos hip']
      refine .answers (List.cons_ne_nil _ _) (.found (hled (Or.inl hip)) fun net _ => ?_)
      rw [Network.documented]
      dsimp only
      rw [if_pos hip']
      rfl
    · have hip' : ¬isIpAddress isIP (splitHostPort isIP q.address).host = true := hip
      rw [if_neg hip']
      have hname : isIpAddress isIP (q.target isIP).host = false := Bool.eq_false_iff.mpr hip
      by_cases hask : asksNickname nicknames (q.target isIP).host = true
      · have hask' : asksNickname nicknames (splitHostPort isIP q.address).host = true := hask
        rw [if_pos hask']
        have hnicknames : nicknames = true := by
          rw [asksNickname, decide_eq_true_eq] at hask
          exact hask.1
        obtain ⟨hlookup, haddress, hheard⟩ := hasks hnicknames
        rw [hnicknames.trans hlookup.symm] at hask
        exact .asks haddress hheard hname hask
      · have hask' : ¬asksNickname nicknames (splitHostPort isIP q.address).host = true := hask
        rw [if_neg hask']
        exact resolveHost_sound (hled (Or.inr (Bool.eq_false_iff.mpr hask))) hname

/-! ### What a lookup keeps -/

namespace Lookup

variable {decode : Bytes → Str}

theorem finish_names (s : Lookup) (outcome : Outcome) :
    (s.finish outcome).server = s.server ∧ (s.finish outcome).host = s.host := by
  rw [finish]
  split
  · exact ⟨rfl, rfl⟩
  · exact ⟨rfl, rfl⟩
  · exact ⟨rfl, rfl⟩

theorem handleData_names (s : Lookup) (bytes chunk : Bytes) :
    (s.handleData decode bytes chunk).server = s.server ∧
      (s.handleData decode bytes chunk).host = s.host := by
  rw [handleData]
  split
  · exact finish_names s _
  · split
    · exact finish_names s _
    · exact ⟨rfl, rfl⟩

theorem step_names (decode : Bytes → Str) (s : Lookup) (e : SocketEvent) :
    (s.step decode e).server = s.server ∧ (s.step decode e).host = s.host := by
  rw [step]
  split
  · exact ⟨rfl, rfl⟩
  · split
    · exact finish_names s _
    · exact ⟨rfl, rfl⟩
  · cases e with
    | connected => exact ⟨rfl, rfl⟩
    | data chunk => exact handleData_names s _ chunk
    | ends => exact finish_names s _
    | error n => exact finish_names s _
    | timeout => exact finish_names s _
    | timer => exact finish_names s _
    | abort reason => exact finish_names s _

/-- What was asked stays what was asked. -/
theorem question_step (decode : Bytes → Str) (s : Lookup) (e : SocketEvent) :
    (s.step decode e).question = s.question := by
  obtain ⟨hserver, hhost⟩ := step_names decode s e
  rw [question, question, hserver, hhost]

/-- A promise settles once. -/
theorem outcome_step {s : Lookup} {outcome : Outcome} (h : s.outcome = some outcome)
    (e : SocketEvent) : (s.step decode e).outcome = some outcome := by
  obtain ⟨server, host, written, state⟩ := s
  cases state with
  | reading bytes => cases h
  | settled outcome' => exact h
  | unmade thrown =>
    rw [step]
    dsimp only
    split
    · exact h
    · exact h

theorem outcome_abort {s : Lookup} (h : s.outcome = none) (cause : AbortReason) :
    (s.step decode (.abort cause)).outcome = some (.error (.aborted cause)) := by
  obtain ⟨server, host, written, state⟩ := s
  cases state with
  | reading bytes => rfl
  | settled outcome => cases h
  | unmade thrown => cases h

theorem outcome_abort_isSome (s : Lookup) (cause : AbortReason) :
    (s.step decode (.abort cause)).outcome.isSome = true := by
  cases h : s.outcome with
  | none =>
    rw [outcome_abort h]
    rfl
  | some outcome =>
    rw [outcome_step h]
    rfl

theorem told_step {s : Lookup} {outcome : Outcome} (h : s.outcome = some outcome)
    (e : SocketEvent) : (s.step decode e).told = s.told := by
  obtain ⟨hserver, hhost⟩ := step_names decode s e
  rw [told, told, h, outcome_step h, hserver, hhost]

end Lookup

/-! ### What was asked is answered -/

theorem srvTargets_ne_nil {answer : SrvAnswer} {targets : List Str}
    (h : srvTargets isIP answer = some targets) : targets ≠ [] := by
  cases answer with
  | none => cases h
  | some records =>
    obtain ⟨srvs, random⟩ := records
    rw [srvTargets] at h
    by_cases hsrvs : srvs = []
    · rw [if_pos hsrvs] at h
      cases h
    · rw [if_neg hsrvs] at h
      obtain ⟨ordered, hordered, rfl⟩ := Option.map_eq_some_iff.mp h
      simpa using orderSrvRecords_ne_nil hordered hsrvs

theorem srvAnswered_follows (host port : Str) (before : List Heard) (answer : SrvAnswer) :
    (srvAnswered isIP none host port answer).next.Follows isIP none host port
      (fun net => net.preferences isIP host port)
      ((before ++ [.srv (ts3Name host) answer]) ++
        (srvAnswered isIP none host port answer).heard) := by
  have hsays : ∀ {net : Network} {heard : List Heard},
      net.Agrees ((before ++ [.srv (ts3Name host) answer]) ++ heard) →
      net.srv (ts3Name host) = answer := by
    intro net heard hnet
    exact hnet _ (List.mem_append_left _ (List.mem_append_right _ (List.mem_singleton_self _)))
  rw [srvAnswered]
  cases htargets : srvTargets isIP answer with
  | some targets =>
    have hne : foundBy .srv targets ≠ [] := by
      simpa [foundBy] using srvTargets_ne_nil htargets
    refine ⟨hne, fun net hnet => ?_⟩
    dsimp only
    rw [Network.preferences, hsays hnet, htargets]
    exact firstNonempty_cons hne _
  | none =>
    refine (resolveTSDNSSRV_follows _ (getDomainList host)).weaken (List.Subset.refl _)
      fun net hnet => ?_
    rw [Network.preferences, hsays hnet, htargets]
    exact firstNonempty_nil_cons _

theorem domainAnswered_follows (host port : Str) (before : List Heard) (domain : Str)
    (domains : List Str) (answer : SrvAnswer) :
    (askServers isIP none host port domains ((srvTargets isIP answer).getD [])).next.Follows isIP
      none host port
      (fun net => net.remaining isIP host port (.tsdnsSrv domain domains))
      ((before ++ [.srv (tsdnsName domain) answer]) ++
        (askServers isIP none host port domains ((srvTargets isIP answer).getD [])).heard) := by
  refine (askServers_follows _ domains _).weaken (List.Subset.refl _) fun net hnet => ?_
  have hsays : net.srv (tsdnsName domain) = answer :=
    hnet _ (List.mem_append_left _ (List.mem_append_right _ (List.mem_singleton_self _)))
  rw [Network.remaining, List.flatMap_cons, Network.bySrv, hsays, List.append_assoc]

theorem serverAnswered_follows {host port : Str} (before : List Heard) {lookup : Lookup}
    {outcome : Outcome} (hhost : lookup.host = host) (hended : lookup.outcome = some outcome)
    (servers domains : List Str) :
    (tsdnsAnswered isIP port lookup (askServers isIP none host port domains servers)).next.Follows
      isIP none host port
      (fun net => net.remaining isIP host port (.tsdns lookup servers domains))
      (before ++ (tsdnsAnswered isIP port lookup
        (askServers isIP none host port domains servers)).heard) :=
  tsdnsAnswered_follows hhost hended (askServers_follows before domains servers)

/-! ### Whatever happens -/

/-- What is known of a resolution that waits for anything but the nickname service. -/
theorem Next.Sound.waiting {q : Request} {wait : Wait}
    (h : (Next.waits wait).Sound isIP nicknameLookup kept q) (hne : wait ≠ .nickname) :
    q.Led isIP nicknameLookup ∧ isIpAddress isIP (q.target isIP).host = false ∧ q.signal = none ∧
      wait.Sound isIP (q.target isIP).host q.heard ∧
      ∀ net : Network, net.Agrees q.heard →
        firstNonempty (net.preferences isIP (q.target isIP).host (q.target isIP).port) =
          firstNonempty (net.remaining isIP (q.target isIP).host (q.target isIP).port wait) := by
  cases h with
  | asks address heard name asks => exact absurd rfl hne
  | follows led name follows signal => exact ⟨led, name, signal _ rfl, follows.2.1, follows.2.2⟩

theorem Next.Sound.turned {q : Request} {next : Next}
    (h : next.Sound isIP nicknameLookup kept q) (turn : Turn)
    (hheard : next = .waits .nickname → turn.heard = []) :
    next.Sound isIP nicknameLookup kept (q.turned turn) := by
  have hsub : q.heard ⊆ q.heard ++ turn.heard := List.subset_append_left _ _
  cases h with
  | asks address heard name asks =>
    refine .asks address ?_ name asks
    have hnil : q.heard ++ turn.heard = [] := by rw [heard, hheard rfl, List.append_nil]
    exact hnil
  | follows led name follows signal =>
    exact .follows (led.mono rfl rfl hsub) name (follows.weaken hsub fun net _ => rfl) signal
  | answers ne tells =>
    refine .answers ne ?_
    cases tells with
    | found led finds =>
      exact .found (led.mono rfl rfl hsub) fun net hnet => finds net (hnet.mono hsub)
    | kept led found => exact .kept (led.imp_right fun led => led.mono rfl rfl hsub) found
    | given caller signal => exact .given caller signal
  | throws signal => exact .throws signal

theorem resolveHost_next (signal : Option AbortReason) (host port : Str) :
    (resolveHost isIP signal host port).next ≠ .waits .nickname := by
  intro h
  cases signal with
  | none => cases h
  | some reason =>
    have hnext : (resolveHost isIP (some reason) host port).next = .throws :=
      resolveTSDNSSRV_aborted reason _
    rw [hnext] at h
    cases h

theorem resolveAddress_heard {signal : Option AbortReason} {nicknames : Bool} {address : Str}
    {cached : Option (List ResolvedAddr)}
    (h : (resolveAddress isIP signal nicknames address cached).next = .waits .nickname) :
    (resolveAddress isIP signal nicknames address cached).heard = [] := by
  cases cached with
  | some addrs => rfl
  | none =>
    rw [resolveAddress] at h ⊢
    dsimp only at h ⊢
    split
    · rfl
    · rename_i hip
      rw [if_neg hip] at h
      split
      · rfl
      · rename_i hask
        rw [if_neg hask] at h
        exact absurd h (resolveHost_next _ _ _)

theorem abort_signal {q : Request} (h : q.signal = none) (cause : AbortReason) :
    (q.abort cause).signal = some cause := by
  simp [Request.abort, h]

section

variable {decode : Bytes → Str} {cache : Str → Option (List ResolvedAddr)}

/-- The nickname service has answered, and the address may be another now. -/
theorem nicknameAnswered_sound {q : Request}
    (h : (Next.waits .nickname).Sound isIP nicknameLookup kept q)
    (hcache : ∀ key addrs, cache key = some addrs → addrs ≠ [] ∧ kept key addrs)
    (response : Option Response) :
    (q.nicknameAnswered isIP decode cache response).2.next.Sound isIP nicknameLookup kept
      ((q.nicknameAnswered isIP decode cache response).1.turned
        (q.nicknameAnswered isIP decode cache response).2) := by
  cases h with
  | follows led name follows signal => exact absurd rfl follows.1
  | asks address heard name asks =>
    have hnicknamed : ∀ net : Network,
        net.Agrees (q.heard ++ [.nickname (q.target isIP).host
          (resolveNickname decode response)]) →
        net.nicknamed isIP nicknameLookup q.inputAddr =
          (resolveNickname decode response).getD q.inputAddr := by
      intro net hnet
      have hsays : net.nickname (q.target isIP).host = resolveNickname decode response :=
        hnet _ (List.mem_append_right _ (List.mem_singleton_self _))
      rw [Request.target] at hsays name asks
      rw [Network.nicknamed, ← address, if_pos ⟨name, asks⟩, hsays]
    rw [Request.nicknameAnswered]
    dsimp only
    by_cases hsignal : q.signal.isSome = true
    · rw [if_pos hsignal]
      exact .throws hsignal
    · rw [if_neg hsignal]
      cases hanswer : resolveNickname decode response with
      | some nickAddr =>
        rw [hanswer] at hnicknamed
        let q' : Request :=
          { q with
            heard := q.heard ++ [.nickname (q.target isIP).host (some nickAddr)]
            address := nickAddr }
        have hled : q'.Led isIP nicknameLookup := hnicknamed
        have hsound : (resolveAddress isIP q'.signal false q'.address
            (cache nickAddr)).next.Sound isIP nicknameLookup kept q' :=
          resolveAddress_sound (hcache nickAddr) (Or.inr hled) (fun _ => hled)
            fun hfalse => absurd hfalse Bool.false_ne_true
        exact hsound.turned _ resolveAddress_heard
      | none =>
        rw [hanswer] at hnicknamed
        let q' : Request :=
          { q with heard := q.heard ++ [.nickname (q.target isIP).host none] }
        have hled : q'.Led isIP nicknameLookup := fun net hnet =>
          (hnicknamed net hnet).trans address.symm
        have hsound : (resolveHost isIP q'.signal (q'.target isIP).host
            (q'.target isIP).port).next.Sound isIP nicknameLookup kept q' :=
          resolveHost_sound hled name
        exact hsound.turned _ fun hnext => absurd hnext (resolveHost_next _ _ _)

theorem map_modify_names (lookups : List Lookup) (index : Nat) (e : SocketEvent) :
    ((lookups.modify index fun lookup => lookup.step decode e).map
        fun lookup => (lookup.server, lookup.host)) =
      lookups.map fun lookup => (lookup.server, lookup.host) := by
  apply List.ext_getElem?
  intro j
  rw [List.getElem?_map, List.getElem?_map, List.getElem?_modify]
  cases lookups[j]? with
  | none => rfl
  | some lookup =>
    by_cases hj : index = j
    · simp [hj, Lookup.step_names decode lookup e]
    · simp [hj]

/-- The one socket that heard something tells what its server says, if that ends. -/
theorem directEvent_sound (decode : Bytes → Str) (q : Request) {host : Str} {heard : List Heard}
    {lookups : List Lookup} (h : (Wait.direct lookups).Sound isIP host heard) (index : Nat)
    (e : SocketEvent) :
    (Wait.direct (lookups.modify index fun lookup => lookup.step decode e)).Sound isIP host
      (heard ++ (q.directEvent isIP decode lookups index e).heard) := by
  refine ⟨(map_modify_names lookups index e).trans h.1, fun lookup' hmem => ?_⟩
  obtain ⟨j, hj⟩ := List.mem_iff_getElem?.mp hmem
  have hget := hj
  rw [List.getElem?_modify] at hj
  obtain ⟨lookup, hlookup, rfl⟩ := Option.map_eq_some_iff.mp hj
  have htold : lookup.told ⊆ heard := h.2 lookup (List.mem_of_getElem? hlookup)
  by_cases hindex : index = j
  · subst hindex
    rw [if_pos rfl] at hget ⊢
    cases hended : lookup.outcome with
    | some outcome =>
      rw [Lookup.told_step hended]
      exact fun a ha => List.mem_append_left _ (htold ha)
    | none =>
      have hheard : (q.directEvent isIP decode lookups index e).heard =
          (lookup.step decode e).told := by
        rw [Request.directEvent]
        dsimp only
        rw [hlookup, hget]
        simp [hended]
      rw [hheard]
      exact List.subset_append_right _ _
  · rw [if_neg hindex]
    exact fun a ha => List.mem_append_left _ (htold ha)

theorem directAborted_sound (decode : Bytes → Str) (q : Request) {host : Str}
    {heard : List Heard} {lookups : List Lookup} (h : (Wait.direct lookups).Sound isIP host heard)
    (cause : AbortReason) :
    (Wait.direct (lookups.map fun lookup => lookup.step decode (.abort cause))).Sound isIP host
      (heard ++ (q.directAborted isIP decode lookups cause).heard) := by
  refine ⟨?_, fun lookup' hmem => ?_⟩
  · rw [← h.1, List.map_map]
    refine List.map_congr_left fun lookup _ => ?_
    obtain ⟨hserver, hhost⟩ := Lookup.step_names decode lookup (.abort cause)
    rw [Function.comp_apply, hserver, hhost]
  · obtain ⟨lookup, hlookup, rfl⟩ := List.mem_map.mp hmem
    cases hended : lookup.outcome with
    | some outcome =>
      rw [Lookup.told_step hended]
      exact fun a ha => List.mem_append_left _ (h.2 lookup hlookup ha)
    | none =>
      intro a ha
      refine List.mem_append_right _ (List.mem_flatMap.mpr ⟨lookup, ?_, ha⟩)
      exact List.mem_filter.mpr ⟨hlookup, by rw [hended]; rfl⟩

theorem directAborted_ne_waits {signal : Option AbortReason} {host port : Str}
    (decode : Bytes → Str) (lookups : List Lookup) (cause : AbortReason) (wait : Wait) :
    directAnswered isIP signal host port
      (lookups.map fun lookup => lookup.step decode (.abort cause)) ≠ .waits wait := by
  have hall : ((lookups.map fun lookup => lookup.step decode (.abort cause)).all
      fun lookup => lookup.outcome.isSome) = true := by
    rw [List.all_map, List.all_eq_true]
    exact fun lookup _ => lookup.outcome_abort_isSome cause
  rw [directAnswered, if_pos hall]
  dsimp only
  intro h
  split at h
  · cases h
  · split at h
    · cases h
    · cases h

end

/-- An abort of what waits for anything but the nickname service leaves nothing to wait for. -/
theorem Next.Sound.aborted {q : Request} {cause : AbortReason} {turn : Turn}
    (hsignal : q.signal = none) (hnext : turn.next = .throws) :
    turn.next.Sound isIP nicknameLookup kept ((q.abort cause).turned turn) := by
  have hsome : ((q.abort cause).turned turn).signal.isSome = true := by
    rw [Request.turned, abort_signal hsignal]
    rfl
  rw [hnext]
  exact .throws hsome

/-- What follows what was left follows what was preferred. -/
theorem Next.Sound.goes {q q' : Request} {wait : Wait} {turn : Turn} {heard : List Heard}
    (h : (Next.waits wait).Sound isIP nicknameLookup kept q) (hne : wait ≠ .nickname)
    (hinput : q'.inputAddr = q.inputAddr) (haddress : q'.address = q.address)
    (hsignal : q'.signal = q.signal) (hheard : q'.heard = q.heard ++ heard)
    (hfollows : turn.next.Follows isIP none (q.target isIP).host (q.target isIP).port
      (fun net => net.remaining isIP (q.target isIP).host (q.target isIP).port wait)
      (q'.heard ++ turn.heard)) :
    turn.next.Sound isIP nicknameLookup kept (q'.turned turn) := by
  obtain ⟨hled, hname, hnone, hsound, hrest⟩ := h.waiting hne
  have hsub : q.heard ⊆ q'.heard ++ turn.heard := by
    rw [hheard]
    exact fun a ha => List.mem_append_left _ (List.mem_append_left _ ha)
  have htarget : (q'.turned turn).target isIP = q.target isIP := by
    rw [Request.target, Request.target, Request.turned, haddress]
  have hsame : (q'.turned turn).signal = none := hsignal.trans hnone
  refine .follows (hled.mono hinput haddress hsub) ?_ ?_ fun _ _ => hsame
  · rw [htarget]
    exact hname
  · rw [htarget, hsame]
    exact hfollows.weaken (List.Subset.refl _) fun net hnet => hrest net (hnet.mono hsub)

/-- **Whatever happens that a resolution waits for**, what it heard fits what it goes on to. -/
theorem react_sound {decode : Bytes → Str} {cache : Str → Option (List ResolvedAddr)}
    {q q' : Request} {wait : Wait} {reply : Reply} {turn : Turn}
    (h : (Next.waits wait).Sound isIP nicknameLookup kept q)
    (hcache : ∀ key addrs, cache key = some addrs → addrs ≠ [] ∧ kept key addrs)
    (hreact : q.react isIP decode cache wait reply = some (q', turn)) :
    turn.next.Sound isIP nicknameLookup kept (q'.turned turn) := by
  cases Request.reacts_of_react hreact with
  | nickname response => exact nicknameAnswered_sound h hcache response
  | nicknameAborted cause =>
    cases h with
    | follows led name follows signal => exact absurd rfl follows.1
    | asks address heard name asks =>
      refine .asks address ?_ name asks
      have hnil : q.heard ++ [] = [] := by rw [heard, List.append_nil]
      exact hnil
  | srv answer =>
    obtain ⟨-, -, hsignal, -, -⟩ := h.waiting Wait.noConfusion
    refine h.goes Wait.noConfusion rfl rfl rfl rfl ?_
    rw [hsignal]
    exact srvAnswered_follows _ _ q.heard answer
  | srvAborted cause =>
    obtain ⟨-, -, hsignal, -, -⟩ := h.waiting Wait.noConfusion
    refine .aborted hsignal ?_
    rw [abort_signal hsignal]
    exact resolveTSDNSSRV_aborted cause _
  | domain domain domains answer =>
    obtain ⟨-, -, hsignal, -, -⟩ := h.waiting Wait.noConfusion
    refine h.goes Wait.noConfusion rfl rfl rfl rfl ?_
    rw [hsignal]
    exact domainAnswered_follows _ _ q.heard domain domains answer
  | domainAborted domain domains cause =>
    obtain ⟨-, -, hsignal, -, -⟩ := h.waiting Wait.noConfusion
    refine .aborted hsignal ?_
    rw [abort_signal hsignal]
    exact resolveTSDNSSRV_aborted cause _
  | @server lookup servers domains index e outcome ended =>
    obtain ⟨-, -, hsignal, hsound, -⟩ := h.waiting Wait.noConfusion
    obtain ⟨hserver, hhost⟩ := Lookup.step_names decode lookup e
    refine h.goes Wait.noConfusion rfl rfl rfl (List.append_nil _).symm ?_
    rw [hsignal]
    refine (serverAnswered_follows q.heard (hhost.trans hsound.1) ended servers domains).weaken
      (List.Subset.refl _) fun net _ => ?_
    simp only [Network.remaining, hserver]
  | @reading lookup servers domains index e still =>
    obtain ⟨-, -, hsignal, hsound, -⟩ := h.waiting Wait.noConfusion
    obtain ⟨hserver, hhost⟩ := Lookup.step_names decode lookup e
    refine h.goes Wait.noConfusion rfl rfl rfl (List.append_nil _).symm ?_
    refine ⟨Wait.noConfusion, ⟨hhost.trans hsound.1, still⟩, fun net _ => ?_⟩
    simp only [Network.remaining, hserver]
  | serverAborted lookup servers domains cause =>
    obtain ⟨-, -, hsignal, hsound, -⟩ := h.waiting Wait.noConfusion
    refine .aborted hsignal ?_
    rw [abort_signal hsignal, tsdnsAnswered_eq (Lookup.outcome_abort hsound.2 cause)]
    exact askServers_aborted cause domains servers
  | direct lookups index e =>
    obtain ⟨-, -, hsignal, hsound, -⟩ := h.waiting Wait.noConfusion
    refine h.goes Wait.noConfusion rfl rfl rfl (List.append_nil _).symm ?_
    have hnext : (q.directEvent isIP decode lookups index e).next =
        directAnswered isIP none (q.target isIP).host (q.target isIP).port
          (lookups.modify index fun lookup => lookup.step decode e) := by
      rw [← hsignal]
      rfl
    rw [hnext]
    exact directAnswered_follows (directEvent_sound decode q hsound index e)
  | directAborted lookups cause =>
    obtain ⟨hled, hname, -, hsound, hrest⟩ := h.waiting Wait.noConfusion
    have hsub : q.heard ⊆ q.heard ++
        ((q.abort cause).directAborted isIP decode lookups cause).heard :=
      List.subset_append_left _ _
    refine .follows (hled.mono rfl rfl hsub) hname ?_
      fun wait hwait => absurd hwait (directAborted_ne_waits decode lookups cause wait)
    exact (directAnswered_follows
      (directAborted_sound decode (q.abort cause) hsound cause)).weaken
        (List.Subset.refl _) fun net hnet => hrest net (hnet.mono hsub)

/-! ### Every run -/

theorem heeds_abort {q : Request} (h : q.Heeds) (cause : AbortReason) : (q.abort cause).Heeds := by
  refine ⟨fun hnone => ?_, fun reason hreason => ?_⟩
  · have hsome : q.signal.or (some cause) = none := hnone
    cases hsignal : q.signal with
    | none =>
      rw [hsignal] at hsome
      cases hsome
    | some reason =>
      rw [hsignal] at hsome
      cases hsome
  · have hor : q.signal.or (some cause) = some (.caller reason) := hreason
    cases hsignal : q.signal with
    | none =>
      rw [hsignal] at hor
      obtain rfl := Option.some.inj hor
      have hcaller : q.caller.or (some reason) = some reason := by
        rw [h.1 hsignal]
        rfl
      exact hcaller
    | some cause' =>
      rw [hsignal] at hor
      obtain rfl := Option.some.inj hor
      cases cause with
      | caller reason' =>
        have hcaller : q.caller.or (some reason') = some reason := by
          rw [h.2 reason hsignal]
          rfl
        exact hcaller
      | budget => exact h.2 reason hsignal

/-- A resolution's signals are those it had, or one more. -/
theorem react_heeds {decode : Bytes → Str} {cache : Str → Option (List ResolvedAddr)}
    {q q' : Request} {wait : Wait} {reply : Reply} {turn : Turn} (h : q.Heeds)
    (hreact : q.react isIP decode cache wait reply = some (q', turn)) : q'.Heeds := by
  cases Request.reacts_of_react hreact with
  | nickname response =>
    rw [Request.nicknameAnswered]
    dsimp only
    split
    · exact h
    · split
      · exact h
      · exact h
  | nicknameAborted cause => exact heeds_abort h cause
  | srv answer => exact h
  | srvAborted cause => exact heeds_abort h cause
  | domain domain domains answer => exact h
  | domainAborted domain domains cause => exact heeds_abort h cause
  | server servers domains index ended => exact h
  | reading servers domains index still => exact h
  | serverAborted lookup servers domains cause => exact heeds_abort h cause
  | direct lookups index e => exact h
  | directAborted lookups cause => exact heeds_abort h cause

namespace Resolver

variable (isIP) in
/-- What one of the resolutions found for an address. -/
def Kept (r : Resolver) (address : Str) (addrs : List ResolvedAddr) : Prop :=
  ∃ t ∈ r.resolutions, t.address = address ∧ t.phase = .settled (.ok addrs) ∧ t.Finds isIP addrs

variable (isIP nicknameLookup) in
/-- The resolutions, and the cache they share. -/
structure Honest (r : Resolver) : Prop where
  pursues : ∀ t ∈ r.resolutions, t.Pursues isIP nicknameLookup (r.Kept isIP)
  heeds : ∀ t ∈ r.resolutions, t.Heeds
  cache : ∀ address addrs, r.cache.get? address = some addrs →
    addrs ≠ [] ∧ r.Kept isIP address addrs

theorem get?_of_getValidCache {r : Resolver} {address : Str} {addrs : List ResolvedAddr}
    (h : r.getValidCache address = some addrs) : r.cache.get? address = some addrs := by
  rw [Resolver.getValidCache] at h
  split at h
  · cases h
  · cases h
  · rename_i hcached
    split at h
    · cases h
    · rw [hcached]
      exact h

theorem Honest.getValidCache {r : Resolver} (h : r.Honest isIP nicknameLookup) {address : Str}
    {addrs : List ResolvedAddr} (hget : r.getValidCache address = some addrs) :
    addrs ≠ [] ∧ r.Kept isIP address addrs := h.cache address addrs (get?_of_getValidCache hget)

theorem withExpiry_found (r : Resolver) (addrs : Found) :
    ((r.withExpiry addrs).map fun a => (a.addr, a.source)) = addrs := by
  rw [withExpiry, List.map_map]
  exact List.map_id' addrs

/-- A turn leaves a resolution that waits for what it should, or that gives what it should; what
goes to the cache is what it found. -/
theorem after_pursues {r : Resolver} {q : Request} {turn : Turn} (hheeds : q.Heeds)
    (h : turn.next.Sound isIP nicknameLookup kept (q.turned turn)) :
    (r.after isIP q turn).Pursues isIP nicknameLookup kept ∧
      ∀ addrs, turn.next = .found addrs → r.withExpiry addrs ≠ [] ∧
        (r.after isIP q turn).phase = .settled (.ok (r.withExpiry addrs)) ∧
        (r.after isIP q turn).Finds isIP (r.withExpiry addrs) := by
  have hphase : (r.after isIP q turn).phase = r.phaseAfter isIP q turn.next := rfl
  have hrequest : (r.after isIP q turn).toRequest = q.turned turn := rfl
  rw [Resolution.Pursues, hphase, hrequest]
  cases hnext : turn.next with
  | waits wait =>
    rw [hnext] at h
    exact ⟨h, fun addrs haddrs => (by cases haddrs)⟩
  | answers addrs =>
    rw [hnext] at h
    cases h with
    | follows led name follows signal => exact absurd follows id
    | answers ne tells => exact ⟨⟨ne, tells⟩, fun addrs haddrs => (by cases haddrs)⟩
  | found addrs =>
    rw [hnext] at h
    cases h with
    | follows led name follows signal =>
      have hne : r.withExpiry addrs ≠ [] := by
        simpa [withExpiry] using follows.1
      have hfinds : (q.turned turn).Finds isIP (r.withExpiry addrs) := by
        intro net hnet
        rw [withExpiry_found, Network.documented]
        dsimp only
        rw [Request.target] at name
        rw [if_neg (by rw [name]; exact Bool.false_ne_true)]
        exact (follows.2 net hnet).symm
      refine ⟨⟨hne, .found led hfinds⟩, fun addrs' haddrs => ?_⟩
      obtain rfl := Next.found.inj haddrs
      exact ⟨hne, rfl, hfinds⟩
  | throws =>
    rw [hnext] at h
    have hsignal : (q.turned turn).signal.isSome = true := by
      cases h with
      | follows led name follows signal => exact follows
      | throws signal => exact signal
    refine ⟨?_, fun addrs haddrs => (by cases haddrs)⟩
    rw [phaseAfter, thrown]
    cases hcaller : q.caller with
    | some reason => exact .aborted hcaller
    | none =>
      refine ⟨List.cons_ne_nil _ _, .given hcaller ?_⟩
      obtain ⟨cause, hcause⟩ := Option.isSome_iff_exists.mp hsignal
      rw [hcause]
      cases cause with
      | caller reason =>
        have hsome := hheeds.2 reason hcause
        rw [hcaller] at hsome
        cases hsome
      | budget => rfl

/-- A turn of one resolution, which waited before or is new, among the others. -/
theorem honest_after {r : Resolver} {q : Request} {turn : Turn} {resolutions : List Resolution}
    (h : r.Honest isIP nicknameLookup) (hheeds : q.Heeds)
    (hnext : turn.next.Sound isIP nicknameLookup (r.Kept isIP) (q.turned turn))
    (hkeep : ∀ t ∈ r.resolutions, ∀ result, t.phase = .settled result → t ∈ resolutions)
    (hmem : ∀ t ∈ resolutions, t ∈ r.resolutions ∨ t = r.after isIP q turn)
    (hnew : r.after isIP q turn ∈ resolutions) :
    Honest isIP nicknameLookup
      { r with cache := r.cacheAfter q turn.next, resolutions } := by
  have hkept : ∀ address addrs, r.Kept isIP address addrs →
      Kept isIP { r with cache := r.cacheAfter q turn.next, resolutions } address addrs := by
    rintro address addrs ⟨t, ht, haddress, hphase, hfinds⟩
    exact ⟨t, hkeep t ht _ hphase, haddress, hphase, hfinds⟩
  obtain ⟨hpursues, hfound⟩ := after_pursues (r := r) hheeds hnext
  refine ⟨fun t ht => ?_, fun t ht => ?_, fun address addrs hget => ?_⟩
  · rcases hmem t ht with ht | rfl
    · exact (h.pursues t ht).imp hkept
    · exact hpursues.imp hkept
  · rcases hmem t ht with ht | rfl
    · exact h.heeds t ht
    · exact hheeds
  · have hold : r.cache.get? address = some addrs →
        addrs ≠ [] ∧ Kept isIP { r with cache := r.cacheAfter q turn.next, resolutions }
          address addrs := by
      intro hget
      obtain ⟨hne, hkeep⟩ := h.cache address addrs hget
      exact ⟨hne, hkept _ _ hkeep⟩
    cases hn : turn.next with
    | found found =>
      rw [hn, cacheAfter, InsertionMap.get?_set] at hget
      split at hget
      · rename_i haddress
        obtain ⟨hne, hphase, hfinds⟩ := hfound found hn
        obtain rfl := Option.some.inj hget
        exact ⟨hne, _, hnew, haddress, hphase, hfinds⟩
      · exact hold hget
    | waits wait =>
      rw [hn] at hget
      exact hold hget
    | answers addrs' =>
      rw [hn] at hget
      exact hold hget
    | throws =>
      rw [hn] at hget
      exact hold hget

theorem heeds_begun (inputAddr : Str) (aborted : Option Nat) :
    Request.Heeds
      { inputAddr, address := inputAddr, caller := aborted, signal := aborted.map .caller } := by
  cases aborted with
  | none => exact ⟨fun _ => rfl, fun reason hreason => (by cases hreason)⟩
  | some reason =>
    refine ⟨fun hnone => (by cases hnone), fun reason' hreason => ?_⟩
    obtain rfl := AbortReason.caller.inj (Option.some.inj hreason)
    rfl

theorem led_begun {q : Request} (hbegun : q.address = q.inputAddr)
    (hor : isIpAddress isIP (q.target isIP).host = true ∨
      asksNickname nicknameLookup (q.target isIP).host = false) : q.Led isIP nicknameLookup := by
  intro net _
  rw [Request.target, hbegun] at hor
  rw [Network.nicknamed, if_neg, hbegun]
  rintro ⟨hname, hask⟩
  rcases hor with hip | hno
  · exact absurd (hname.symm.trans hip) Bool.false_ne_true
  · exact absurd (hno.symm.trans hask) Bool.false_ne_true

/-- An address that is not to be resolved joins the others. -/
theorem honest_invalid {r : Resolver} {inputAddr : Str} (h : r.Honest isIP nicknameLookup)
    (hempty : inputAddr = []) :
    Honest isIP nicknameLookup
      { r with
        resolutions := r.resolutions ++
          [{ inputAddr, address := inputAddr
             phase := .settled (.error (.invalid ⟨inputAddr, .of "empty address"⟩)) }] } := by
  have hkept : ∀ {t : Resolution} address addrs, r.Kept isIP address addrs →
      Kept isIP { r with resolutions := r.resolutions ++ [t] } address addrs := by
    rintro t address addrs ⟨t', ht', hrest⟩
    exact ⟨t', List.mem_append_left _ ht', hrest⟩
  refine ⟨fun t ht => ?_, fun t ht => ?_, fun address addrs hget => ?_⟩
  · rcases List.mem_append.mp ht with ht | ht
    · exact (h.pursues t ht).imp hkept
    · obtain rfl := List.mem_singleton.mp ht
      exact .invalid hempty
  · rcases List.mem_append.mp ht with ht | ht
    · exact h.heeds t ht
    · obtain rfl := List.mem_singleton.mp ht
      exact ⟨fun _ => rfl, fun reason hreason => (by cases hreason)⟩
  · exact ⟨(h.cache address addrs hget).1, hkept _ _ (h.cache address addrs hget).2⟩

theorem honest_step {decode : Bytes → Str} {r : Resolver} (h : r.Honest isIP nicknameLookup)
    (e : ResolverEvent) :
    (r.step isIP decode nicknameLookup e).Honest isIP nicknameLookup := by
  generalize hstep : r.step isIP decode nicknameLookup e = r'
  cases steps_of_step hstep with
  | clock now => exact ⟨h.pursues, h.heeds, h.cache⟩
  | invalid empty => exact honest_invalid h empty
  | @begun inputAddr aborted q turn given request begins =>
    subst request begins
    let q : Request :=
      { inputAddr, address := inputAddr, caller := aborted, signal := aborted.map .caller }
    have hsound : (resolveAddress isIP q.signal nicknameLookup q.address
        (r.getValidCache inputAddr)).next.Sound isIP nicknameLookup (r.Kept isIP) q :=
      resolveAddress_sound (fun addrs hget => h.getValidCache hget) (Or.inl rfl) (led_begun rfl)
        fun hlookup => ⟨hlookup, rfl, rfl⟩
    refine honest_after h (heeds_begun inputAddr aborted) (hsound.turned _ resolveAddress_heard)
      ?_ ?_ ?_
    · exact fun t ht _ _ => List.mem_append_left _ ht
    · intro t ht
      exact (List.mem_append.mp ht).imp_right fun ht => List.mem_singleton.mp ht
    · exact List.mem_append_right _ (List.mem_singleton_self _)
  | missed id reply => exact h
  | @reacted id reply t wait q turn at_id waits reacts =>
    have hmem : t ∈ r.resolutions := List.mem_of_getElem? at_id
    have hwait : (Next.waits wait).Sound isIP nicknameLookup (r.Kept isIP) t.toRequest := by
      have hpursues := h.pursues t hmem
      rw [Resolution.Pursues, waits] at hpursues
      exact hpursues
    have hsound := react_sound hwait (fun key addrs hget => h.getValidCache hget) reacts
    refine honest_after h (react_heeds (h.heeds t hmem) reacts) hsound ?_ ?_ ?_
    · intro t' ht' result hresult
      obtain ⟨j, hj⟩ := List.mem_iff_getElem?.mp ht'
      have hne : id ≠ j := by
        rintro rfl
        obtain rfl := Option.some.inj (at_id.symm.trans hj)
        rw [waits] at hresult
        cases hresult
      refine List.mem_of_getElem? (i := j) ?_
      rw [List.getElem?_set_ne hne]
      exact hj
    · exact fun t' ht' => List.mem_or_eq_of_mem_set ht'
    · exact List.mem_set (List.getElem?_eq_some_iff.mp at_id).1 _

variable (isIP nicknameLookup) in
/-- **What is documented of `resolve`**: the addresses are those that the services know, in the
order they are asked, or what another resolution found for the address, or the address as given
once the budget is over; and there is one. -/
structure Documented (r : Resolver) : Prop where
  gives : ∀ t ∈ r.resolutions, ∀ addrs, t.phase = .settled (.ok addrs) →
    addrs ≠ [] ∧ t.Tells isIP nicknameLookup (r.Kept isIP) addrs
  fails : ∀ t ∈ r.resolutions, ∀ e, t.phase = .settled (.error e) → t.Fails e

theorem Honest.documented {r : Resolver} (h : r.Honest isIP nicknameLookup) :
    r.Documented isIP nicknameLookup := by
  refine ⟨fun t ht addrs hphase => ?_, fun t ht e hphase => ?_⟩
  · have hpursues := h.pursues t ht
    rw [Resolution.Pursues, hphase] at hpursues
    exact hpursues
  · have hpursues := h.pursues t ht
    rw [Resolution.Pursues, hphase] at hpursues
    exact hpursues

theorem honest_empty : Honest isIP nicknameLookup {} := by
  refine ⟨fun t ht => absurd ht List.not_mem_nil, fun t ht => absurd ht List.not_mem_nil, ?_⟩
  exact fun address addrs hget => (by cases hget)

end Resolver

end

/-- **Every resolution gives what is documented**, whatever happens and however many there are. -/
theorem resolves_as_documented (isIP : Str → Nat) (decode : Bytes → Str) (nicknameLookup : Bool)
    (es : List ResolverEvent) :
    (run (Resolver.step isIP decode nicknameLookup) {} es).Documented isIP nicknameLookup := by
  have honest : (run (Resolver.step isIP decode nicknameLookup) {} es).Honest isIP
      nicknameLookup :=
    run_invariant (I := fun r : Resolver => r.Honest isIP nicknameLookup)
      (fun r e h => Resolver.honest_step h e) es Resolver.honest_empty
  exact honest.documented

/-- The second domain's server knows the host; the first says nothing in time. -/
example :
    ((run (Resolver.step (fun _ => 0) (List.map UInt8.toUInt16) false) {}
      [.resolve (.of "a.b.c") none, .reply 0 (.srv none), .reply 0 (.srv none),
        .reply 0 (.srv none), .reply 0 (.socket 1 (.data [0x68, 0x0A])),
        .reply 0 (.socket 0 .timer)]).getValidCache (.of "a.b.c")) =
      some [⟨.of "h:9987", .tsdnsDirect, some 600000⟩] := by decide

end Teamspeak.Client
