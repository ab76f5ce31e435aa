import Teamspeak.Client.Discovery.Fresh

/-!
# What a resolution asks

* `getDomainList_spec`: a host's domains are at most three of its ends, and none is a single label.
* `Asking`: the questions a resolution may ask about a host, and of whom.
* `asks_permitted`: **a resolution asks what it may**, and waits for what it asked.
* `aborts_settle`: **an abort settles a resolution at once and for good**, and the SRV lookups that
  it still makes are left to themselves.
-/

namespace Teamspeak.Client

section

variable {isIP : Str → Nat} {host port : Str}

/-! ### An abort -/

/-- The domains whose SRV lookups a resolution has not made that waits. -/
def Wait.left (host : Str) : Wait → List Str
  | .nickname | .direct _ => []
  | .srv => getDomainList host
  | .tsdnsSrv _ domains | .tsdns _ _ domains => domains

theorem resolveTSDNSSRV_aborted_asks (isIP : Str → Nat) (host port : Str) (reason : AbortReason)
    (domains : List Str) :
    (resolveTSDNSSRV isIP (some reason) host port domains).asked =
        domains.map (fun domain => .srv (tsdnsName domain)) ∧
      (resolveTSDNSSRV isIP (some reason) host port domains).dropped =
        domains.map tsdnsName := by
  induction domains with
  | nil =>
    have hnone : (directLookups isIP (some reason) host).flatMap Lookup.dialled = [] := by
      rw [List.flatMap_eq_nil_iff]
      intro lookup hmem
      obtain ⟨domain, -, rfl⟩ := List.mem_map.mp hmem
      rfl
    exact ⟨hnone, rfl⟩
  | cons domain domains ih =>
    obtain ⟨hasked, hdropped⟩ := ih
    rw [List.map_cons, List.map_cons, ← hasked, ← hdropped]
    exact ⟨rfl, rfl⟩

theorem askServers_aborted_asks (isIP : Str → Nat) (host port : Str) (reason : AbortReason)
    (domains servers : List Str) :
    (askServers isIP (some reason) host port domains servers).asked =
        domains.map (fun domain => .srv (tsdnsName domain)) ∧
      (askServers isIP (some reason) host port domains servers).dropped =
        domains.map tsdnsName := by
  induction servers with
  | nil => exact resolveTSDNSSRV_aborted_asks isIP host port reason domains
  | cons server servers ih => exact ih

/-- An abort leaves nothing to wait for. -/
theorem react_abort (decode : Bytes → Str) (cache : Str → Option (List ResolvedAddr))
    {q : Request} {wait : Wait} (hne : wait ≠ .nickname) (hsignal : q.signal = none)
    (hsound : wait.Sound isIP (q.target isIP).host q.heard) (cause : AbortReason) :
    ∃ turn, q.react isIP decode cache wait (.abort cause) = some (q.abort cause, turn) ∧
      turn.asked = (wait.left (q.target isIP).host).map (fun domain => .srv (tsdnsName domain)) ∧
      turn.dropped = (wait.left (q.target isIP).host).map tsdnsName ∧
      (turn.next = .throws ∨
        ∃ lookups found, wait = .direct lookups ∧ turn.next = .found found) := by
  have hs := abort_signal hsignal cause
  cases wait with
  | nickname => exact absurd rfl hne
  | srv =>
    obtain ⟨hasked, hdropped⟩ := resolveTSDNSSRV_aborted_asks isIP (q.target isIP).host
      (q.target isIP).port cause (getDomainList (q.target isIP).host)
    rw [← hs] at hasked hdropped
    refine ⟨_, rfl, hasked, hdropped, Or.inl ?_⟩
    rw [hs]
    exact resolveTSDNSSRV_aborted cause _
  | tsdnsSrv domain domains =>
    obtain ⟨hasked, hdropped⟩ := resolveTSDNSSRV_aborted_asks isIP (q.target isIP).host
      (q.target isIP).port cause domains
    rw [← hs] at hasked hdropped
    refine ⟨_, rfl, hasked, hdropped, Or.inl ?_⟩
    rw [hs]
    exact resolveTSDNSSRV_aborted cause _
  | tsdns lookup servers domains =>
    obtain ⟨hasked, hdropped⟩ := askServers_aborted_asks isIP (q.target isIP).host
      (q.target isIP).port cause domains servers
    refine ⟨_, rfl, ?_, ?_, Or.inl ?_⟩
    · rw [hs, tsdnsAnswered_eq (Lookup.outcome_abort hsound.2 cause)]
      exact hasked
    · rw [hs, tsdnsAnswered_eq (Lookup.outcome_abort hsound.2 cause)]
      exact hdropped
    · rw [hs, tsdnsAnswered_eq (Lookup.outcome_abort hsound.2 cause)]
      exact askServers_aborted cause domains servers
  | direct lookups =>
    refine ⟨_, rfl, rfl, rfl, ?_⟩
    cases hnext : ((q.abort cause).directAborted isIP decode lookups cause).next with
    | waits wait => exact absurd hnext (directAborted_ne_waits decode lookups cause wait)
    | answers addrs => exact absurd hnext (directAnswered_ne_answers _ addrs)
    | found found => exact Or.inr ⟨lookups, found, rfl, rfl⟩
    | throws => exact Or.inl rfl

/-! ### What may be asked -/

theorem intercalate_drop_suffix (i : Nat) (parts : List Str) :
    [dot].intercalate (parts.drop i) <:+ [dot].intercalate parts := by
  induction i generalizing parts with
  | zero => exact List.suffix_refl _
  | succ i ih =>
    cases parts with
    | nil => exact List.suffix_refl _
    | cons a l =>
      refine (ih l).trans ?_
      cases l with
      | nil => exact List.nil_suffix
      | cons b l => exact ⟨a ++ [dot], List.intercalate_cons_cons.symm⟩

/-- A host's domains are at most three of its ends, and none is a single label. -/
theorem getDomainList_spec (host : Str) :
    (getDomainList host).length ≤ 3 ∧
      ∀ domain ∈ getDomainList host, domain <:+ host ∧ dot ∈ domain := by
  refine ⟨List.length_take_le _ _, fun domain hmem => ?_⟩
  obtain ⟨i, hi, rfl⟩ := List.mem_map.mp (List.mem_of_mem_take hmem)
  rw [List.mem_range] at hi
  constructor
  · have hsuffix := intercalate_drop_suffix i (host.splitOn dot)
    rwa [List.intercalate_splitOn] at hsuffix
  · have hlong : 2 ≤ ((host.splitOn dot).drop i).length := by
      rw [List.length_drop]
      omega
    cases hdrop : (host.splitOn dot).drop i with
    | nil => simp [hdrop] at hlong
    | cons a l =>
      cases l with
      | nil => simp [hdrop] at hlong
      | cons b l => simp [List.intercalate_cons_cons]

variable (isIP) in
/-- The questions about a host, by one who has heard so much: its SRV records, those of its
domains, and then the TSDNS servers these name and those on its domains. -/
inductive Asking (host : Str) (heard : List Heard) : Question → Prop
  | host : Asking host heard (.srv (ts3Name host))
  | domain {domain : Str} (mem : domain ∈ getDomainList host) :
      Asking host heard (.srv (tsdnsName domain))
  | named {domain server : Str} {answer : SrvAnswer} (mem : domain ∈ getDomainList host)
      (told : .srv (tsdnsName domain) answer ∈ heard)
      (names : server ∈ (srvTargets isIP answer).getD []) :
      Asking host heard (.tsdns server host)
  | direct {domain : Str} (mem : domain ∈ getDomainList host) :
      Asking host heard (.tsdns (joinHostPort isIP domain tsdnsDefaultPort) host)

def Heard.question : Heard → Question
  | .nickname name _ => .nickname name
  | .srv name _ => .srv name
  | .tsdns server host _ => .tsdns server host

def Lookup.pending (lookup : Lookup) : List Question :=
  if lookup.outcome.isNone then [lookup.question] else []

/-- The questions that are still to be answered. -/
def Wait.outstanding (host : Str) : Wait → List Question
  | .nickname => [.nickname host]
  | .srv => [.srv (ts3Name host)]
  | .tsdnsSrv domain _ => [.srv (tsdnsName domain)]
  | .tsdns lookup _ _ => [lookup.question]
  | .direct lookups => lookups.flatMap Lookup.pending

variable (isIP) in
/-- What a resolution has before it that waits. -/
def Wait.Within (host : Str) (heard : List Heard) : Wait → Prop
  | .tsdnsSrv domain domains => domain :: domains ⊆ getDomainList host
  | .tsdns _ servers domains =>
    (∀ server ∈ servers, Asking isIP host heard (.tsdns server host)) ∧
      domains ⊆ getDomainList host
  | _ => True

variable (isIP) in
/-- A turn asks what may be asked, and what it asked is answered or waited for, unless the signal
has aborted. -/
structure Turn.Orderly (signal : Option AbortReason) (host : Str) (heard : List Heard)
    (turn : Turn) : Prop where
  may : ∀ question ∈ turn.asked, Asking isIP host heard question
  waits : ∀ wait, turn.next = .waits wait →
    wait.Within isIP host heard ∧ wait.outstanding host ≠ [] ∧
      turn.asked.Perm (turn.heard.map Heard.question ++ wait.outstanding host)
  settles : signal = none → (∀ wait, turn.next ≠ .waits wait) →
    turn.asked.Perm (turn.heard.map Heard.question)
  dropped : signal = none → turn.dropped = []

theorem Turn.Orderly.of_ends (signal : Option AbortReason) {heard : List Heard} {next : Next}
    (hnext : ∀ wait, next ≠ .waits wait) :
    ({ next } : Turn).Orderly isIP signal host heard where
  may _ hmem := absurd hmem List.not_mem_nil
  waits wait hwait := absurd hwait (hnext wait)
  settles _ _ := List.Perm.refl _
  dropped _ := rfl

/-- Once the signal has aborted, what is asked need not be waited for. -/
theorem Turn.Orderly.of_aborted {reason : AbortReason} {heard : List Heard} {turn : Turn}
    (hmay : ∀ question ∈ turn.asked, Asking isIP host heard question)
    (hnext : ∀ wait, turn.next ≠ .waits wait) : turn.Orderly isIP (some reason) host heard where
  may := hmay
  waits wait hwait := absurd hwait (hnext wait)
  settles hnone := by cases hnone
  dropped hnone := by cases hnone

theorem Asking.mono {heard heard' : List Heard} {question : Question}
    (h : Asking isIP host heard question) (hsub : heard ⊆ heard') :
    Asking isIP host heard' question := by
  cases h with
  | host => exact .host
  | domain mem => exact .domain mem
  | named mem told names => exact .named mem (hsub told) names
  | direct mem => exact .direct mem

theorem Wait.Within.mono {heard heard' : List Heard} {wait : Wait}
    (h : wait.Within isIP host heard) (hsub : heard ⊆ heard') : wait.Within isIP host heard' := by
  cases wait with
  | tsdns lookup servers domains => exact ⟨fun server hs => (h.1 server hs).mono hsub, h.2⟩
  | _ => exact h

/-- A lookup that is made is asked for, and it is over at once or waited for. -/
theorem start_dialled (isIP : Str → Nat) (server host : Str) :
    (Lookup.start isIP none server host).dialled =
      (Lookup.start isIP none server host).told.map Heard.question ++
        (Lookup.start isIP none server host).pending := by
  rcases Lookup.start_cases isIP none server host with ⟨reason, hsome, -⟩ | ⟨-, -, hs⟩ | ⟨-, -, hs⟩
  · cases hsome
  · rw [Lookup.dialled, Lookup.told, Lookup.pending, Lookup.outcome, hs]
    rfl
  · rw [Lookup.dialled, Lookup.told, Lookup.pending, Lookup.outcome, hs]
    rfl

theorem mem_dialled {lookup : Lookup} {question : Question} (h : question ∈ lookup.dialled) :
    question = lookup.question := by
  rw [Lookup.dialled] at h
  split at h
  · cases h
  · exact List.mem_singleton.mp h

/-- Where not all have answered, one of them is waited for. -/
theorem directAnswered_waits {signal : Option AbortReason} {lookups : List Lookup} {wait : Wait}
    (h : directAnswered isIP signal host port lookups = .waits wait) :
    wait = .direct lookups ∧ wait.outstanding host ≠ [] := by
  rw [directAnswered] at h
  split at h
  · dsimp only at h
    split at h
    · cases h
    · split at h
      · cases h
      · cases h
  · rename_i hnot
    obtain rfl := Next.waits.inj h
    refine ⟨rfl, fun hnil => hnot ?_⟩
    rw [Wait.outstanding, List.flatMap_eq_nil_iff] at hnil
    rw [List.all_eq_true]
    intro lookup hlookup
    have hpending := hnil lookup hlookup
    rw [Lookup.pending] at hpending
    cases hended : lookup.outcome with
    | none =>
      rw [hended] at hpending
      cases hpending
    | some outcome => rfl

/-- Where all have answered, none is waited for. -/
theorem directAnswered_settles {signal : Option AbortReason} {lookups : List Lookup}
    (h : ∀ wait, directAnswered isIP signal host port lookups ≠ .waits wait) :
    lookups.flatMap Lookup.pending = [] := by
  by_cases hall : (lookups.all fun lookup => lookup.outcome.isSome) = true
  · rw [List.flatMap_eq_nil_iff]
    intro lookup hlookup
    have hended := List.all_eq_true.mp hall lookup hlookup
    rw [Lookup.pending, if_neg]
    rw [Option.isNone_iff_eq_none, ← Option.not_isSome_iff_eq_none, not_not]
    exact hended
  · exact absurd (if_neg hall) (h (.direct lookups))

theorem resolveTSDNSDirect_orderly (signal : Option AbortReason) (heard : List Heard) :
    (resolveTSDNSDirect isIP signal host port).Orderly isIP signal host heard := by
  have hsplit : (directLookups isIP none host).flatMap Lookup.dialled =
      (directLookups isIP none host).flatMap fun lookup =>
        lookup.told.map Heard.question ++ lookup.pending := by
    refine List.flatMap_congr fun lookup hlookup => ?_
    obtain ⟨domain, -, rfl⟩ := List.mem_map.mp hlookup
    exact start_dialled isIP _ host
  have hperm : (resolveTSDNSDirect isIP none host port).asked.Perm
      ((resolveTSDNSDirect isIP none host port).heard.map Heard.question ++
        (directLookups isIP none host).flatMap Lookup.pending) := by
    rw [resolveTSDNSDirect, List.map_flatMap]
    dsimp only
    rw [hsplit]
    exact (List.flatMap_append_perm _ _ _).symm
  refine ⟨fun question hmem => ?_, fun wait hwait => ?_, fun hnone hsettles => ?_, fun _ => rfl⟩
  · obtain ⟨lookup, hlookup, hdialled⟩ := List.mem_flatMap.mp hmem
    obtain ⟨domain, hdomain, rfl⟩ := List.mem_map.mp hlookup
    obtain rfl := mem_dialled hdialled
    exact .direct hdomain
  · cases signal with
    | some reason =>
      rw [resolveTSDNSDirect_aborted] at hwait
      cases hwait
    | none =>
      obtain ⟨rfl, hne⟩ := directAnswered_waits hwait
      exact ⟨trivial, hne, hperm⟩
  · subst hnone
    rwa [directAnswered_settles hsettles, List.append_nil] at hperm

theorem resolveTSDNSSRV_orderly (signal : Option AbortReason) (heard : List Heard)
    {domains : List Str} (hdomains : domains ⊆ getDomainList host) :
    (resolveTSDNSSRV isIP signal host port domains).Orderly isIP signal host heard := by
  cases signal with
  | some reason =>
    refine .of_aborted (fun question hmem => ?_) fun wait hwait => ?_
    · rw [(resolveTSDNSSRV_aborted_asks isIP host port reason domains).1] at hmem
      obtain ⟨domain, hdomain, rfl⟩ := List.mem_map.mp hmem
      exact .domain (hdomains hdomain)
    · rw [resolveTSDNSSRV_aborted] at hwait
      cases hwait
  | none =>
    cases domains with
    | nil => exact resolveTSDNSDirect_orderly none heard
    | cons domain domains =>
      refine ⟨fun question hmem => ?_, fun wait hwait => ?_, fun _ h => absurd rfl (h _),
        fun _ => rfl⟩
      · obtain rfl := List.mem_singleton.mp hmem
        exact .domain (hdomains List.mem_cons_self)
      · obtain rfl := Next.waits.inj hwait
        exact ⟨hdomains, List.cons_ne_nil _ _, List.Perm.refl _⟩

theorem askServers_orderly (signal : Option AbortReason) {heard : List Heard}
    {domains servers : List Str} (hdomains : domains ⊆ getDomainList host)
    (hservers : ∀ server ∈ servers, Asking isIP host heard (.tsdns server host)) :
    (askServers isIP signal host port domains servers).Orderly isIP signal host heard := by
  cases signal with
  | some reason =>
    refine .of_aborted (fun question hmem => ?_) fun wait hwait => ?_
    · rw [(askServers_aborted_asks isIP host port reason domains servers).1] at hmem
      obtain ⟨domain, hdomain, rfl⟩ := List.mem_map.mp hmem
      exact .domain (hdomains hdomain)
    · rw [askServers_aborted] at hwait
      cases hwait
  | none =>
    induction servers with
    | nil => exact resolveTSDNSSRV_orderly none heard hdomains
    | cons server servers ih =>
      have hserver := hservers server List.mem_cons_self
      have hrest := ih fun s hs => hservers s (List.mem_cons_of_mem _ hs)
      have hdialled := start_dialled isIP server host
      have hmay : ∀ question ∈ (Lookup.start isIP none server host).dialled,
          Asking isIP host heard question := by
        intro question hmem
        obtain rfl := mem_dialled hmem
        exact hserver
      rw [askServers]
      cases hended : (Lookup.start isIP none server host).outcome with
      | none =>
        have hpending : (Lookup.start isIP none server host).pending =
            [(Lookup.start isIP none server host).question] := by
          rw [Lookup.pending, hended]
          rfl
        have htold : (Lookup.start isIP none server host).told = [] := by
          rw [Lookup.told, hended]
        refine ⟨hmay, fun wait hwait => ?_, fun _ h => absurd rfl (h _), fun _ => rfl⟩
        obtain rfl := Next.waits.inj hwait
        refine ⟨⟨fun s hs => hservers s (List.mem_cons_of_mem _ hs), hdomains⟩,
          List.cons_ne_nil _ _, ?_⟩
        rw [htold, hpending] at hdialled
        dsimp only
        rw [if_neg (by simp)]
        exact List.Perm.of_eq hdialled
      | some outcome =>
        have hpending : (Lookup.start isIP none server host).pending = [] := by
          rw [Lookup.pending, hended]
          rfl
        rw [hpending, List.append_nil] at hdialled
        dsimp only
        rw [if_pos (by simp), tsdnsAnswered_eq hended]
        split
        · refine ⟨fun question hmem => ?_, fun wait hwait => (by cases hwait), fun _ _ => ?_,
            fun _ => rfl⟩
          · exact hmay question (by simpa using hmem)
          · dsimp only
            rw [List.append_nil]
            exact List.Perm.of_eq hdialled
        · refine ⟨fun question hmem => ?_, fun wait hwait => ?_, fun hnone hsettles => ?_,
            hrest.dropped⟩
          · exact (List.mem_append.mp hmem).elim (hmay question) (hrest.may question)
          · obtain ⟨hwithin, hne, hperm⟩ := hrest.waits wait hwait
            refine ⟨hwithin, hne, ?_⟩
            dsimp only
            rw [List.map_append, hdialled, List.append_assoc]
            exact hperm.append_left _
          · dsimp only
            rw [List.map_append, hdialled]
            exact (hrest.settles hnone hsettles).append_left _

theorem srvAnswered_orderly (signal : Option AbortReason) (heard : List Heard)
    (answer : SrvAnswer) :
    (srvAnswered isIP signal host port answer).Orderly isIP signal host heard := by
  rw [srvAnswered]
  split
  · exact .of_ends signal fun _ => Next.noConfusion
  · exact resolveTSDNSSRV_orderly signal heard (List.Subset.refl _)

theorem resolveHost_orderly (signal : Option AbortReason) (heard : List Heard) :
    (resolveHost isIP signal host port).Orderly isIP signal host heard := by
  cases signal with
  | none =>
    refine ⟨fun question hmem => ?_, fun wait hwait => ?_, fun _ h => absurd rfl (h _),
      fun _ => rfl⟩
    · obtain rfl := List.mem_singleton.mp hmem
      exact .host
    · obtain rfl := Next.waits.inj hwait
      exact ⟨trivial, List.cons_ne_nil _ _, List.Perm.refl _⟩
  | some reason =>
    have hrest : (resolveTSDNSSRV isIP (some reason) host port (getDomainList host)).Orderly isIP
        (some reason) host heard :=
      resolveTSDNSSRV_orderly _ heard (List.Subset.refl _)
    refine .of_aborted (fun question hmem => ?_) fun wait hwait => ?_
    · rcases List.mem_cons.mp hmem with rfl | hmem
      · exact .host
      · exact hrest.may question hmem
    · have hnext : (resolveTSDNSSRV isIP (some reason) host port (getDomainList host)).next =
          .waits wait := hwait
      rw [resolveTSDNSSRV_aborted] at hnext
      cases hnext

/-! ### In turn -/

variable (isIP) in
/-- The nickname of an address, which is asked for where that is allowed. -/
def nicknameOf (inputAddr : Str) : Str := (splitHostPort isIP inputAddr).host

variable (isIP) in
/-- What a resolution may ask: about the host it looks for, or for its nickname if the service is
asked at all. -/
def Request.May (nicknameLookup : Bool) (q : Request) (question : Question) : Prop :=
  Asking isIP (q.target isIP).host q.heard question ∨
    asksNickname nicknameLookup (nicknameOf isIP q.inputAddr) = true ∧
      question = .nickname (nicknameOf isIP q.inputAddr)

variable (isIP) in
/-- **A resolution asks what it may, and waits for what it asked**: as long as it waits each question
is answered, or it is one that the resolution waits for, and there is one.  Once it has settled each
is answered, and no lookup is left to itself, unless the signal has aborted. -/
structure Resolution.InTurn (nicknameLookup : Bool) (t : Resolution) : Prop where
  may : ∀ question ∈ t.asked, t.May isIP nicknameLookup question
  waits : ∀ wait, t.phase = .waits wait →
    wait.Within isIP (t.target isIP).host t.heard ∧
      wait.outstanding (t.target isIP).host ≠ [] ∧
      t.asked.Perm (t.heard.map Heard.question ++ wait.outstanding (t.target isIP).host)
  settled : ∀ result, t.phase = .settled result → t.signal = none →
    t.asked.Perm (t.heard.map Heard.question)
  dropped : t.signal = none → t.dropped = []

variable {nicknameLookup : Bool}

theorem Request.May.mono {q q' : Request} {question : Question}
    (h : q.May isIP nicknameLookup question) (hinput : q'.inputAddr = q.inputAddr)
    (haddress : q'.address = q.address) (hsub : q.heard ⊆ q'.heard) :
    q'.May isIP nicknameLookup question := by
  rw [Request.May, Request.target] at h ⊢
  rw [hinput, haddress]
  exact h.imp_left fun h => h.mono hsub

/-- A turn after which a resolution waits for what it should. -/
theorem inTurn_after {r : Resolver} {q : Request} {turn : Turn}
    (hmay : ∀ question ∈ q.asked, q.May isIP nicknameLookup question)
    (hturn : ∀ question ∈ turn.asked,
      Asking isIP (q.target isIP).host (q.heard ++ turn.heard) question)
    (hdropped : q.signal = none → q.dropped = [] ∧ turn.dropped = [])
    (hwaits : ∀ wait, turn.next = .waits wait →
      wait.Within isIP (q.target isIP).host (q.heard ++ turn.heard) ∧
        wait.outstanding (q.target isIP).host ≠ [] ∧
        (q.asked ++ turn.asked).Perm
          ((q.heard ++ turn.heard).map Heard.question ++ wait.outstanding (q.target isIP).host))
    (hsettles : q.signal = none → (∀ wait, turn.next ≠ .waits wait) →
      (q.asked ++ turn.asked).Perm ((q.heard ++ turn.heard).map Heard.question)) :
    (r.after isIP q turn).InTurn isIP nicknameLookup := by
  refine ⟨fun question hmem => ?_, fun wait hphase => ?_, fun result hphase hsignal => ?_,
    fun hsignal => ?_⟩
  · rcases List.mem_append.mp hmem with hmem | hmem
    · exact (hmay question hmem).mono rfl rfl (List.subset_append_left _ _)
    · exact Or.inl (hturn question hmem)
  · have hafter : r.phaseAfter isIP q turn.next = .waits wait := hphase
    refine hwaits wait ?_
    cases hnext : turn.next with
    | waits wait' =>
      rw [hnext] at hafter
      exact congrArg Next.waits (Phase.waits.inj hafter)
    | answers addrs =>
      rw [hnext] at hafter
      cases hafter
    | found found =>
      rw [hnext] at hafter
      cases hafter
    | throws =>
      rw [hnext] at hafter
      cases hafter
  · have hafter : r.phaseAfter isIP q turn.next = .settled result := hphase
    refine hsettles hsignal fun wait hnext => ?_
    rw [hnext] at hafter
    cases hafter
  · obtain ⟨hq, hturn⟩ := hdropped hsignal
    have hnil : q.dropped ++ turn.dropped = [] := by rw [hq, hturn, List.append_nil]
    exact hnil

/-- The same, where all that was asked before has been answered. -/
theorem inTurn_orderly {r : Resolver} {q : Request} {turn : Turn}
    (hmay : ∀ question ∈ q.asked, q.May isIP nicknameLookup question)
    (hdropped : q.signal = none → q.dropped = [])
    (hanswered : q.asked.Perm (q.heard.map Heard.question))
    (hturn : turn.Orderly isIP q.signal (q.target isIP).host (q.heard ++ turn.heard)) :
    (r.after isIP q turn).InTurn isIP nicknameLookup := by
  refine inTurn_after hmay hturn.may (fun hsignal => ⟨hdropped hsignal, hturn.dropped hsignal⟩)
    (fun wait hwait => ?_) fun hnone hsettles => ?_
  · obtain ⟨hwithin, hne, hperm⟩ := hturn.waits wait hwait
    refine ⟨hwithin, hne, ?_⟩
    rw [List.map_append, List.append_assoc]
    exact hanswered.append hperm
  · rw [List.map_append]
    exact hanswered.append (hturn.settles hnone hsettles)

/-- The same, where nothing more is asked. -/
theorem Resolution.InTurn.asks_nothing {r : Resolver} {t : Resolution} {turn : Turn}
    (h : t.InTurn isIP nicknameLookup) (hasked : turn.asked = []) (hdropped : turn.dropped = [])
    (hwaits : ∀ wait, turn.next = .waits wait →
      wait.Within isIP (t.target isIP).host (t.heard ++ turn.heard) ∧
        wait.outstanding (t.target isIP).host ≠ [] ∧
        t.asked.Perm
          ((t.heard ++ turn.heard).map Heard.question ++ wait.outstanding (t.target isIP).host))
    (hsettles : (∀ wait, turn.next ≠ .waits wait) →
      t.asked.Perm ((t.heard ++ turn.heard).map Heard.question)) :
    (r.after isIP t.toRequest turn).InTurn isIP nicknameLookup := by
  refine inTurn_after h.may (fun question hmem => ?_) (fun hnone => ⟨h.dropped hnone, hdropped⟩)
    (fun wait hwait => ?_) fun _ hnext => ?_
  · rw [hasked] at hmem
    exact absurd hmem List.not_mem_nil
  · rw [hasked, List.append_nil]
    exact hwaits wait hwait
  · rw [hasked, List.append_nil]
    exact hsettles hnext

/-- The socket at an index hears something: what its server says then is no longer waited for. -/
theorem pending_modify (decode : Bytes → Str) (q : Request) (lookups : List Lookup) (index : Nat)
    (e : SocketEvent) :
    (lookups.flatMap Lookup.pending).Perm
      ((q.directEvent isIP decode lookups index e).heard.map Heard.question ++
        (lookups.modify index fun lookup => lookup.step decode e).flatMap Lookup.pending) := by
  have hheard : (q.directEvent isIP decode lookups index e).heard =
      if (lookups[index]?).any fun lookup => lookup.outcome.isNone then
        (((lookups.modify index fun lookup => lookup.step decode e)[index]?).map
          Lookup.told).getD []
      else [] := rfl
  rw [hheard]
  induction lookups generalizing index with
  | nil => simp
  | cons lookup lookups ih =>
    cases index with
    | succ index =>
      simp only [List.modify_succ_cons, List.getElem?_cons_succ, List.flatMap_cons]
      refine ((ih index rfl).append_left _).trans ?_
      rw [← List.append_assoc, ← List.append_assoc]
      exact List.perm_append_comm.append_right _
    | zero =>
      simp only [List.modify_zero_cons, List.getElem?_cons_zero, List.flatMap_cons]
      have hquestion := Lookup.question_step decode lookup e
      obtain ⟨hserver, hhost⟩ := Lookup.step_names decode lookup e
      cases hended : lookup.outcome with
      | some outcome =>
        have hpending : (lookup.step decode e).pending = lookup.pending := by
          rw [Lookup.pending, Lookup.pending, hended, Lookup.outcome_step hended]
          rfl
        rw [hpending]
        simp [hended]
      | none =>
        cases hnow : (lookup.step decode e).outcome with
        | none => simp [hended, hnow, Lookup.pending, Lookup.told, hquestion]
        | some outcome =>
          simp [hended, hnow, Lookup.pending, Lookup.told, Heard.question, Lookup.question,
            hserver, hhost]

theorem resolveAddress_orderly (signal : Option AbortReason) (heard : List Heard) (address : Str)
    (cached : Option (List ResolvedAddr)) :
    (resolveAddress isIP signal false address cached).Orderly isIP signal
      (splitHostPort isIP address).host heard := by
  cases cached with
  | some addrs => exact .of_ends signal fun _ => Next.noConfusion
  | none =>
    rw [resolveAddress]
    dsimp only
    split
    · exact .of_ends signal fun _ => Next.noConfusion
    · have hno : ¬asksNickname false (splitHostPort isIP address).host = true := by
        simp [asksNickname]
      rw [if_neg hno]
      exact resolveHost_orderly signal heard

theorem left_subset {heard : List Heard} {wait : Wait} (h : wait.Within isIP host heard) :
    wait.left host ⊆ getDomainList host := by
  cases wait with
  | nickname => exact List.nil_subset _
  | srv => exact List.Subset.refl _
  | tsdnsSrv domain domains => exact fun d hd => h (List.mem_cons_of_mem _ hd)
  | tsdns lookup servers domains => exact h.2
  | direct lookups => exact List.nil_subset _

theorem Resolution.InTurn.nickname {t : Resolution} {kept : Str → List ResolvedAddr → Prop}
    {q : Request} (h : t.InTurn isIP nicknameLookup) (hphase : t.phase = .waits .nickname)
    (hsound : (Next.waits .nickname).Sound isIP nicknameLookup kept t.toRequest)
    (hq : q.asked = t.asked) (hinput : q.inputAddr = t.inputAddr) :
    ∀ question ∈ q.asked, q.May isIP nicknameLookup question := by
  cases hsound with
  | follows led name follows signal => exact absurd rfl follows.1
  | asks address heard name asks =>
    obtain ⟨-, -, hperm⟩ := h.waits .nickname hphase
    rw [heard] at hperm
    have hasked : t.asked = [.nickname (t.target isIP).host] := List.perm_singleton.mp hperm
    intro question hmem
    rw [hq, hasked] at hmem
    obtain rfl := List.mem_singleton.mp hmem
    refine Or.inr ?_
    rw [hinput, nicknameOf, ← address]
    exact ⟨asks, rfl⟩

/-- An abort leaves nothing to wait for, and asks about the domains left. -/
theorem abort_inTurn {decode : Bytes → Str} {cache : Str → Option (List ResolvedAddr)}
    {kept : Str → List ResolvedAddr → Prop} {r : Resolver} {t : Resolution} {q : Request}
    {wait : Wait} {cause : AbortReason} {turn : Turn} (h : t.InTurn isIP nicknameLookup)
    (hphase : t.phase = .waits wait) (hne : wait ≠ .nickname)
    (hsound : (Next.waits wait).Sound isIP nicknameLookup kept t.toRequest)
    (hreact : t.toRequest.react isIP decode cache wait (.abort cause) = some (q, turn)) :
    (r.after isIP q turn).InTurn isIP nicknameLookup := by
  obtain ⟨-, -, hsignal, hwaitSound, -⟩ := hsound.waiting hne
  obtain ⟨turn', hturn', hasked, -, hnext⟩ := react_abort decode cache hne hsignal hwaitSound cause
  obtain ⟨rfl, rfl⟩ := Prod.mk.inj (Option.some.inj (hreact.symm.trans hturn'))
  refine inTurn_after (fun question hmem => h.may question hmem) (fun question hmem => ?_)
    (fun hnone => ?_) (fun wait hwait => ?_) fun hnone _ => ?_
  · rw [hasked] at hmem
    obtain ⟨domain, hdomain, rfl⟩ := List.mem_map.mp hmem
    exact .domain (left_subset (h.waits _ hphase).1 hdomain)
  · rw [abort_signal hsignal] at hnone
    cases hnone
  · rcases hnext with hthrows | ⟨lookups, found, -, hfound⟩
    · rw [hthrows] at hwait
      cases hwait
    · rw [hfound] at hwait
      cases hwait
  · rw [abort_signal hsignal] at hnone
    cases hnone

/-- **Whatever happens that a resolution waits for**, it stays in turn. -/
theorem react_inTurn {decode : Bytes → Str} {cache : Str → Option (List ResolvedAddr)}
    {kept : Str → List ResolvedAddr → Prop} {r : Resolver} {t : Resolution} {q : Request}
    {wait : Wait} {reply : Reply} {turn : Turn} (h : t.InTurn isIP nicknameLookup)
    (hphase : t.phase = .waits wait)
    (hsound : (Next.waits wait).Sound isIP nicknameLookup kept t.toRequest)
    (hreact : t.toRequest.react isIP decode cache wait reply = some (q, turn)) :
    (r.after isIP q turn).InTurn isIP nicknameLookup := by
  obtain ⟨hwithin, -, hperm⟩ := h.waits wait hphase
  -- what is heard of now was the only question left
  have hanswered : ∀ heard : Heard, wait.outstanding (t.target isIP).host = [heard.question] →
      t.asked.Perm ((t.heard ++ [heard]).map Heard.question) := by
    intro heard hout
    rw [hout] at hperm
    rw [List.map_append]
    exact hperm
  have hmay : ∀ heard : Heard, ∀ question ∈ t.asked, Request.May isIP nicknameLookup
      { t.toRequest with heard := t.heard ++ [heard] } question := fun heard question hmem =>
    (h.may question hmem).mono rfl rfl (List.subset_append_left _ _)
  cases Request.reacts_of_react hreact with
  | nickname response =>
    rw [Request.nicknameAnswered]
    dsimp only
    split
    · exact inTurn_orderly (h.nickname hphase hsound rfl rfl) h.dropped
        (hanswered (.nickname _ _) rfl) (.of_ends _ fun _ => Next.noConfusion)
    · split
      · rename_i nickAddr hanswer
        exact inTurn_orderly (h.nickname hphase hsound rfl rfl) h.dropped
          (hanswered (.nickname _ _) rfl) (resolveAddress_orderly _ _ nickAddr _)
      · exact inTurn_orderly (h.nickname hphase hsound rfl rfl) h.dropped
          (hanswered (.nickname _ _) rfl) (resolveHost_orderly _ _)
  | nicknameAborted cause =>
    refine inTurn_after (h.nickname hphase hsound rfl rfl) (fun question hmem => ?_)
      (fun hsignal => ?_) (fun wait hwait => ?_) fun _ h => absurd rfl (h _)
    · exact absurd hmem List.not_mem_nil
    · refine ⟨h.dropped ?_, rfl⟩
      cases hs : t.signal with
      | none => rfl
      | some reason => simp [Request.abort, hs] at hsignal
    · obtain rfl := Next.waits.inj hwait
      refine ⟨trivial, List.cons_ne_nil _ _, ?_⟩
      simp only [List.append_nil]
      exact hperm
  | srv answer =>
    exact inTurn_orderly (hmay _) h.dropped (hanswered (.srv _ answer) rfl)
      (srvAnswered_orderly _ _ answer)
  | srvAborted cause => exact abort_inTurn h hphase Wait.noConfusion hsound hreact
  | domain domain domains answer =>
    refine inTurn_orderly (hmay _) h.dropped (hanswered (.srv _ answer) rfl) ?_
    refine askServers_orderly _ (fun d hd => hwithin (List.mem_cons_of_mem _ hd)) ?_
    intro server hserver
    refine .named (hwithin List.mem_cons_self) ?_ hserver
    exact List.mem_append_left _ (List.mem_append_right _ (List.mem_singleton_self _))
  | domainAborted domain domains cause =>
    exact abort_inTurn h hphase Wait.noConfusion hsound hreact
  | @server lookup servers domains index e outcome ended =>
    obtain ⟨hserver, hhost⟩ := Lookup.step_names decode lookup e
    have htold : (lookup.step decode e).told.map Heard.question = [lookup.question] := by
      rw [Lookup.told, ended, Lookup.question, ← hserver, ← hhost]
      rfl
    rw [tsdnsAnswered_eq ended]
    split
    · refine h.asks_nothing rfl rfl (fun wait hwait => (by cases hwait)) fun _ => ?_
      rw [List.map_append, htold]
      exact hperm
    · have hrest : (askServers isIP t.signal (t.target isIP).host (t.target isIP).port domains
          servers).Orderly isIP t.signal (t.target isIP).host
          (t.heard ++ ((lookup.step decode e).told ++ (askServers isIP t.signal
            (t.target isIP).host (t.target isIP).port domains servers).heard)) :=
        askServers_orderly _ hwithin.2
          fun server hs => (hwithin.1 server hs).mono (List.subset_append_left _ _)
      refine inTurn_after (fun question hmem => h.may question hmem) hrest.may
        (fun hnone => ⟨h.dropped hnone, hrest.dropped hnone⟩) (fun wait hwait => ?_)
        fun hnone hsettles => ?_
      · obtain ⟨hwithin', hne', hperm'⟩ := hrest.waits wait hwait
        refine ⟨hwithin', hne', ?_⟩
        dsimp only
        rw [List.map_append, List.map_append, htold, List.append_assoc, List.append_assoc,
          ← List.append_assoc]
        exact hperm.append hperm'
      · dsimp only
        rw [List.map_append, List.map_append, htold, ← List.append_assoc]
        exact hperm.append (hrest.settles hnone hsettles)
  | @reading lookup servers domains index e still =>
    refine h.asks_nothing rfl rfl (fun wait hwait => ?_) fun h => absurd rfl (h _)
    obtain rfl := Next.waits.inj hwait
    refine ⟨hwithin.mono (List.subset_append_left _ _), List.cons_ne_nil _ _, ?_⟩
    rw [Wait.outstanding, Lookup.question_step]
    simp only [List.append_nil]
    exact hperm
  | serverAborted lookup servers domains cause =>
    exact abort_inTurn h hphase Wait.noConfusion hsound hreact
  | direct lookups index e =>
    have hpending : (lookups.flatMap Lookup.pending).Perm
        ((t.directEvent isIP decode lookups index e).heard.map Heard.question ++
          (lookups.modify index fun lookup => lookup.step decode e).flatMap Lookup.pending) :=
      pending_modify decode t.toRequest lookups index e
    have hmodify := hperm.trans (hpending.append_left _)
    rw [← List.append_assoc, ← List.map_append] at hmodify
    refine h.asks_nothing rfl rfl (fun wait hwait => ?_) fun hsettles => ?_
    · obtain ⟨rfl, hne'⟩ := directAnswered_waits hwait
      exact ⟨trivial, hne', hmodify⟩
    · rwa [directAnswered_settles hsettles, List.append_nil] at hmodify
  | directAborted lookups cause => exact abort_inTurn h hphase Wait.noConfusion hsound hreact

end

namespace Resolver

variable {isIP : Str → Nat} {decode : Bytes → Str} {nicknameLookup : Bool}

/-- A resolution starts in turn. -/
theorem resolve_inTurn (r : Resolver) (inputAddr : Str) (aborted : Option Nat) :
    (r.after isIP
      { inputAddr, address := inputAddr, caller := aborted, signal := aborted.map .caller }
      (resolveAddress isIP (aborted.map .caller) nicknameLookup inputAddr
        (r.getValidCache inputAddr))).InTurn isIP nicknameLookup := by
  let q : Request :=
    { inputAddr, address := inputAddr, caller := aborted, signal := aborted.map .caller }
  have horderly : ∀ {turn : Turn},
      turn.Orderly isIP q.signal (splitHostPort isIP inputAddr).host turn.heard →
      (r.after isIP q turn).InTurn isIP nicknameLookup := by
    intro turn hturn
    refine inTurn_orderly (fun question hmem => absurd hmem List.not_mem_nil) (fun _ => rfl)
      (List.Perm.refl _) ?_
    exact hturn
  cases r.getValidCache inputAddr with
  | some addrs => exact horderly (resolveAddress_orderly _ _ inputAddr (some addrs))
  | none =>
    by_cases hip : isIpAddress isIP (splitHostPort isIP inputAddr).host = true
    · have heq : resolveAddress isIP (aborted.map .caller) nicknameLookup inputAddr none =
          resolveAddress isIP (aborted.map .caller) false inputAddr none := by
        rw [resolveAddress, resolveAddress]
        dsimp only
        rw [if_pos hip, if_pos hip]
      rw [heq]
      exact horderly (resolveAddress_orderly _ _ inputAddr none)
    · by_cases hask : asksNickname nicknameLookup (splitHostPort isIP inputAddr).host = true
      · have heq : resolveAddress isIP (aborted.map .caller) nicknameLookup inputAddr none =
            { next := .waits .nickname
              asked := [.nickname (splitHostPort isIP inputAddr).host] } := by
          rw [resolveAddress]
          dsimp only
          rw [if_neg hip, if_pos hask]
        rw [heq]
        refine ⟨fun question hmem => ?_, fun wait hwait => ?_, fun result hresult => ?_,
          fun _ => rfl⟩
        · obtain rfl := List.mem_singleton.mp hmem
          exact Or.inr ⟨hask, rfl⟩
        · obtain rfl := Phase.waits.inj hwait
          exact ⟨trivial, List.cons_ne_nil _ _, List.Perm.refl _⟩
        · cases hresult
      · have hno : ¬asksNickname false (splitHostPort isIP inputAddr).host = true := by
          simp [asksNickname]
        have heq : resolveAddress isIP (aborted.map .caller) nicknameLookup inputAddr none =
            resolveAddress isIP (aborted.map .caller) false inputAddr none := by
          rw [resolveAddress, resolveAddress]
          dsimp only
          rw [if_neg hip, if_neg hip, if_neg hask, if_neg hno]
        rw [heq]
        exact horderly (resolveAddress_orderly _ _ inputAddr none)

theorem settled_stays_run {r : Resolver} {id : Nat} {t : Resolution}
    {result : Except ResolveError (List ResolvedAddr)} (ht : r.resolutions[id]? = some t)
    (hphase : t.phase = .settled result) (es : List ResolverEvent) :
    (run (step isIP decode nicknameLookup) r es).resolutions[id]? = some t :=
  run_invariant (I := fun r : Resolver => r.resolutions[id]? = some t)
    (fun _ e ht => settled_stays ht hphase e) es ht

theorem reply_of_react {r : Resolver} {id : Nat} {t : Resolution} {wait : Wait} {reply : Reply}
    {q : Request} {turn : Turn} (ht : r.resolutions[id]? = some t) (hphase : t.phase = .waits wait)
    (hreact : t.toRequest.react isIP decode r.getValidCache wait reply = some (q, turn)) :
    r.reply isIP decode id reply =
      { r with
        cache := r.cacheAfter q turn.next
        resolutions := r.resolutions.set id (r.after isIP q turn) } := by
  rw [Resolver.reply, ht]
  dsimp only
  rw [hphase]
  dsimp only
  rw [hreact]

theorem honest_run (es : List ResolverEvent) :
    (run (step isIP decode nicknameLookup) {} es).Honest isIP nicknameLookup :=
  run_invariant (I := fun r : Resolver => r.Honest isIP nicknameLookup)
    (fun _ e h => honest_step h e) es honest_empty

/-- One step of one of the resolutions leaves them all in turn. -/
theorem step_inTurn {r : Resolver} (honest : r.Honest isIP nicknameLookup)
    (h : ∀ t ∈ r.resolutions, t.InTurn isIP nicknameLookup) (e : ResolverEvent) :
    ∀ t ∈ (r.step isIP decode nicknameLookup e).resolutions, t.InTurn isIP nicknameLookup := by
  generalize hstep : r.step isIP decode nicknameLookup e = r'
  cases steps_of_step hstep with
  | clock now => exact h
  | invalid empty =>
    intro t ht
    rcases List.mem_append.mp ht with ht | ht
    · exact h t ht
    · obtain rfl := List.mem_singleton.mp ht
      refine ⟨fun question hmem => absurd hmem List.not_mem_nil, fun wait hwait => ?_,
        fun _ _ _ => List.Perm.refl _, fun _ => rfl⟩
      cases hwait
  | @begun inputAddr aborted q turn given request begins =>
    subst request begins
    intro t ht
    rcases List.mem_append.mp ht with ht | ht
    · exact h t ht
    · obtain rfl := List.mem_singleton.mp ht
      exact resolve_inTurn r inputAddr aborted
  | missed id reply => exact h
  | @reacted id reply t wait q turn at_id waits reacts =>
    have hmem : t ∈ r.resolutions := List.mem_of_getElem? at_id
    have hsound := honest.pursues t hmem
    rw [Resolution.Pursues, waits] at hsound
    intro t' ht'
    rcases List.mem_or_eq_of_mem_set ht' with ht' | rfl
    · exact h t' ht'
    · exact react_inTurn (h t hmem) waits hsound reacts

variable (isIP nicknameLookup) in
/-- All the resolutions are in turn. -/
def AllInTurn (r : Resolver) : Prop := ∀ t ∈ r.resolutions, t.InTurn isIP nicknameLookup

end Resolver

/-- **A resolution asks what it may, and waits for what it asked**, whatever happens: of nobody but
the services its address leads to, of the nickname service only where that is allowed, with a
question still open as long as it waits, and none once it has settled unless it was aborted. -/
theorem asks_permitted (isIP : Str → Nat) (decode : Bytes → Str) (nicknameLookup : Bool)
    (es : List ResolverEvent) :
    (run (Resolver.step isIP decode nicknameLookup) {} es).AllInTurn isIP nicknameLookup :=
  (run_invariant
    (I := fun r : Resolver => r.Honest isIP nicknameLookup ∧ r.AllInTurn isIP nicknameLookup)
    (fun _ e h => ⟨Resolver.honest_step h.1 e, Resolver.step_inTurn h.1 h.2 e⟩) es
    ⟨Resolver.honest_empty, fun _ ht => absurd ht List.not_mem_nil⟩).2

/-- What a resolution comes to where an abort leaves it nothing. -/
def Request.abandoned (isIP : Str → Nat) (q : Request) :
    AbortReason → Except ResolveError (List ResolvedAddr)
  | .caller reason => .error (.aborted reason)
  | .budget => .ok (q.asGiven isIP)

/-- **An abort settles a resolution at once and for good**, unless it waits for the nickname
service: with the caller's reason, or with the address as given past the budget, or with addresses
if it waited for the servers on its domains.  All that it asks from then on are the SRV lookups of
the domains left, and nobody handles what comes of them. -/
theorem aborts_settle (isIP : Str → Nat) (decode : Bytes → Str) (nicknameLookup : Bool)
    (es : List ResolverEvent) (id : Nat) (t : Resolution) (wait : Wait) (cause : AbortReason)
    (ht : (run (Resolver.step isIP decode nicknameLookup) {} es).resolutions[id]? = some t)
    (hphase : t.phase = .waits wait) (hwait : wait ≠ .nickname) :
    ∃ t' : Resolution,
      (∀ fs, (run (Resolver.step isIP decode nicknameLookup) {}
        (es ++ .reply id (.abort cause) :: fs)).resolutions[id]? = some t') ∧
      t'.asked = t.asked ++
        (wait.left (t.target isIP).host).map (fun domain => .srv (tsdnsName domain)) ∧
      t'.dropped = t.dropped ++ (wait.left (t.target isIP).host).map tsdnsName ∧
      (t'.phase = .settled (t.abandoned isIP cause) ∨
        ∃ lookups addrs, wait = .direct lookups ∧ t'.phase = .settled (.ok addrs)) := by
  let r := run (Resolver.step isIP decode nicknameLookup) {} es
  have honest : r.Honest isIP nicknameLookup := Resolver.honest_run es
  have hmem : t ∈ r.resolutions := List.mem_of_getElem? ht
  have hlt : id < r.resolutions.length := (List.getElem?_eq_some_iff.mp ht).1
  have hpursues := honest.pursues t hmem
  rw [Resolution.Pursues, hphase] at hpursues
  obtain ⟨-, -, hsignal, hsound, -⟩ := Next.Sound.waiting hpursues hwait
  have hcaller : t.caller = none := (honest.heeds t hmem).1 hsignal
  obtain ⟨turn, hreact, hasked, hdropped, hnext⟩ :=
    react_abort decode r.getValidCache hwait hsignal hsound cause
  let t' : Resolution := r.after isIP (t.abort cause) turn
  have hstep : (r.step isIP decode nicknameLookup
      (.reply id (.abort cause))).resolutions[id]? = some t' := by
    rw [Resolver.step, Resolver.reply_of_react ht hphase hreact]
    exact List.getElem?_set_self hlt
  have hthrown : Resolver.thrown isIP (t.abort cause) = t.abandoned isIP cause := by
    cases cause with
    | caller reason => simp [Resolver.thrown, Request.abort, Request.abandoned, hcaller]
    | budget => simp [Resolver.thrown, Request.abort, Request.abandoned, hcaller, Request.asGiven]
  have hend : t'.phase = .settled (t.abandoned isIP cause) ∨
      ∃ lookups addrs, wait = .direct lookups ∧ t'.phase = .settled (.ok addrs) := by
    have hafter : t'.phase = r.phaseAfter isIP (t.abort cause) turn.next := rfl
    rw [hafter]
    rcases hnext with hthrows | ⟨lookups, found, hdirect, hfound⟩
    · rw [hthrows, ← hthrown]
      exact Or.inl rfl
    · rw [hfound]
      exact Or.inr ⟨lookups, _, hdirect, rfl⟩
  refine ⟨t', fun fs => ?_, congrArg (t.asked ++ ·) hasked, congrArg (t.dropped ++ ·) hdropped,
    hend⟩
  rw [run_append, run_cons]
  rcases hend with hphase' | ⟨lookups, addrs, -, hphase'⟩
  · exact Resolver.settled_stays_run hstep hphase' fs
  · exact Resolver.settled_stays_run hstep hphase' fs

/-- Of one that waits for its first SRV lookup. -/
theorem aborts_settle_early :
    ∃ t' : Resolution,
      (∀ fs, (run (Resolver.step (fun _ => 0) (List.map UInt8.toUInt16) false) {}
        ([.resolve (.of "a.b") none] ++ .reply 0 (.abort (.caller 7)) :: fs)).resolutions[0]? =
          some t') ∧
      t'.asked = [.srv (ts3Name (.of "a.b"))] ++ [.srv (tsdnsName (.of "a.b"))] ∧
      t'.dropped = [] ++ [tsdnsName (.of "a.b")] ∧
      (t'.phase = .settled (.error (.aborted 7)) ∨
        ∃ lookups addrs, Wait.srv = .direct lookups ∧ t'.phase = .settled (.ok addrs)) :=
  aborts_settle (fun _ => 0) (List.map UInt8.toUInt16) false [.resolve (.of "a.b") none] 0
    { inputAddr := .of "a.b", address := .of "a.b", asked := [.srv (ts3Name (.of "a.b"))]
      phase := .waits .srv }
    .srv (.caller 7) rfl rfl Wait.noConfusion

end Teamspeak.Client
