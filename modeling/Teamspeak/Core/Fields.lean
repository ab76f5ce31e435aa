import Teamspeak.Core.Record

/-!
# Channels and clients

The tables of `command.ts` and `parse.ts`: every field of a channel and of a client but its id, the
wire keys that carry it, and how it is read.

* `parseIconID_total`, `parseServerGroups_total`: reading an id from a row never throws.
* `changesAgree_iff`: changes applied to a parsed row are the parsed merged row exactly where every
  field follows them.
* `changes_law`: a channel or a client with changes applied.
-/

namespace Teamspeak.Records

variable {κ : Type} [DecidableEq κ]

/-! ### How fields are read -/

def str (raw : Option Str) : Option FieldValue := some (.text (strOf raw))
def num (raw : Option Str) : Option FieldValue := some (.number (numOf raw))
def optNum (raw : Option Str) : Option FieldValue := raw.bind fun raw => num (some raw)
def bool (raw : Option Str) : Option FieldValue := some (.flag (boolOf raw))
def durationMs (unitMs : Nat) (raw : Option Str) : Option FieldValue :=
  some (.number (durationOf raw unitMs))

/-- `seconds_empty`: -1 while the channel is not empty. -/
def emptyFor (raw : Option Str) : Option FieldValue :=
  match numOf raw with
  | .finite value => if value < 0 then none else durationMs second raw
  | .infinite negative => if negative then none else durationMs second raw

theorem bigOf_le (raw : Option Str) : bigOf raw ≤ maxUint64 := by
  cases raw with
  | none => exact Nat.zero_le _
  | some raw =>
    rw [bigOf]
    split_ifs <;> omega

theorem map_total {α β : Type} {read : Except RangeError α} (h : ∃ value, read = .ok value)
    (f : α → β) : ∃ value, read.map f = .ok value := by
  obtain ⟨value, h⟩ := h
  exact ⟨f value, by rw [h]; rfl⟩

/-- An id as wide as `big` reads. -/
def readId (what : String) (raw : Option Str) : Except RangeError (Option FieldValue) :=
  (uint64 (bigOf raw) what).map fun n => some (.id n)

theorem readId_total (what : String) (raw : Option Str) : ∃ value, readId what raw = .ok value :=
  map_total ⟨_, uintInRange_ok (bigOf_le raw) what⟩ _

def idSpec (key : String) (always : Bool) (what : String) : FieldSpec :=
  .one key always (readId what) (readId_total what)

theorem parseIconID_total (raw : Option Str) : ∃ value, parseIconID raw = .ok value := by
  have hite (p : Prop) [Decidable p] {read : Except RangeError (Option Nat)}
      (h : ¬ p → ∃ value, read = .ok value) :
      ∃ value, (if p then .ok none else read) = .ok value := by
    split_ifs with hp
    · exact ⟨_, rfl⟩
    · exact h hp
  rw [parseIconID]
  refine hite _ fun _ => hite _ fun hrange => ?_
  rw [asIconID, if_neg (by omega)]
  exact ⟨_, rfl⟩

def icon (key : String) (always : Bool) : FieldSpec :=
  .one key always (fun raw => (parseIconID raw).map fun id => id.map .id)
    fun raw => map_total (parseIconID_total raw) _

theorem parseServerGroups_total (raw : Str) : ∃ l, parseServerGroups raw = .ok l := by
  rw [parseServerGroups]
  split_ifs
  · exact ⟨_, rfl⟩
  · generalize raw.splitOn (unit ',') = texts
    induction texts with
    | nil => exact ⟨_, rfl⟩
    | cons s texts ih =>
      obtain ⟨l, ih⟩ := ih
      rw [List.filter_cons]
      split_ifs with hs
      · have hvalue : Str.digitsValue s ≤ maxUint64 := by
          have := (of_decide_eq_true hs).2.2
          rw [maxUint64]
          omega
        rw [List.mapM_cons, ih, asServerGroupID, uint64, uintInRange_ok hvalue]
        exact ⟨_, rfl⟩
      · exact ⟨_, ih⟩

/-! ### Channels -/

/-- A list of channels names the parent `cpid`, and a channel's own row `pid`. -/
def parentID : FieldSpec where
  keys := [.of "pid", .of "cpid"]
  keys_ne := List.cons_ne_nil _ _
  always := true
  read row _ :=
    let pid := bigOf (row.get? (.of "pid"))
    (asChannelID (if pid ≠ 0 then pid else bigOf (row.get? (.of "cpid")))).map fun n => some (.id n)
  total row _ :=
    map_total ⟨_, uintInRange_ok (by split_ifs <;> exact bigOf_le _) _⟩ _
  own row row' h _ _ := by
    rw [h _ (.head _), h _ (.tail _ (.head _))]

/-- The fields of a `Channel`. -/
inductive ChannelField
  | id | parentID | name | topic | description | order | hasPassword | isDefault | isPermanent
  | isSemiPermanent | codec | codecQuality | maxClients | maxFamilyClients | totalClients
  | totalFamilyClients | neededSubscribePower | neededTalkPower | iconID | uid
  | codecLatencyFactor | isUnencrypted | isMaxClientsUnlimited | isMaxFamilyClientsUnlimited
  | isMaxFamilyClientsInherited | deleteDelayMs | namePhonetic | isForcedSilence | bannerURL
  | bannerMode | emptyForMs | storageQuota | filePath
  deriving DecidableEq

def channelFields : Table ChannelField := [
  (.parentID, parentID),
  (.name, .plain "channel_name" str true),
  (.topic, .plain "channel_topic" str true),
  (.description, .plain "channel_description" str false),
  (.order, idSpec "channel_order" true "a channel id"),
  (.hasPassword, .plain "channel_flag_password" bool true),
  (.isDefault, .plain "channel_flag_default" bool true),
  (.isPermanent, .plain "channel_flag_permanent" bool true),
  (.isSemiPermanent, .plain "channel_flag_semi_permanent" bool true),
  (.codec, .plain "channel_codec" num true),
  (.codecQuality, .plain "channel_codec_quality" num true),
  (.maxClients, .plain "channel_maxclients" num true),
  (.maxFamilyClients, .plain "channel_maxfamilyclients" num true),
  (.totalClients, .plain "total_clients" optNum true),
  (.totalFamilyClients, .plain "total_clients_family" optNum true),
  (.neededSubscribePower, .plain "channel_needed_subscribe_power" optNum true),
  (.neededTalkPower, .plain "channel_needed_talk_power" num true),
  (.iconID, icon "channel_icon_id" true),
  (.uid, .plain "channel_unique_identifier" str true),
  (.codecLatencyFactor, .plain "channel_codec_latency_factor" num false),
  (.isUnencrypted, .plain "channel_codec_is_unencrypted" bool false),
  (.isMaxClientsUnlimited, .plain "channel_flag_maxclients_unlimited" bool false),
  (.isMaxFamilyClientsUnlimited, .plain "channel_flag_maxfamilyclients_unlimited" bool false),
  (.isMaxFamilyClientsInherited, .plain "channel_flag_maxfamilyclients_inherited" bool false),
  (.deleteDelayMs, .plain "channel_delete_delay" (durationMs second) false),
  (.namePhonetic, .plain "channel_name_phonetic" str false),
  (.isForcedSilence, .plain "channel_forced_silence" bool false),
  (.bannerURL, .plain "channel_banner_gfx_url" str false),
  (.bannerMode, .plain "channel_banner_mode" num false),
  (.emptyForMs, .plain "seconds_empty" emptyFor false),
  (.storageQuota, .plain "channel_storage_quota" num false),
  (.filePath, .plain "channel_filepath" str false)]

/-- `{ [name]: id, ...fields }`. -/
def withId (name : κ) (id : Nat) (fields : Record κ) : Record κ :=
  merge (InsertionMap.empty.set name (some (.id id))) fields

abbrev Channel := Record ChannelField

def parseChannel (row : Params) : Except RangeError Channel := do
  let id ← asChannelID (bigOf (row.get? (.of "cid")))
  let fields ← readFields channelFields row false
  return withId .id id fields

def parseChannelChanges (row : Params) : Except RangeError Channel :=
  readFields channelFields row true

def applyChannelChanges : Channel → Channel → Channel := applyChanges

/-! ### Clients -/

def text (key : String) : FieldSpec := .plain key str false
def flag (key : String) : FieldSpec := .plain key bool false

/-- A list of clients names the channel `cid`, and a client that comes into view `ctid`. -/
def channelID : FieldSpec :=
  .under [.of "cid", .of "ctid"] (List.cons_ne_nil _ _) true (readId "a channel id")
    (readId_total "a channel id")

def serverGroups : FieldSpec :=
  .one "client_servergroups" false
    (fun raw => (parseServerGroups (raw.getD [])).map fun l => some (.ids l))
    fun raw => map_total (parseServerGroups_total (raw.getD [])) _

/-- The fields of a `ClientEntry`. -/
inductive ClientField
  | id | nickname | channelID | type | uid | serverGroups | isAway | isRecording | isTalker
  | channelGroupID | createdAt | lastConnectedAt | idleTimeMs | databaseID | awayMessage
  | isInputMuted | isOutputMuted | isOutputOnlyMuted | hasInputHardware | hasOutputHardware
  | isChannelCommander | isPrioritySpeaker | talkPower | isRequestingTalk | talkRequestedAt
  | talkRequestMessage | description | metaData | avatar | iconID | nicknamePhonetic
  | unreadMessages | neededServerQueryViewPower | channelGroupInheritedChannelID | country
  | version | platform | ip | badges | signedBadges | myTeamSpeakID | myTeamSpeakAvatar
  | integrations | userTag | isStreaming
  deriving DecidableEq

def clientFields : Table ClientField := [
  (.nickname, .plain "client_nickname" str true),
  (.channelID, channelID),
  (.type, .plain "client_type" num true),
  (.uid, .plain "client_unique_identifier" str false),
  (.serverGroups, serverGroups),
  (.isAway, flag "client_away"),
  (.isRecording, flag "client_is_recording"),
  (.isTalker, flag "client_is_talker"),
  (.channelGroupID, idSpec "client_channel_group_id" false "a channel group id"),
  (.createdAt, .plain "client_created" dateOf false),
  (.lastConnectedAt, .plain "client_lastconnected" dateOf false),
  (.idleTimeMs, .plain "client_idle_time" (durationMs millisecond) false),
  (.databaseID, idSpec "client_database_id" true "a client database id"),
  (.awayMessage, text "client_away_message"),
  (.isInputMuted, flag "client_input_muted"),
  (.isOutputMuted, flag "client_output_muted"),
  (.isOutputOnlyMuted, flag "client_outputonly_muted"),
  (.hasInputHardware, flag "client_input_hardware"),
  (.hasOutputHardware, flag "client_output_hardware"),
  (.isChannelCommander, flag "client_is_channel_commander"),
  (.isPrioritySpeaker, flag "client_is_priority_speaker"),
  (.talkPower, .plain "client_talk_power" num false),
  -- when the request was made: any but 0 is one
  (.isRequestingTalk, flag "client_talk_request"),
  (.talkRequestedAt, .plain "client_talk_request" dateOf false),
  (.talkRequestMessage, text "client_talk_request_msg"),
  (.description, text "client_description"),
  (.metaData, text "client_meta_data"),
  (.avatar, text "client_flag_avatar"),
  (.iconID, icon "client_icon_id" false),
  (.nicknamePhonetic, text "client_nickname_phonetic"),
  (.unreadMessages, .plain "client_unread_messages" num false),
  (.neededServerQueryViewPower, .plain "client_needed_serverquery_view_power" num false),
  (.channelGroupInheritedChannelID,
    idSpec "client_channel_group_inherited_channel_id" false "a channel id"),
  (.country, text "client_country"),
  (.version, text "client_version"),
  (.platform, text "client_platform"),
  (.ip, text "connection_client_ip"),
  (.badges, text "client_badges"),
  (.signedBadges, text "client_signed_badges"),
  (.myTeamSpeakID, text "client_myteamspeak_id"),
  (.myTeamSpeakAvatar, text "client_myteamspeak_avatar"),
  (.integrations, text "client_integrations"),
  (.userTag, text "client_user_tag"),
  (.isStreaming, flag "client_is_streaming")]

abbrev ClientEntry := Record ClientField

def parseClient (row : Params) : Except RangeError ClientEntry := do
  let id ← asClientID (uintOf (row.get? (.of "clid")) u16)
  let fields ← readFields clientFields row false
  return withId .id id fields

def parseClientChanges (row : Params) : Except RangeError ClientEntry :=
  readFields clientFields row true

def applyClientChanges : ClientEntry → ClientEntry → ClientEntry := applyChanges

theorem uint_le (max : Nat) (value : Binary64.Double) : value.uint max ≤ max := by
  cases value with
  | infinite => exact Nat.zero_le _
  | finite value =>
    rw [Binary64.Double.uint]
    split_ifs with h
    · have hnum : (value.num : ℚ) = value := Rat.coe_int_num_of_den_eq_one h.1
      have hle : (value.num : ℚ) ≤ (max : ℤ) := by
        rw [hnum]
        exact_mod_cast h.2.2
      have := Int.cast_le.mp hle
      omega
    · exact Nat.zero_le _

/-! ### Changes -/

variable {a b : Params}

omit [DecidableEq κ] in
theorem follows_of_one_key {table : Table κ} (h : ∀ field ∈ table, field.2.keys.length = 1) :
    ∀ field ∈ table, field.2.Follows a b := by
  intro field hfield
  obtain ⟨key, hkey⟩ := List.length_eq_one_iff.mp (h field hfield)
  refine FieldSpec.follows_of_agree ?_
  rw [hkey]
  exact agree_singleton key a b

/-- The changes name the parent as a `pid` of some channel, or under every key that the row does, or
not at all. -/
def NamesParent (a b : Params) : Prop :=
  bigOf (b.get? (.of "pid")) ≠ 0 ∨ Agree [.of "pid", .of "cpid"] a b

/-- The changes name the channel as `ctid` alone only where the row has no `cid`. -/
def NamesChannel (a b : Params) : Prop :=
  a.has (.of "cid") = true → b.has (.of "ctid") = true → b.has (.of "cid") = true

theorem parentID_follows (h : NamesParent a b) : parentID.Follows a b := by
  rcases h with h | h
  · cases hpid : b.get? (.of "pid") with
    | none =>
      rw [hpid] at h
      exact absurd rfl h
    | some raw =>
      have hmerge : (merge a b).get? (.of "pid") = some raw := by rw [get?_merge, hpid]; rfl
      rw [hpid] at h
      refine FieldSpec.follows_of_head rfl (InsertionMap.has_iff.mpr ⟨raw, hpid⟩) ?_
      simp only [FieldSpec.of, parentID]
      rw [hmerge, hpid, if_pos h, if_pos h]
  · exact FieldSpec.follows_of_agree h

theorem channelID_follows (h : NamesChannel a b) : channelID.Follows a b := by
  cases hcid : b.get? (.of "cid") with
  | some raw =>
    have hmerge : (merge a b).get? (.of "cid") = some raw := by rw [get?_merge, hcid]; rfl
    refine FieldSpec.follows_of_head rfl (InsertionMap.has_iff.mpr ⟨raw, hcid⟩) ?_
    simp only [FieldSpec.of, channelID, FieldSpec.under]
    rw [hmerge, hcid]
  | none =>
    have hb : b.has (.of "cid") = false := InsertionMap.has_eq_false.mpr hcid
    refine FieldSpec.follows_of_agree ?_
    cases hctid : b.get? (.of "ctid") with
    | none =>
      refine Or.inl fun k hk => ?_
      rcases List.mem_cons.mp hk with rfl | hk
      · exact hcid
      · rw [List.mem_singleton.mp hk, hctid]
    | some raw =>
      have hhas : b.has (.of "ctid") = true := InsertionMap.has_iff.mpr ⟨raw, hctid⟩
      refine Or.inr fun k hk ha => ?_
      rcases List.mem_cons.mp hk with rfl | hk
      · exact h ha hhas
      · rwa [List.mem_singleton.mp hk]

theorem channelFields_follow (h : NamesParent a b) :
    ∀ field ∈ channelFields, field.2.Follows a b := by
  have hrest : ∀ field ∈ channelFields.tail, field.2.Follows a b := follows_of_one_key (by decide)
  intro field hfield
  rcases List.mem_cons.mp hfield with rfl | hfield
  · exact parentID_follows h
  · exact hrest field hfield

theorem clientFields_follow (h : NamesChannel a b) :
    ∀ field ∈ clientFields, field.2.Follows a b := by
  have hrest : ∀ field ∈ clientFields.eraseIdx 1, field.2.Follows a b :=
    follows_of_one_key (by decide)
  intro field hfield
  rcases List.mem_cons.mp hfield with rfl | hfield
  · exact hrest _ (.head _)
  · rcases List.mem_cons.mp hfield with rfl | hfield
    · exact channelID_follows h
    · exact hrest field (.tail _ hfield)

theorem channelFields_nodup : (.id :: channelFields.map Prod.fst).Nodup := by decide

theorem clientFields_nodup : (.id :: clientFields.map Prod.fst).Nodup := by decide

theorem value_withId {fields : Record κ} {name : κ} {id : Nat} {name' : κ} (h : name' ≠ name) :
    value (withId name id fields) name' = value fields name' := by
  rw [value, withId, get?_merge, InsertionMap.get?_set, if_neg fun heq => h heq.symm,
    InsertionMap.get?_empty, Option.or_none, value]

theorem value_withId_self {fields : Record κ} {name : κ} {id : Nat} (h : fields.get? name = none) :
    value (withId name id fields) name = some (.id id) := by
  rw [value, withId, get?_merge, h, InsertionMap.get?_set_self]
  rfl

theorem parseChannel_eq (row : Params) : parseChannel row =
    .ok (withId .id (bigOf (row.get? (.of "cid"))) (fieldsRead channelFields row false)) := by
  rw [parseChannel, asChannelID, uint64, uintInRange_ok (bigOf_le _), readFields_eq]
  rfl

theorem parseClient_eq (row : Params) : parseClient row =
    .ok (withId .id (uintOf (row.get? (.of "clid")) u16) (fieldsRead clientFields row false)) := by
  have hid : uintOf (row.get? (.of "clid")) u16 ≤ u16 := uint_le _ _
  rw [parseClient, asClientID, uintInRange_ok hid, readFields_eq]
  rfl

/-- What applying changes to a parsed row gives is what the merged row parses to. -/
def ChangesAgree (parse changes : Params → Except RangeError (Record κ))
    (apply : Record κ → Record κ → Record κ) (a b : Params) : Prop :=
  ∃ r c r', parse a = .ok r ∧ changes b = .ok c ∧ parse (merge a b) = .ok r' ∧
    ∀ name, value (apply r c) name = value r' name

/-- Changes agree exactly where they leave the id, and every field follows them. -/
theorem changesAgree_iff {parse : Params → Except RangeError (Record κ)} {name : κ}
    {idOf : Params → Nat} {table : Table κ} (hnames : (name :: table.map Prod.fst).Nodup)
    (hparse : ∀ row, parse row = .ok (withId name (idOf row) (fieldsRead table row false))) :
    ChangesAgree parse (fun row => readFields table row true) applyChanges a b ↔
      idOf a = idOf (merge a b) ∧ ∀ field ∈ table, field.2.Follows a b := by
  obtain ⟨hid, hnames⟩ := List.nodup_cons.mp hnames
  have hne {field : κ × FieldSpec} (h : field ∈ table) : field.1 ≠ name :=
    fun heq => hid (heq ▸ List.mem_map_of_mem h)
  have hself (row : Params) (id : Nat) :
      value (withId name id (fieldsRead table row false)) name = some (.id id) :=
    value_withId_self (get?_fields_of_not_mem hid _)
  have hfield (row : Params) (id : Nat) {field : κ × FieldSpec} (h : field ∈ table) :
      value (withId name id (fieldsRead table row false)) field.1 = field.2.full row := by
    rw [value_withId (hne h), value_fieldsRead hnames h]
  constructor
  · rintro ⟨r, c, r', hr, hc, hr', h⟩
    rw [hparse, Except.ok.injEq] at hr hr'
    replace hc : readFields table b true = .ok c := hc
    rw [readFields_eq, Except.ok.injEq] at hc
    subst hr hc hr'
    refine ⟨?_, fun field hmem => ?_⟩
    · have h := h name
      rw [value_unchanged hid, hself, hself] at h
      exact FieldValue.id.inj (Option.some.inj h)
    · have h := h field.1
      rw [value_changed hnames hmem (hfield a _ hmem), hfield _ _ hmem] at h
      exact h.symm
  · rintro ⟨hids, hfollows⟩
    refine ⟨_, _, _, hparse a, readFields_eq _ _ _, hparse _, fun name' => ?_⟩
    by_cases hname : name' ∈ table.map Prod.fst
    · obtain ⟨field, hmem, rfl⟩ := List.mem_map.mp hname
      rw [value_changed hnames hmem (hfield a _ hmem), hfield _ _ hmem, hfollows field hmem]
    · rw [value_unchanged hname, hids, value, value, withId, withId, get?_merge, get?_merge,
        get?_fields_of_not_mem hname, get?_fields_of_not_mem hname]

theorem channelChanges_iff :
    ChangesAgree parseChannel parseChannelChanges applyChannelChanges a b ↔
      bigOf (a.get? (.of "cid")) = bigOf ((merge a b).get? (.of "cid")) ∧
        ∀ field ∈ channelFields, field.2.Follows a b :=
  changesAgree_iff channelFields_nodup parseChannel_eq

theorem clientChanges_iff : ChangesAgree parseClient parseClientChanges applyClientChanges a b ↔
    uintOf (a.get? (.of "clid")) u16 = uintOf ((merge a b).get? (.of "clid")) u16 ∧
      ∀ field ∈ clientFields, field.2.Follows a b :=
  changesAgree_iff clientFields_nodup parseClient_eq

def rowOf (l : List (String × String)) : Params :=
  InsertionMap.empty.setAll (l.map fun e => (.of e.1, .of e.2))

/-- Changes that name another channel leave the id, and a `pid` of 0 that is put beside a `cpid`
clears what the merged row still has. -/
theorem changes_disagree :
    ¬ ChangesAgree parseChannel parseChannelChanges applyChannelChanges
      (rowOf [("cid", "1")]) (rowOf [("cid", "2")]) ∧
    ¬ ChangesAgree parseChannel parseChannelChanges applyChannelChanges
      (rowOf [("cid", "1"), ("pid", "7"), ("cpid", "7")]) (rowOf [("pid", "0")]) := by
  rw [channelChanges_iff, channelChanges_iff]
  constructor
  · rintro ⟨hid, -⟩
    exact absurd hid (by decide)
  · rintro ⟨-, hfollows⟩
    have hparent := hfollows _ (.head _)
    rw [FieldSpec.Follows] at hparent
    exact absurd hparent (by decide)

/-- **A channel or a client with changes applied** is what the merged row parses to, where the
changes name no other channel or client than the row: the id is not among the changes. -/
theorem changes_law :
    (∀ a b : Params, NamesParent a b →
      bigOf ((merge a b).get? (.of "cid")) = bigOf (a.get? (.of "cid")) →
      ChangesAgree parseChannel parseChannelChanges applyChannelChanges a b) ∧
    ∀ a b : Params, NamesChannel a b →
      uintOf ((merge a b).get? (.of "clid")) u16 = uintOf (a.get? (.of "clid")) u16 →
      ChangesAgree parseClient parseClientChanges applyClientChanges a b := by
  constructor
  · intro a b hparent hid
    exact channelChanges_iff.mpr ⟨hid.symm, channelFields_follow hparent⟩
  · intro a b hchannel hid
    exact clientChanges_iff.mpr ⟨hid.symm, clientFields_follow hchannel⟩

theorem changes_law_edited :
    ChangesAgree parseChannel parseChannelChanges applyChannelChanges
      (rowOf [("cid", "5"), ("cpid", "2"), ("channel_name", "Lobby"), ("channel_icon_id", "7")])
      (rowOf [("cid", "5"), ("cpid", "3"), ("channel_name", "Hall"), ("channel_icon_id", "0")]) ∧
    ChangesAgree parseClient parseClientChanges applyClientChanges
      (rowOf [("clid", "4"), ("ctid", "5"), ("client_talk_request", "1700000000")])
      (rowOf [("ctid", "6"), ("client_talk_request", "0"), ("client_away", "1")]) :=
  ⟨changes_law.1 _ _ (Or.inr (Or.inr (by decide +kernel))) (by decide +kernel),
    changes_law.2 _ _ (fun ha _ => absurd ha (by decide +kernel)) (by decide +kernel)⟩

end Teamspeak.Records
