import Teamspeak.Core.Fields

/-!
# Notifications

`handleNotification`: a notification as the event it makes, and what it does to the roster, the
clients that the caller knows.

* `handle_effect`: no notification throws, and what it does to the roster.
* `sameClient_iff`: which clid texts an enter and the other notifications read alike.
* `roster_law`: the roster under notifications.
-/

namespace Teamspeak.Notifications

open Binary64 (Double)
open Records

/-! ### Numbers and ids -/

/-- `s.replace(/^0+(?=[0-9])/, "")` of a run of digits. -/
def withoutZeros : Str → Str
  | zero :: c :: s => if zero = unit '0' then withoutZeros (c :: s) else zero :: c :: s
  | s => s

/-- `helpers.ts`. -/
def parseUint64 (s : Str) : Nat :=
  if ¬ Client.allDigits s then 0
  else
    let digits := withoutZeros s
    if digits.length > 20 then 0
    else if Str.digitsValue digits > maxUint64 then 0 else Str.digitsValue digits

def parseInt10 (s : Str) : Double :=
  match parseInt s with
  | none => .finite 0
  | some v => Binary64.round v

theorem asClientID_parseUint16 (s : Str) : asClientID (parseUint16 s) = .ok (parseUint16 s) := by
  refine uintInRange_ok ?_ _
  rw [parseUint16, u16]
  cases parseInt s with
  | none => exact Nat.zero_le _
  | some v =>
    dsimp only
    split_ifs with h
    · exact Nat.zero_le _
    · omega

theorem uint64_parseUint64 (s : Str) (what : String) :
    uint64 (parseUint64 s) what = .ok (parseUint64 s) := by
  refine uintInRange_ok ?_ _
  rw [parseUint64]
  dsimp only
  split_ifs <;> omega

/-! ### Events -/

/-- `params[key] ?? ""`. -/
def param (params : Params) (key : String) : Str := (params.get? (.of key)).getD []

structure Invoked where
  invokerID : Nat
  invokerName : Str
  invokerUID : Str
  deriving DecidableEq

structure ClientLeaveEvent where
  clientID : Nat
  fromChannelID : Option Nat
  targetChannelID : Option Nat
  reason : Double
  reasonMessage : Str
  invoked : Invoked
  deriving DecidableEq

structure ClientMovedEvent where
  clientID : Nat
  targetChannelID : Nat
  fromChannelID : Option Nat
  reason : Double
  reasonMessage : Str
  invoked : Invoked
  deriving DecidableEq

structure TextMessageEvent where
  targetMode : Double
  targetID : Nat
  invoked : Invoked
  message : Str
  invokerGroups : Option (List Nat)
  deriving DecidableEq

structure ServerGroupEvent where
  groupID : Nat
  clientID : Nat
  nickname : Str
  uid : Str
  invoked : Invoked
  deriving DecidableEq

structure ChannelGroupEvent where
  clientID : Nat
  channelID : Nat
  channelGroupID : Nat
  channelGroupInheritedChannelID : Nat
  invoked : Invoked
  deriving DecidableEq

/-- What one notification amounts to. -/
inductive NotificationResult
  | clientEnter (info : ClientEntry) (fromChannelID : Option Nat) (reason : Option Double)
  | clientLeave (event : ClientLeaveEvent) (isSelf : Bool)
  | clientMoved (event : ClientMovedEvent)
  | textMessage (message : TextMessageEvent)
  | poked (invoked : Invoked) (message : Str)
  | clientUpdated (clientID : Nat) (changes : ClientEntry) (invoked : Invoked)
  | clientServerGroupAdded (event : ServerGroupEvent)
  | clientServerGroupRemoved (event : ServerGroupEvent)
  | clientChannelGroupChanged (event : ChannelGroupEvent)
  | channelCreated (channelID parentID : Nat) (changes : Records.Channel) (invoked : Invoked)
  | channelEdited (channelID : Nat) (reason : Double) (changes : Records.Channel)
      (invoked : Invoked)
  | channelMoved (channelID parentID order : Nat) (reason : Double) (invoked : Invoked)
  | channelDeleted (channelID : Nat) (invoked : Invoked)
  | channelDescriptionChanged (channelID : Nat)
  | channelPasswordChanged (channelID : Nat)
  | serverEdited (changes : Params) (invoked : Invoked)
  | channelSubscribed (channelID : Nat)
  | channelUnsubscribed (channelID : Nat)
  | pluginCommand (name data : Str) (invoked : Invoked)
  | clientChatComposing (clientID : Nat) (uid : Str)
  | clientChatClosed (clientID : Nat) (uid : Str)
  | unknown

/-- The clients that the caller knows, by id. -/
abbrev Roster := InsertionMap Nat ClientEntry

/-- What a record has as an id. -/
def idOf (r : ClientEntry) (name : ClientField) : Option Nat :=
  match value r name with
  | some (.id n) => some n
  | _ => none

/-- The uid of a record. -/
def uidOf (r : ClientEntry) : Option Str :=
  match value r .uid with
  | some (.text s) => some s
  | _ => none

/-- The server groups of a record. -/
def serverGroupsOf (r : ClientEntry) : Option (List Nat) :=
  match value r .serverGroups with
  | some (.ids l) => some l
  | _ => none

/-! ### Handlers -/

/-- A throw leaves no roster. -/
abbrev Handled := Except RangeError (NotificationResult × Roster)

def clientIDOf (params : Params) (key : String) : Except RangeError Nat :=
  asClientID (parseUint16 (param params key))

def channelIDOf (params : Params) (key : String) : Except RangeError Nat :=
  asChannelID (parseUint64 (param params key))

/-- A channel id that the row names under a key; nothing when the row lacks the key. -/
def channelOf (params : Params) (key : String) : Except RangeError (Option Nat) :=
  match params.get? (.of key) with
  | none => .ok none
  | some raw => (asChannelID (parseUint64 raw)).map some

def invokedOf (params : Params) : Except RangeError Invoked :=
  (clientIDOf params "invokerid").map fun invokerID =>
    ⟨invokerID, param params "invokername", param params "invokeruid"⟩

def handleClientEnterView (params : Params) (clients : Roster) : Handled := do
  let info ← parseClient params
  let id := (idOf info .id).getD 0
  if id = 0 then return (.unknown, clients)
  let fromChannelID ← channelOf params "cfid"
  return (.clientEnter info fromChannelID ((params.get? (.of "reasonid")).map parseInt10),
    clients.set id info)

def handleClientLeftView (params : Params) (selfCLID : Nat) (clients : Roster) : Handled := do
  let clientID ← clientIDOf params "clid"
  if clientID = 0 then return (.unknown, clients)
  let fromChannelID ← channelOf params "cfid"
  let targetChannelID ← channelOf params "ctid"
  let invoked ← invokedOf params
  let event :=
    { clientID, fromChannelID, targetChannelID, reason := parseInt10 (param params "reasonid"),
      reasonMessage := param params "reasonmsg", invoked }
  return (.clientLeave event (clientID = selfCLID), clients.delete clientID)

def handleClientMoved (params : Params) (clients : Roster) : Handled := do
  let clientID ← clientIDOf params "clid"
  let targetChannelID ← channelIDOf params "ctid"
  if clientID = 0 then return (.unknown, clients)
  let existing := clients.get? clientID
  let cfid ← channelOf params "cfid"
  let invoked ← invokedOf params
  -- without a `cfid`, the channel that the roster had it in
  let known := if cfid = none then existing.bind (idOf · .channelID) else none
  let event :=
    { clientID, targetChannelID, fromChannelID := known.or cfid,
      reason := parseInt10 (param params "reasonid"), reasonMessage := param params "reasonmsg",
      invoked }
  return (.clientMoved event, existing.elim clients fun r =>
    clients.set clientID (r.set .channelID (some (.id targetChannelID))))

def handleTextMessage (params : Params) (clients : Roster) : Handled := do
  let invokerID ← clientIDOf params "invokerid"
  let invokerInfo := clients.get? invokerID
  let targetID ← clientIDOf params "target"
  let invokerUID := (params.get? (.of "invokeruid")).getD ((invokerInfo.bind uidOf).getD [])
  let invoked := { invokerID, invokerName := param params "invokername", invokerUID }
  let message :=
    { targetMode := parseInt10 (param params "targetmode"), targetID, invoked,
      message := param params "msg", invokerGroups := invokerInfo.bind serverGroupsOf }
  return (.textMessage message, clients)

def handleClientPoked (params : Params) (clients : Roster) : Handled := do
  let invoked ← invokedOf params
  return (.poked invoked (param params "msg"), clients)

/-- A client that is not known gets no entry. -/
def handleClientUpdated (params : Params) (clients : Roster) : Handled := do
  let clientID ← clientIDOf params "clid"
  if clientID = 0 then return (.unknown, clients)
  let changes ← parseClientChanges params
  let invoked ← invokedOf params
  return (.clientUpdated clientID changes invoked, (clients.get? clientID).elim clients fun r =>
    clients.set clientID (applyClientChanges r changes))

def handleServerGroupMember (params : Params) (clients : Roster)
    (kind : ServerGroupEvent → NotificationResult) : Handled := do
  let clientID ← clientIDOf params "clid"
  if clientID = 0 then return (.unknown, clients)
  let groupID ← asServerGroupID (parseUint64 (param params "sgid"))
  let invoked ← invokedOf params
  let event :=
    { groupID, clientID, nickname := param params "name", uid := param params "cluid", invoked }
  return (kind event, clients)

/-- The group is per channel: a record is of the channel that its client is in. -/
def handleClientChannelGroupChanged (params : Params) (clients : Roster) : Handled := do
  let clientID ← clientIDOf params "clid"
  if clientID = 0 then return (.unknown, clients)
  let channelID ← channelIDOf params "cid"
  let channelGroupID ← asChannelGroupID (parseUint64 (param params "cgid"))
  let inherited ← channelIDOf params "cgi"
  let invoked ← invokedOf params
  let event :=
    { clientID, channelID, channelGroupID, channelGroupInheritedChannelID := inherited, invoked }
  let existing := (clients.get? clientID).filter fun r => idOf r .channelID = some channelID
  return (.clientChannelGroupChanged event, existing.elim clients fun r =>
    clients.set clientID ((r.set .channelGroupID (some (.id channelGroupID))).set
      .channelGroupInheritedChannelID (some (.id inherited))))

/-- A notification that names a channel and nothing else of note. -/
def channelNotification (params : Params) (clients : Roster) (kind : Nat → NotificationResult) :
    Handled := do
  let channelID ← channelIDOf params "cid"
  return (if channelID = 0 then .unknown else kind channelID, clients)

def handleChannelDeleted (params : Params) (clients : Roster) : Handled := do
  let invoked ← invokedOf params
  channelNotification params clients fun channelID => .channelDeleted channelID invoked

def handleChannelCreated (params : Params) (clients : Roster) : Handled := do
  let channelID ← channelIDOf params "cid"
  if channelID = 0 then return (.unknown, clients)
  let parentID ← channelIDOf params "cpid"
  let changes ← parseChannelChanges params
  let invoked ← invokedOf params
  return (.channelCreated channelID parentID changes invoked, clients)

/-- `Reason.ChannelUpdate`. -/
def channelUpdate : Double := .finite 9

/-- An edit that names no invoker answers `channelgetdescription`. -/
def handleChannelEdited (params : Params) (clients : Roster) : Handled := do
  let channelID ← channelIDOf params "cid"
  if channelID = 0 then return (.unknown, clients)
  let reason := parseInt10 (param params "reasonid")
  if reason = channelUpdate ∧ params.get? (.of "invokerid") = none then return (.unknown, clients)
  let changes ← parseChannelChanges params
  let invoked ← invokedOf params
  return (.channelEdited channelID reason changes invoked, clients)

def handleChannelMoved (params : Params) (clients : Roster) : Handled := do
  let channelID ← channelIDOf params "cid"
  if channelID = 0 then return (.unknown, clients)
  let parentID ← channelIDOf params "cpid"
  let order ← channelIDOf params "order"
  let invoked ← invokedOf params
  return (.channelMoved channelID parentID order (parseInt10 (param params "reasonid")) invoked,
    clients)

def handleServerEdited (params : Params) (clients : Roster) : Handled := do
  let changes := InsertionMap.empty.setAll
    (params.entries.filter fun e => (Str.of "virtualserver_").isPrefixOf e.1)
  let invoked ← invokedOf params
  return (.serverEdited changes invoked, clients)

def handlePluginCommand (params : Params) (clients : Roster) : Handled := do
  let invoked ← invokedOf params
  return (.pluginCommand (param params "name") (param params "data") invoked, clients)

/-- `handleChatComposing` and `handleChatClosed`. -/
def handleChat (params : Params) (clients : Roster) (kind : Nat → Str → NotificationResult) :
    Handled := do
  let clientID ← clientIDOf params "clid"
  return (if clientID = 0 then .unknown else kind clientID (param params "cluid"), clients)

/-- The notifications that are handled. -/
inductive Notification
  | clientEnterView | clientLeftView | clientMoved | textMessage | clientPoke | clientUpdated
  | serverGroupClientAdded | serverGroupClientDeleted | clientChannelGroupChanged
  | channelCreated | channelEdited | channelMoved | channelDeleted | channelDescriptionChanged
  | channelPasswordChanged | serverEdited | channelSubscribed | channelUnsubscribed | pluginCmd
  | clientChatComposing | clientChatClosed
  deriving DecidableEq

namespace Notification

def name : Notification → Str
  | clientEnterView => .of "notifycliententerview"
  | clientLeftView => .of "notifyclientleftview"
  | clientMoved => .of "notifyclientmoved"
  | textMessage => .of "notifytextmessage"
  | clientPoke => .of "notifyclientpoke"
  | clientUpdated => .of "notifyclientupdated"
  | serverGroupClientAdded => .of "notifyservergroupclientadded"
  | serverGroupClientDeleted => .of "notifyservergroupclientdeleted"
  | clientChannelGroupChanged => .of "notifyclientchannelgroupchanged"
  | channelCreated => .of "notifychannelcreated"
  | channelEdited => .of "notifychanneledited"
  | channelMoved => .of "notifychannelmoved"
  | channelDeleted => .of "notifychanneldeleted"
  | channelDescriptionChanged => .of "notifychanneldescriptionchanged"
  | channelPasswordChanged => .of "notifychannelpasswordchanged"
  | serverEdited => .of "notifyserveredited"
  | channelSubscribed => .of "notifychannelsubscribed"
  | channelUnsubscribed => .of "notifychannelunsubscribed"
  | pluginCmd => .of "notifyplugincmd"
  | clientChatComposing => .of "notifyclientchatcomposing"
  | clientChatClosed => .of "notifyclientchatclosed"

def all : List Notification :=
  [clientEnterView, clientLeftView, clientMoved, textMessage, clientPoke, clientUpdated,
    serverGroupClientAdded, serverGroupClientDeleted, clientChannelGroupChanged, channelCreated,
    channelEdited, channelMoved, channelDeleted, channelDescriptionChanged, channelPasswordChanged,
    serverEdited, channelSubscribed, channelUnsubscribed, pluginCmd, clientChatComposing,
    clientChatClosed]

/-- The notification that has a name. -/
def named (name : Str) : Option Notification := all.find? fun n => n.name = name

def handle (n : Notification) (params : Params) (selfCLID : Nat) (clients : Roster) : Handled :=
  match n with
  | clientEnterView => handleClientEnterView params clients
  | clientLeftView => handleClientLeftView params selfCLID clients
  | clientMoved => handleClientMoved params clients
  | textMessage => handleTextMessage params clients
  | clientPoke => handleClientPoked params clients
  | clientUpdated => handleClientUpdated params clients
  | serverGroupClientAdded => handleServerGroupMember params clients .clientServerGroupAdded
  | serverGroupClientDeleted => handleServerGroupMember params clients .clientServerGroupRemoved
  | clientChannelGroupChanged => handleClientChannelGroupChanged params clients
  | channelCreated => handleChannelCreated params clients
  | channelEdited => handleChannelEdited params clients
  | channelMoved => handleChannelMoved params clients
  | channelDeleted => handleChannelDeleted params clients
  | channelDescriptionChanged => channelNotification params clients .channelDescriptionChanged
  | channelPasswordChanged => channelNotification params clients .channelPasswordChanged
  | serverEdited => handleServerEdited params clients
  | channelSubscribed => channelNotification params clients .channelSubscribed
  | channelUnsubscribed => channelNotification params clients .channelUnsubscribed
  | pluginCmd => handlePluginCommand params clients
  | clientChatComposing => handleChat params clients .clientChatComposing
  | clientChatClosed => handleChat params clients .clientChatClosed

end Notification

def handleNotification (cmd : Command) (selfCLID : Nat) (clients : Roster) : Handled :=
  match Notification.named cmd.name with
  | none => .ok (.unknown, clients)
  | some n => n.handle cmd.params selfCLID clients

/-! ### What a notification does -/

/-- The client that an event of a client is about. -/
def NotificationResult.clientID : NotificationResult → Option Nat
  | .clientEnter info _ _ => idOf info .id
  | .clientLeave event _ => some event.clientID
  | .clientMoved event => some event.clientID
  | .clientUpdated clientID _ _ => some clientID
  | _ => none

/-- The client that an enter stores. -/
def entering (params : Params) : Nat := uintOf (params.get? (.of "clid")) u16

/-- The client that any other notification names. -/
def clid (params : Params) : Nat := parseUint16 (param params "clid")

variable {params : Params} {clients clients' : Roster}

theorem ok_bind {α β : Type} (a : α) (f : α → Except RangeError β) :
    (Except.ok a >>= f) = f a := rfl

theorem clientIDOf_ok (params : Params) (key : String) :
    clientIDOf params key = .ok (parseUint16 (param params key)) := asClientID_parseUint16 _

theorem channelIDOf_ok (params : Params) (key : String) :
    channelIDOf params key = .ok (parseUint64 (param params key)) := uint64_parseUint64 _ _

theorem channelOf_ok (params : Params) (key : String) : ∃ id, channelOf params key = .ok id := by
  rw [channelOf]
  cases params.get? (.of key) with
  | none => exact ⟨_, rfl⟩
  | some raw => exact map_total ⟨_, uint64_parseUint64 raw _⟩ _

theorem invokedOf_ok (params : Params) : ∃ invoked, invokedOf params = .ok invoked :=
  ⟨_, by rw [invokedOf, clientIDOf_ok]; rfl⟩

/-- What a notification about a client comes to: nothing where it reads no id, or an event about
that client. -/
def Outcome (handled : Handled) (id : Nat) (clients clients' : Roster) : Prop :=
  if id = 0 then handled = .ok (.unknown, clients)
  else ∃ result, handled = .ok (result, clients') ∧ result.clientID = some id

theorem idOf_withId (id : Nat) (params : Params) :
    idOf (withId .id id (fieldsRead clientFields params false)) .id = some id := by
  rw [idOf, value_withId_self (get?_fields_of_not_mem (List.nodup_cons.mp clientFields_nodup).1 _)]

theorem enter_outcome (params : Params) (clients : Roster) :
    ∃ info, idOf info .id = some (entering params) ∧
      Outcome (handleClientEnterView params clients) (entering params) clients
        (clients.set (entering params) info) := by
  obtain ⟨fromChannelID, hfrom⟩ := channelOf_ok params "cfid"
  have hid := idOf_withId (entering params) params
  refine ⟨_, hid, ?_⟩
  rw [Outcome, handleClientEnterView, parseClient_eq, ok_bind, ← entering, hid, Option.getD_some]
  dsimp only
  split_ifs with hzero
  · rfl
  · rw [hfrom, ok_bind]
    exact ⟨_, rfl, hid⟩

theorem left_outcome (params : Params) (self : Nat) (clients : Roster) :
    Outcome (handleClientLeftView params self clients) (clid params) clients
      (clients.delete (clid params)) := by
  obtain ⟨fromChannelID, hfrom⟩ := channelOf_ok params "cfid"
  obtain ⟨targetChannelID, htarget⟩ := channelOf_ok params "ctid"
  obtain ⟨invoked, hinvoked⟩ := invokedOf_ok params
  rw [Outcome, handleClientLeftView, clientIDOf_ok, ok_bind, ← clid]
  split_ifs with hzero
  · rfl
  · rw [hfrom, ok_bind, htarget, ok_bind, hinvoked, ok_bind]
    exact ⟨_, rfl, rfl⟩

/-- The roster with the record of a client changed, if it has one. -/
def changeRecord (clients : Roster) (id : Nat) (f : ClientEntry → Option ClientEntry) : Roster :=
  ((clients.get? id).bind f).elim clients fun r => clients.set id r

theorem moved_outcome (params : Params) (clients : Roster) :
    ∃ f, Outcome (handleClientMoved params clients) (clid params) clients
      (changeRecord clients (clid params) f) := by
  obtain ⟨cfid, hcfid⟩ := channelOf_ok params "cfid"
  obtain ⟨invoked, hinvoked⟩ := invokedOf_ok params
  refine ⟨fun r => some (r.set .channelID (some (.id (parseUint64 (param params "ctid"))))),
    ?_⟩
  rw [Outcome, handleClientMoved, clientIDOf_ok, ok_bind, channelIDOf_ok, ok_bind, ← clid]
  split_ifs with hzero
  · rfl
  · rw [hcfid, ok_bind, hinvoked, ok_bind]
    rw [changeRecord]
    cases clients.get? (clid params) <;> exact ⟨_, rfl, rfl⟩

theorem updated_outcome (params : Params) (clients : Roster) :
    ∃ f, Outcome (handleClientUpdated params clients) (clid params) clients
      (changeRecord clients (clid params) f) := by
  obtain ⟨invoked, hinvoked⟩ := invokedOf_ok params
  refine ⟨fun r => some (applyClientChanges r (fieldsRead clientFields params true)), ?_⟩
  rw [Outcome, handleClientUpdated, clientIDOf_ok, ok_bind, ← clid]
  split_ifs with hzero
  · rfl
  · rw [parseClientChanges, readFields_eq, ok_bind, hinvoked, ok_bind]
    rw [changeRecord]
    cases clients.get? (clid params) <;> exact ⟨_, rfl, rfl⟩

theorem changeRecord_eq (clients : Roster) (id : Nat) (f : ClientEntry → Option ClientEntry) :
    changeRecord clients id f = clients ∨
      ∃ r r', clients.get? id = some r ∧ changeRecord clients id f = clients.set id r' := by
  rw [changeRecord]
  cases hr : clients.get? id with
  | none => exact Or.inl rfl
  | some r =>
    rw [Option.bind_some]
    cases f r with
    | none => exact Or.inl rfl
    | some r' => exact Or.inr ⟨r, r', rfl, rfl⟩

theorem groupChanged_ok (params : Params) (clients : Roster) : ∃ result f,
    handleClientChannelGroupChanged params clients =
      .ok (result, changeRecord clients (clid params) f) := by
  obtain ⟨invoked, hinvoked⟩ := invokedOf_ok params
  rw [handleClientChannelGroupChanged, clientIDOf_ok, ok_bind, ← clid]
  split_ifs with hzero
  · refine ⟨.unknown, fun _ => none, ?_⟩
    rw [changeRecord]
    cases clients.get? (clid params) <;> rfl
  · rw [channelIDOf_ok, ok_bind, asChannelGroupID, uint64_parseUint64, ok_bind, channelIDOf_ok,
      ok_bind, hinvoked, ok_bind]
    refine ⟨.clientChannelGroupChanged ⟨clid params, parseUint64 (param params "cid"),
      parseUint64 (param params "cgid"), parseUint64 (param params "cgi"), invoked⟩,
      fun r => if idOf r .channelID = some (parseUint64 (param params "cid")) then
      some ((r.set .channelGroupID (some (.id (parseUint64 (param params "cgid"))))).set
        .channelGroupInheritedChannelID (some (.id (parseUint64 (param params "cgi")))))
      else none, ?_⟩
    rw [changeRecord]
    cases clients.get? (clid params) with
    | none => rfl
    | some r =>
      rw [Option.bind_some, Option.filter_some]
      by_cases hchannel : idOf r .channelID = some (parseUint64 (param params "cid"))
      · rw [if_pos hchannel, if_pos (decide_eq_true hchannel)]
        rfl
      · rw [if_neg hchannel, if_neg (by simpa using hchannel)]
        rfl

/-- A notification that only reads the roster. -/
def Reads (handled : Handled) (clients : Roster) : Prop :=
  ∃ result, handled = .ok (result, clients)

theorem textMessage_reads (params : Params) (clients : Roster) :
    Reads (handleTextMessage params clients) clients := by
  rw [Reads, handleTextMessage, clientIDOf_ok, ok_bind, clientIDOf_ok, ok_bind]
  exact ⟨_, rfl⟩

theorem poked_reads (params : Params) (clients : Roster) :
    Reads (handleClientPoked params clients) clients := by
  obtain ⟨invoked, hinvoked⟩ := invokedOf_ok params
  rw [Reads, handleClientPoked, hinvoked, ok_bind]
  exact ⟨_, rfl⟩

theorem serverGroupMember_reads (params : Params) (clients : Roster)
    (kind : ServerGroupEvent → NotificationResult) :
    Reads (handleServerGroupMember params clients kind) clients := by
  obtain ⟨invoked, hinvoked⟩ := invokedOf_ok params
  rw [Reads, handleServerGroupMember, clientIDOf_ok, ok_bind]
  split_ifs
  · exact ⟨_, rfl⟩
  · rw [asServerGroupID, uint64_parseUint64, ok_bind, hinvoked, ok_bind]
    exact ⟨_, rfl⟩

theorem channelNotification_reads (params : Params) (clients : Roster)
    (kind : Nat → NotificationResult) :
    Reads (channelNotification params clients kind) clients := by
  rw [Reads, channelNotification, channelIDOf_ok, ok_bind]
  exact ⟨_, rfl⟩

theorem channelDeleted_reads (params : Params) (clients : Roster) :
    Reads (handleChannelDeleted params clients) clients := by
  obtain ⟨invoked, hinvoked⟩ := invokedOf_ok params
  rw [handleChannelDeleted, hinvoked, ok_bind]
  exact channelNotification_reads params clients _

theorem channelCreated_reads (params : Params) (clients : Roster) :
    Reads (handleChannelCreated params clients) clients := by
  obtain ⟨invoked, hinvoked⟩ := invokedOf_ok params
  rw [Reads, handleChannelCreated, channelIDOf_ok, ok_bind]
  split_ifs
  · exact ⟨_, rfl⟩
  · rw [channelIDOf_ok, ok_bind, parseChannelChanges, readFields_eq, ok_bind, hinvoked, ok_bind]
    exact ⟨_, rfl⟩

theorem channelEdited_reads (params : Params) (clients : Roster) :
    Reads (handleChannelEdited params clients) clients := by
  obtain ⟨invoked, hinvoked⟩ := invokedOf_ok params
  rw [Reads, handleChannelEdited, channelIDOf_ok, ok_bind]
  dsimp only
  split_ifs
  · exact ⟨_, rfl⟩
  · exact ⟨_, rfl⟩
  · rw [parseChannelChanges, readFields_eq, ok_bind, hinvoked, ok_bind]
    exact ⟨_, rfl⟩

theorem channelMoved_reads (params : Params) (clients : Roster) :
    Reads (handleChannelMoved params clients) clients := by
  obtain ⟨invoked, hinvoked⟩ := invokedOf_ok params
  rw [Reads, handleChannelMoved, channelIDOf_ok, ok_bind]
  split_ifs
  · exact ⟨_, rfl⟩
  · rw [channelIDOf_ok, ok_bind, channelIDOf_ok, ok_bind, hinvoked, ok_bind]
    exact ⟨_, rfl⟩

theorem serverEdited_reads (params : Params) (clients : Roster) :
    Reads (handleServerEdited params clients) clients := by
  obtain ⟨invoked, hinvoked⟩ := invokedOf_ok params
  rw [Reads, handleServerEdited, hinvoked]
  exact ⟨_, rfl⟩

theorem pluginCommand_reads (params : Params) (clients : Roster) :
    Reads (handlePluginCommand params clients) clients := by
  obtain ⟨invoked, hinvoked⟩ := invokedOf_ok params
  rw [Reads, handlePluginCommand, hinvoked, ok_bind]
  exact ⟨_, rfl⟩

theorem chat_reads (params : Params) (clients : Roster) (kind : Nat → Str → NotificationResult) :
    Reads (handleChat params clients kind) clients := by
  rw [Reads, handleChat, clientIDOf_ok, ok_bind]
  exact ⟨_, rfl⟩

/-- A notification of the roster's, and what it leaves of it. -/
inductive Effect (params : Params) (clients : Roster) : Notification → Roster → Prop
  | same (n : Notification) : Effect params clients n clients
  | entered (info : ClientEntry) :
      Effect params clients .clientEnterView (clients.set (entering params) info)
  | left : Effect params clients .clientLeftView (clients.delete (clid params))
  | changed (n : Notification) {r : ClientEntry} (r' : ClientEntry)
      (hn : n ∈ [.clientMoved, .clientUpdated, .clientChannelGroupChanged])
      (h : clients.get? (clid params) = some r) :
      Effect params clients n (clients.set (clid params) r')

theorem Effect.of_changeRecord {n : Notification}
    (hn : n ∈ [.clientMoved, .clientUpdated, .clientChannelGroupChanged])
    (f : ClientEntry → Option ClientEntry) :
    Effect params clients n (changeRecord clients (clid params) f) := by
  rcases changeRecord_eq clients (clid params) f with h | ⟨r, r', hr, h⟩
  · rw [h]
    exact .same n
  · rw [h]
    exact .changed n r' hn hr

theorem Outcome.effect {handled : Handled} {id : Nat} {n : Notification}
    (h : Outcome handled id clients clients') (heffect : Effect params clients n clients') :
    ∃ result clients', handled = .ok (result, clients') ∧ Effect params clients n clients' := by
  rw [Outcome] at h
  split_ifs at h with hzero
  · exact ⟨_, _, h, .same n⟩
  · obtain ⟨result, h, -⟩ := h
    exact ⟨result, _, h, heffect⟩

theorem Reads.effect {handled : Handled} {n : Notification} (h : Reads handled clients) :
    ∃ result clients', handled = .ok (result, clients') ∧ Effect params clients n clients' := by
  obtain ⟨result, h⟩ := h
  exact ⟨result, clients, h, .same n⟩

/-- No notification throws, and what it does to the roster. -/
theorem handle_effect (n : Notification) (params : Params) (self : Nat) (clients : Roster) :
    ∃ result clients', n.handle params self clients = .ok (result, clients') ∧
      Effect params clients n clients' := by
  cases n with
  | clientEnterView =>
    obtain ⟨info, -, h⟩ := enter_outcome params clients
    exact h.effect (.entered info)
  | clientLeftView => exact (left_outcome params self clients).effect .left
  | clientMoved =>
    obtain ⟨f, h⟩ := moved_outcome params clients
    exact h.effect (.of_changeRecord (by decide) f)
  | textMessage => exact (textMessage_reads params clients).effect
  | clientPoke => exact (poked_reads params clients).effect
  | clientUpdated =>
    obtain ⟨f, h⟩ := updated_outcome params clients
    exact h.effect (.of_changeRecord (by decide) f)
  | serverGroupClientAdded => exact (serverGroupMember_reads params clients _).effect
  | serverGroupClientDeleted => exact (serverGroupMember_reads params clients _).effect
  | clientChannelGroupChanged =>
    obtain ⟨result, f, h⟩ := groupChanged_ok params clients
    exact ⟨result, _, h, .of_changeRecord (by decide) f⟩
  | channelCreated => exact (channelCreated_reads params clients).effect
  | channelEdited => exact (channelEdited_reads params clients).effect
  | channelMoved => exact (channelMoved_reads params clients).effect
  | channelDeleted => exact (channelDeleted_reads params clients).effect
  | channelDescriptionChanged => exact (channelNotification_reads params clients _).effect
  | channelPasswordChanged => exact (channelNotification_reads params clients _).effect
  | serverEdited => exact (serverEdited_reads params clients).effect
  | channelSubscribed => exact (channelNotification_reads params clients _).effect
  | channelUnsubscribed => exact (channelNotification_reads params clients _).effect
  | pluginCmd => exact (pluginCommand_reads params clients).effect
  | clientChatComposing => exact (chat_reads params clients _).effect
  | clientChatClosed => exact (chat_reads params clients _).effect

/-! ### The roster -/

/-- What a notification may do to the roster; none is one that has no handler. -/
structure Frame (n : Option Notification) (params : Params) (clients clients' : Roster) :
    Prop where
  /-- It gains at most the client that enters. -/
  gains : ∀ id, clients'.has id = true → clients.has id = true ∨
    n = some .clientEnterView ∧ id = entering params
  /-- It loses at most the client that leaves. -/
  loses : ∀ id, clients.has id = true → clients'.has id = true ∨
    n = some .clientLeftView ∧ id = clid params
  /-- Every other notification changes at most the record of the client it names. -/
  changes : ∀ id r, clients.get? id = some r → clients'.get? id ≠ some r →
    id = if n = some .clientEnterView then entering params else clid params
  /-- Most leave the roster alone. -/
  others : n ∉ [some .clientEnterView, some .clientLeftView, some .clientMoved,
    some .clientUpdated, some .clientChannelGroupChanged] → clients' = clients

theorem Frame.same (n : Option Notification) (params : Params) (clients : Roster) :
    Frame n params clients clients :=
  ⟨fun _ h => Or.inl h, fun _ h => Or.inl h, fun _ _ hr hne => absurd hr hne, fun _ => rfl⟩

theorem has_set {id : Nat} {r : ClientEntry} {id' : Nat} :
    (clients.set id r).has id' = true ↔ id = id' ∨ clients.has id' = true := by
  rw [InsertionMap.has, InsertionMap.has, InsertionMap.get?_set]
  split_ifs with h <;> simp [h]

theorem Effect.frame {n : Notification} (h : Effect params clients n clients') :
    Frame (some n) params clients clients' := by
  cases h with
  | same => exact .same _ _ _
  | entered info =>
    refine ⟨fun id h => ?_, fun id h => Or.inl (has_set.mpr (Or.inr h)), fun id r hr hne => ?_,
      fun hout => absurd (.head _) hout⟩
    · rcases has_set.mp h with h | h
      · exact Or.inr ⟨rfl, h.symm⟩
      · exact Or.inl h
    · rw [if_pos rfl]
      by_contra hid
      rw [InsertionMap.get?_set_ne _ _ (Ne.symm hid)] at hne
      exact hne hr
  | left =>
    have hother {id : Nat} (hid : id ≠ clid params) :
        (clients.delete (clid params)).get? id = clients.get? id :=
      InsertionMap.get?_delete_ne _ (Ne.symm hid)
    refine ⟨fun id h => Or.inl ?_, fun id h => ?_, fun id r hr hne => ?_,
      fun hout => absurd (.tail _ (.head _)) hout⟩
    · rw [InsertionMap.has, InsertionMap.get?_delete] at h
      split_ifs at h with hid
      · exact absurd h Bool.false_ne_true
      · exact h
    · by_cases hid : id = clid params
      · exact Or.inr ⟨rfl, hid⟩
      · exact Or.inl (by rwa [InsertionMap.has, hother hid])
    · rw [if_neg (by decide)]
      by_contra hid
      exact hne ((hother hid).trans hr)
  | @changed n r r' hn hr =>
    have henter : some n ≠ some .clientEnterView := by
      intro h
      rw [Option.some.inj h] at hn
      exact absurd hn (by decide)
    refine ⟨fun id h => Or.inl ?_, fun id h => Or.inl (has_set.mpr (Or.inr h)),
      fun id r₀ hr₀ hne => ?_, fun hout => absurd ?_ hout⟩
    · rcases has_set.mp h with rfl | h
      · rw [InsertionMap.has, hr]
        rfl
      · exact h
    · rw [if_neg henter]
      by_contra hid
      rw [InsertionMap.get?_set_ne _ _ (Ne.symm hid)] at hne
      exact hne hr₀
    · exact .tail _ (.tail _ (List.mem_map_of_mem (f := some) hn))

theorem handleNotification_frame (cmd : Command) (self : Nat) (clients : Roster) :
    ∃ result clients', handleNotification cmd self clients = .ok (result, clients') ∧
      Frame (Notification.named cmd.name) cmd.params clients clients' := by
  rw [handleNotification]
  cases Notification.named cmd.name with
  | none => exact ⟨_, _, rfl, .same _ _ _⟩
  | some n =>
    obtain ⟨result, clients', h, heffect⟩ := handle_effect n cmd.params self clients
    exact ⟨result, clients', h, heffect.frame⟩

/-! ### One text, one client -/

/-- Whatever else an enter with this clid says, and whatever the roster, it stores its client under
this id. -/
def StoresUnder (text : Str) (id : Nat) : Prop :=
  ∀ (params : Params) (self : Nat) (clients : Roster), params.get? (.of "clid") = some text →
    ∃ result info, handleNotification ⟨Notification.clientEnterView.name, params⟩ self clients =
      .ok (result, clients.set id info)

/-- Whatever else a notification with this clid says, its event is about the client with this id. -/
def RefersTo (n : Notification) (text : Str) (id : Nat) : Prop :=
  ∀ (params : Params) (self : Nat) (clients : Roster), params.get? (.of "clid") = some text →
    ∃ result clients', handleNotification ⟨n.name, params⟩ self clients = .ok (result, clients') ∧
      result.clientID = some id

/-- The client that an enter stores is the one that a leave, move or update with the same text
refers to. -/
def SameClient (text : Str) : Prop :=
  ∀ id, StoresUnder text id →
    ∀ n ∈ [Notification.clientLeftView, .clientMoved, .clientUpdated], RefersTo n text id

variable {text : Str}

theorem Notification.named_name : ∀ n ∈ [clientEnterView, clientLeftView, clientMoved,
    clientUpdated], named n.name = some n := by decide

theorem handleNotification_name {n : Notification}
    (hn : n ∈ [.clientEnterView, .clientLeftView, .clientMoved, .clientUpdated]) (params : Params)
    (self : Nat) (clients : Roster) :
    handleNotification ⟨n.name, params⟩ self clients = n.handle params self clients := by
  rw [handleNotification, Notification.named_name n hn]

theorem storesUnder_iff {id : Nat} :
    StoresUnder text id ↔ uintOf (some text) u16 = id ∧ id ≠ 0 := by
  constructor
  · intro h
    let params : Params := InsertionMap.empty.set (.of "clid") text
    have hclid : params.get? (.of "clid") = some text := InsertionMap.get?_set_self _ _ _
    obtain ⟨result, info, h⟩ := h params 0 .empty hclid
    obtain ⟨info', -, houtcome⟩ := enter_outcome params .empty
    rw [handleNotification_name (.head _), Notification.handle] at h
    rw [Outcome, h, entering, hclid] at houtcome
    split_ifs at houtcome with hzero
    · have hset := congrArg (InsertionMap.get? · id) (Prod.mk.inj (Except.ok.inj houtcome)).2
      exact absurd (InsertionMap.get?_set_self _ _ _ |>.symm.trans hset) (Option.some_ne_none _)
    · obtain ⟨result', hset, -⟩ := houtcome
      have hset := congrArg (InsertionMap.get? · id) (Prod.mk.inj (Except.ok.inj hset)).2
      have hid : uintOf (some text) u16 = id := by
        by_contra hne
        rw [InsertionMap.get?_set_ne _ _ hne] at hset
        exact absurd (InsertionMap.get?_set_self _ _ _ |>.symm.trans hset) (Option.some_ne_none _)
      exact ⟨hid, hid ▸ hzero⟩
  · rintro ⟨hid, hzero⟩ params self clients hclid
    obtain ⟨info, -, houtcome⟩ := enter_outcome params clients
    rw [Outcome, entering, hclid, hid, if_neg hzero] at houtcome
    obtain ⟨result, h, -⟩ := houtcome
    exact ⟨result, info, by rw [handleNotification_name (.head _)]; exact h⟩

/-- A leave, a move or an update is about the client that `parseUint16` reads. -/
theorem others_outcome {n : Notification}
    (hn : n ∈ [Notification.clientLeftView, .clientMoved, .clientUpdated]) (params : Params)
    (self : Nat) (clients : Roster) : ∃ clients', Outcome
      (handleNotification ⟨n.name, params⟩ self clients) (clid params) clients clients' := by
  rw [handleNotification_name (.tail _ hn)]
  rcases List.mem_cons.mp hn with rfl | hn
  · exact ⟨_, left_outcome params self clients⟩
  · rcases List.mem_cons.mp hn with rfl | hn
    · obtain ⟨f, h⟩ := moved_outcome params clients
      exact ⟨_, h⟩
    · rw [List.mem_singleton.mp hn]
      obtain ⟨f, h⟩ := updated_outcome params clients
      exact ⟨_, h⟩

theorem refersTo_iff {n : Notification}
    (hn : n ∈ [Notification.clientLeftView, .clientMoved, .clientUpdated]) {id : Nat} :
    RefersTo n text id ↔ parseUint16 text = id ∧ id ≠ 0 := by
  have hread {params : Params} (h : params.get? (.of "clid") = some text) :
      clid params = parseUint16 text := by rw [clid, param, h, Option.getD_some]
  constructor
  · intro h
    let params : Params := InsertionMap.empty.set (.of "clid") text
    have hclid : params.get? (.of "clid") = some text := InsertionMap.get?_set_self _ _ _
    obtain ⟨result, clients', h, hid⟩ := h params 0 .empty hclid
    obtain ⟨clients'', houtcome⟩ := others_outcome hn params 0 .empty
    rw [Outcome, h, hread hclid] at houtcome
    split_ifs at houtcome with hzero
    · rw [(Prod.mk.inj (Except.ok.inj houtcome)).1] at hid
      exact absurd hid.symm (Option.some_ne_none _)
    · obtain ⟨result', heq, hid'⟩ := houtcome
      rw [← (Prod.mk.inj (Except.ok.inj heq)).1, hid, Option.some.injEq] at hid'
      exact ⟨hid'.symm, hid' ▸ hzero⟩
  · rintro ⟨hid, hzero⟩ params self clients hclid
    obtain ⟨clients', houtcome⟩ := others_outcome hn params self clients
    rw [Outcome, hread hclid, hid, if_neg hzero] at houtcome
    obtain ⟨result, h, hid⟩ := houtcome
    exact ⟨result, clients', h, hid⟩

/-- An enter and the other notifications read a clid alike exactly where the enter reads none, or
the text is a plain number. -/
theorem sameClient_iff (text : Str) :
    SameClient text ↔ (uintOf (some text) u16 ≠ 0 → PlainNumber text) := by
  constructor
  · intro h hzero
    have hrefers := h _ (storesUnder_iff.mpr ⟨rfl, hzero⟩) _ (.head _)
    exact (uintOf_eq_iff hzero).mp ((refersTo_iff (.head _)).mp hrefers).1
  · intro hplain id hstores n hn
    obtain ⟨rfl, hzero⟩ := storesUnder_iff.mp hstores
    exact (refersTo_iff hn).mpr ⟨(uintOf_eq_iff hzero).mpr (hplain hzero), hzero⟩

/-- An enter stores the client 100, and a leave is about the client 1. -/
theorem not_sameClient_exponent : ¬ SameClient (.of "1e2") := by
  intro h
  have hrefers := h 100 (storesUnder_iff.mpr (by decide +kernel)) .clientLeftView (by decide)
  exact absurd ((refersTo_iff (.head _)).mp hrefers).1 (by decide +kernel)

/-- **The roster under notifications.**  No notification throws, and each keeps to its client; an
enter and the other notifications read a text as one client exactly where the enter reads none, or
the text is a plain number. -/
theorem roster_law (text : Str) :
    (∀ (cmd : Command) (self : Nat) (clients : Roster), ∃ result clients',
      handleNotification cmd self clients = .ok (result, clients') ∧
        Frame (Notification.named cmd.name) cmd.params clients clients') ∧
    (SameClient text ↔ (uintOf (some text) u16 ≠ 0 → PlainNumber text)) :=
  ⟨handleNotification_frame, sameClient_iff text⟩

end Teamspeak.Notifications
