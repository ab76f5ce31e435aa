import Teamspeak.Core.ChannelTree
import Teamspeak.Lib.Heap

/-!
# The view of the server

`view.ts`: the state behind `client.view`.  What the view hands out are objects, and
whether one is changed later is a question of their identity, so the maps, records and
trees of the store lie in heaps, and its fields refer to them.  The roster is the only
map that is changed in place; records of clients, channels and groups are never written
to, and are values here.

`announcements` lists the revisions `announce` gave out, and `settled` what the promises
of `whenReady` came to; no field of the class does.
-/

namespace Teamspeak.Client

/-- A client as the roster has it. -/
structure ClientEntry where
  id : Nat
  channelID : ChannelID
  properties : InsertionMap Str PropertyValue
  deriving DecidableEq

/-- A server group or a channel group. -/
structure Group where
  id : Nat
  properties : InsertionMap Str PropertyValue
  deriving DecidableEq

abbrev ClientMap := InsertionMap Nat ClientEntry
abbrev ChannelMap := InsertionMap ChannelID Channel
abbrev GroupMap := InsertionMap Nat Group

inductive ViewStatus
  | empty
  | loading
  | live
  | stale
  deriving DecidableEq

/-- What `end` is given: nothing for a disconnect, an `Error`, or another value that
was thrown. -/
inductive Cause (ε : Type*)
  | disconnect
  | error (e : ε)
  | value (v : ε)
  deriving DecidableEq

/-- The error a connection ended with. -/
inductive Ending (ε : Type*)
  | notConnected
  | error (e : ε)
  /-- `TeamspeakError("the connection ended", { cause })`. -/
  | ended (cause : ε)
  deriving DecidableEq

def Cause.ending {ε : Type*} : Cause ε → Ending ε
  | .disconnect => .notConnected
  | .error e => .error e
  | .value v => .ended v

/-- `#known`: the copy of the roster handed out at a revision. -/
structure Known where
  revision : Nat
  clients : Ref ClientMap

/-- `#ordered`: the channels of a tree, in order. -/
structure Ordered where
  tree : Ref ChannelTree
  channels : Ref ChannelMap

structure ViewStore (ε : Type*) where
  clientMaps : Heap ClientMap
  channelMaps : Heap ChannelMap
  groupMaps : Heap GroupMap
  records : Heap Params
  trees : Heap ChannelTree
  roster : Ref ClientMap
  status : ViewStatus := .empty
  revision : Nat := 0
  tree : Ref ChannelTree
  rows : List Channel := []
  known : Known
  ordered : Ordered
  serverGroups : Ref GroupMap
  channelGroups : Ref GroupMap
  serverGroupsSeen : Bool := false
  channelGroupsSeen : Bool := false
  server : Ref Params
  announced : Nat := 0
  waiters : List Nat := []
  /-- How many promises `whenReady` has made. -/
  asked : Nat := 0
  endedBy : Option (Ending ε) := none
  announcements : List Nat := []
  settled : List (Nat × Option (Ending ε)) := []

/-! ### Helpers -/

/-- `walk`, which can go no deeper than the tree has channels. -/
def walk (tree : ChannelTree) : Nat → ChannelID → ChannelMap → ChannelMap
  | 0, _, out => out
  | depth + 1, parent, out =>
    (tree.children parent).foldl
      (fun out channel => walk tree depth channel.id (out.set channel.id channel)) out

/-- The channels of `tree`, parents first and siblings in order, in one map. -/
def preorder (tree : ChannelTree) : ChannelMap := walk tree tree.steps topChannel .empty

/-- The `virtualserver_*` properties that change by themselves. -/
def counters : List Str :=
  (["clientsonline", "queryclientsonline", "channelsonline", "uptime", "client_connections",
    "query_client_connections", "month_bytes_downloaded", "month_bytes_uploaded",
    "total_bytes_downloaded", "total_bytes_uploaded", "total_packetloss_speech",
    "total_packetloss_keepalive", "total_packetloss_control", "total_packetloss_total",
    "total_ping"]).map fun name => .of ("virtualserver_" ++ name)

/-- The `virtualserver_*` entries of `params`, less the counters unless they are asked
for. -/
def serverEntries (params : Params) (withCounters : Bool) : List (Str × Str) :=
  params.entries.filter fun (key, _) =>
    (Str.of "virtualserver_").isPrefixOf key ∧ (withCounters ∨ key ∉ counters)

/-- Whether two lists hold the same groups in the same order. -/
def sameGroups (a b : GroupMap) : Bool := a.entries = b.entries

/-- A list of groups as a map: a later row of an id counts. -/
def groupMap (groups : List Group) : GroupMap :=
  groups.foldl (fun next group => next.set group.id group) .empty

/-- A welcome row without the counts the server takes once. -/
def withoutCounts (row : Channel) : Channel :=
  { row with
    properties := (row.properties.delete (.of "totalClients")).delete (.of "totalFamilyClients") }

namespace ViewStore

variable {ε : Type*}

/-- `new ViewStore`. -/
def new : ViewStore ε :=
  { clientMaps := ⟨[.empty, .empty]⟩
    channelMaps := ⟨[.empty]⟩
    groupMaps := ⟨[.empty, .empty]⟩
    records := ⟨[.empty]⟩
    trees := ⟨[(ChannelTree.fromChannels []).getD {}]⟩
    roster := ⟨0⟩
    tree := ⟨0⟩
    known := ⟨0, ⟨1⟩⟩
    ordered := ⟨⟨0⟩, ⟨0⟩⟩
    serverGroups := ⟨0⟩
    channelGroups := ⟨1⟩
    server := ⟨0⟩ }

/-! ### What the fields refer to -/

def clients (s : ViewStore ε) : ClientMap := (s.clientMaps.read s.roster).getD .empty

def channelTree (s : ViewStore ε) : ChannelTree := (s.trees.read s.tree).getD {}

def serverGroupMap (s : ViewStore ε) : GroupMap := (s.groupMaps.read s.serverGroups).getD .empty

def channelGroupMap (s : ViewStore ε) : GroupMap := (s.groupMaps.read s.channelGroups).getD .empty

def serverRecord (s : ViewStore ε) : Params := (s.records.read s.server).getD .empty

def groupsLoaded (s : ViewStore ε) : Bool := s.serverGroupsSeen && s.channelGroupsSeen

/-! ### The roster -/

def bump (s : ViewStore ε) : ViewStore ε := { s with revision := s.revision + 1 }

def rosterSet (s : ViewStore ε) (id : Nat) (entry : ClientEntry) : ViewStore ε :=
  bump { s with clientMaps := s.clientMaps.write s.roster (s.clients.set id entry) }

def rosterDelete (s : ViewStore ε) (id : Nat) : ViewStore ε :=
  if s.clients.has id then
    bump { s with clientMaps := s.clientMaps.write s.roster (s.clients.delete id) }
  else s

def rosterClear (s : ViewStore ε) : ViewStore ε :=
  if s.clients.size > 0 then bump { s with clientMaps := s.clientMaps.write s.roster .empty } else s

/-- The server stopped telling about a channel's clients: forget them, but for `self`. -/
def dropChannel (s : ViewStore ε) (self : Nat) (channelID : ChannelID) : ViewStore ε :=
  s.clients.entries.foldl
    (fun s (id, entry) => if entry.channelID = channelID ∧ id ≠ self then s.rosterDelete id else s)
    s

/-! ### The welcome -/

/-- The tree becomes another object. -/
def setTree (s : ViewStore ε) (tree : ChannelTree) : ViewStore ε :=
  { s with trees := (s.trees.alloc tree).1, tree := (s.trees.alloc tree).2 }

def setServerGroupMap (s : ViewStore ε) (groups : GroupMap) : ViewStore ε :=
  { s with
    groupMaps := (s.groupMaps.alloc groups).1
    serverGroups := (s.groupMaps.alloc groups).2 }

def setChannelGroupMap (s : ViewStore ε) (groups : GroupMap) : ViewStore ε :=
  { s with
    groupMaps := (s.groupMaps.alloc groups).1
    channelGroups := (s.groupMaps.alloc groups).2 }

def setServerRecord (s : ViewStore ε) (record : Params) : ViewStore ε :=
  { s with records := (s.records.alloc record).1, server := (s.records.alloc record).2 }

/-- A connection begins: what the last one left is cleared. -/
def reset (s : ViewStore ε) : ViewStore ε :=
  let s := s.rosterClear
  let s := { s with rows := [] }
  let s := s.setTree ((ChannelTree.fromChannels []).getD {})
  let s := s.setServerGroupMap .empty
  let s := s.setChannelGroupMap .empty
  let s := { s with serverGroupsSeen := false, channelGroupsSeen := false }
  let s := s.setServerRecord .empty
  bump { s with status := .loading }

/-- A `channellist` row of the welcome. -/
def collect (s : ViewStore ε) (row : Channel) : ViewStore ε :=
  if s.status = .loading then { s with rows := s.rows ++ [row] } else s

/-- A promise settles: with nothing, or with an error. -/
def settle (s : ViewStore ε) (result : Option (Ending ε)) : ViewStore ε :=
  { s with waiters := [], settled := s.settled ++ s.waiters.map fun waiter => (waiter, result) }

/-- The welcome's last row has arrived: the revision the view became live at. -/
def finish (s : ViewStore ε) : ViewStore ε × Option Nat :=
  if s.status ≠ .loading then (s, none)
  else
    let rows := s.rows.map withoutCounts
    let s := { s with rows := [] }
    match ChannelTree.fromChannels rows with
    | none => (s, none)
    | some tree =>
      let s := bump { s.setTree tree with status := .live }
      (settle { s with announced := s.revision } none, some s.revision)

/-- `applyCreated`, `applyEdited`, `applyMoved` and `applyDeleted`. -/
def change (s : ViewStore ε) (event : ChannelTree.Event) : ViewStore ε :=
  if s.status ≠ .live then s
  else
    match s.channelTree.apply event with
    | none => s
    | some tree => bump (s.setTree tree)

/-! ### Groups and properties -/

/-- Group lists and server properties are taken while loading and live, not once stale. -/
def accepting (s : ViewStore ε) : Bool := s.status = .loading ∨ s.status = .live

def setServerGroups (s : ViewStore ε) (groups : List Group) : ViewStore ε :=
  if ¬s.accepting then s
  else
    let loaded := s.groupsLoaded
    let next := groupMap groups
    let s := { s with serverGroupsSeen := true }
    let changed := !sameGroups s.serverGroupMap next
    let s := if changed then s.setServerGroupMap next else s
    if changed ∨ loaded ≠ s.groupsLoaded then s.bump else s

def setChannelGroups (s : ViewStore ε) (groups : List Group) : ViewStore ε :=
  if ¬s.accepting then s
  else
    let loaded := s.groupsLoaded
    let next := groupMap groups
    let s := { s with channelGroupsSeen := true }
    let changed := !sameGroups s.channelGroupMap next
    let s := if changed then s.setChannelGroupMap next else s
    if changed ∨ loaded ≠ s.groupsLoaded then s.bump else s

/-- `#mergeServer`. -/
def mergeEntries (s : ViewStore ε) (entries : List (Str × Str)) : ViewStore ε :=
  if ¬s.accepting then s
  else if entries.all fun (key, value) => s.serverRecord.get? key = some value then s
  else bump (s.setServerRecord (s.serverRecord.setAll entries))

def seedServer (s : ViewStore ε) (params : Params) : ViewStore ε :=
  s.mergeEntries (serverEntries params true)

def patchServer (s : ViewStore ε) (changes : Params) : ViewStore ε :=
  s.mergeEntries (serverEntries changes true)

def mergeServer (s : ViewStore ε) (params : Params) : ViewStore ε :=
  s.mergeEntries (serverEntries params false)

/-! ### The end, and who waits -/

/-- The connection ended. -/
def end_ (s : ViewStore ε) (cause : Cause ε) : ViewStore ε :=
  if s.status ≠ .loading ∧ s.status ≠ .live then s
  else
    let s := bump { s with status := .stale }
    settle { s with endedBy := some cause.ending } (some cause.ending)

/-- `whenReady`, with a signal that has not aborted. -/
def whenReady (s : ViewStore ε) : ViewStore ε :=
  let promise := s.asked
  let s := { s with asked := s.asked + 1 }
  match s.status with
  | .live => { s with settled := s.settled ++ [(promise, none)] }
  | .stale => { s with settled := s.settled ++ [(promise, some (s.endedBy.getD .notConnected))] }
  | _ => { s with waiters := s.waiters ++ [promise] }

/-- The signal of a waiting `whenReady` aborts. -/
def giveUp (s : ViewStore ε) (waiter : Nat) : ViewStore ε :=
  { s with waiters := s.waiters.filter fun w => w ≠ waiter }

/-- The revision to announce with `viewChanged`, if there is anything to say. -/
def announce (s : ViewStore ε) : ViewStore ε × Option Nat :=
  if s.status = .loading ∨ s.status = .empty then (s, none)
  else if s.revision = s.announced then (s, none)
  else
    ({ s with announced := s.revision, announcements := s.announcements ++ [s.revision] },
      some s.revision)

/-! ### Reading -/

/-- `view.channels`. -/
def readChannels (s : ViewStore ε) : ViewStore ε × Ref ChannelMap :=
  if s.ordered.tree ≠ s.tree then
    let made := s.channelMaps.alloc (preorder s.channelTree)
    ({ s with channelMaps := made.1, ordered := ⟨s.tree, made.2⟩ }, made.2)
  else (s, s.ordered.channels)

/-- `view.clients`. -/
def readClients (s : ViewStore ε) : ViewStore ε × Ref ClientMap :=
  if s.known.revision ≠ s.revision then
    let made := s.clientMaps.alloc s.clients
    ({ s with clientMaps := made.1, known := ⟨s.revision, made.2⟩ }, made.2)
  else (s, s.known.clients)

/-- What the view says to a reader, the maps and records by what they hold. -/
structure Reading where
  status : ViewStatus
  channels : Option ChannelMap
  clients : Option ClientMap
  serverGroups : Option GroupMap
  channelGroups : Option GroupMap
  groupsLoaded : Bool
  server : Option Params
  deriving DecidableEq

def reading (s : ViewStore ε) : Reading where
  status := s.status
  channels := s.readChannels.1.channelMaps.read s.readChannels.2
  clients := s.readClients.1.clientMaps.read s.readClients.2
  serverGroups := s.groupMaps.read s.serverGroups
  channelGroups := s.groupMaps.read s.channelGroups
  groupsLoaded := s.groupsLoaded
  server := s.records.read s.server

/-! ### Steps -/

inductive Op (ε : Type*)
  | reset
  | collect (row : Channel)
  | finish
  | change (event : ChannelTree.Event)
  | rosterSet (id : Nat) (entry : ClientEntry)
  | rosterDelete (id : Nat)
  | rosterClear
  | dropChannel (self : Nat) (channelID : ChannelID)
  | setServerGroups (groups : List Group)
  | setChannelGroups (groups : List Group)
  | seedServer (params : Params)
  | patchServer (changes : Params)
  | mergeServer (params : Params)
  | end_ (cause : Cause ε)
  | whenReady
  | giveUp (waiter : Nat)
  | announce
  | readChannels
  | readClients

def step (s : ViewStore ε) : Op ε → ViewStore ε
  | .reset => s.reset
  | .collect row => s.collect row
  | .finish => s.finish.1
  | .change event => s.change event
  | .rosterSet id entry => s.rosterSet id entry
  | .rosterDelete id => s.rosterDelete id
  | .rosterClear => s.rosterClear
  | .dropChannel self channelID => s.dropChannel self channelID
  | .setServerGroups groups => s.setServerGroups groups
  | .setChannelGroups groups => s.setChannelGroups groups
  | .seedServer params => s.seedServer params
  | .patchServer changes => s.patchServer changes
  | .mergeServer params => s.mergeServer params
  | .end_ cause => s.end_ cause
  | .whenReady => s.whenReady
  | .giveUp waiter => s.giveUp waiter
  | .announce => s.announce.1
  | .readChannels => s.readChannels.1
  | .readClients => s.readClients.1

end ViewStore

end Teamspeak.Client
