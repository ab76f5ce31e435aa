import Teamspeak.Core.Text

/-!
# The channel tree

`channel-tree.ts`: the channels of a server as a tree whose sibling order is exact,
built from rows (`fromChannels`) and kept so by the four channel events
(`apply`).

Where the source throws, on a lookup that must not fail, or would not end, the
model gives nothing: a loop or a recursion that follows the tree takes the number
of steps it may have.
-/

namespace Teamspeak

abbrev ChannelID := Nat

/-- `TOP`: the parent of a top-level channel. -/
def topChannel : ChannelID := 0

/-- The value of one of a channel's properties. -/
inductive PropertyValue
  | text (s : Str)
  | number (n : Int)
  | flag (b : Bool)
  deriving DecidableEq

structure Channel where
  id : ChannelID
  parentID : ChannelID
  order : ChannelID
  properties : InsertionMap Str PropertyValue
  deriving DecidableEq

/-- Only the properties that a notification named; one that it cleared is there as
`none`. -/
structure ChannelChanges where
  parentID : Option ChannelID := none
  order : Option ChannelID := none
  properties : List (Str × Option PropertyValue) := []
  deriving DecidableEq

/-- The channel with `changes` applied. -/
def applyChannelChanges (channel : Channel) (changes : ChannelChanges) : Channel :=
  { channel with
    parentID := changes.parentID.getD channel.parentID
    order := changes.order.getD channel.order
    properties := changes.properties.foldl
      (fun next (key, value) =>
        match value with
        | none => next.delete key
        | some value => next.set key value) channel.properties }

structure ChannelCreatedEvent where
  channelID : ChannelID
  parentID : ChannelID
  changes : ChannelChanges := {}
  deriving DecidableEq

structure ChannelEditedEvent where
  channelID : ChannelID
  changes : ChannelChanges := {}
  deriving DecidableEq

structure ChannelMovedEvent where
  channelID : ChannelID
  parentID : ChannelID
  order : ChannelID
  deriving DecidableEq

structure ChannelDeletedEvent where
  channelID : ChannelID
  deriving DecidableEq

/-- The contents of a tree, also while one operation builds the next.  `kids` are the
ids under each parent, in sibling order; a parent without children has no entry. -/
structure ChannelTree where
  channels : InsertionMap ChannelID Channel := .empty
  kids : InsertionMap ChannelID (List ChannelID) := .empty
  consistent : Bool := true
  deriving DecidableEq

namespace ChannelTree

def size (tree : ChannelTree) : Nat := tree.channels.size

def get (tree : ChannelTree) (id : ChannelID) : Option Channel := tree.channels.get? id

/-- The ids directly under `parent`, in sibling order. -/
def kidsOf (tree : ChannelTree) (parent : ChannelID) : List ChannelID :=
  (tree.kids.get? parent).getD []

/-- The channels directly under `parent`, in sibling order. -/
def children (tree : ChannelTree) (parent : ChannelID) : List Channel :=
  (tree.kidsOf parent).filterMap tree.get

/-! ### Placing -/

/-- `settle`, on the rest of a list that comes after `order`. -/
def settleAfter (draft : ChannelTree) (order : ChannelID) : List ChannelID → Option ChannelTree
  | [] => some draft
  | id :: list => do
    let channel ← draft.channels.get? id
    let draft :=
      if channel.order ≠ order then
        { draft with channels := draft.channels.set id { channel with order } }
      else draft
    settleAfter draft id list

/-- Give every channel in `list` the `order` its position implies. -/
def settle (draft : ChannelTree) (list : List ChannelID) : Option ChannelTree :=
  settleAfter draft topChannel list

/-- Put `id` under `parent` after `after` (0 for first).  A predecessor that is not
there, or none, puts it at the end. -/
def insert (draft : ChannelTree) (parent id : ChannelID) (after : Option ChannelID) :
    Option ChannelTree :=
  let list := (draft.kids.get? parent).getD []
  let (at_, consistent) :=
    if after = some topChannel then (0, draft.consistent)
    else
      match after.bind fun after => list.idxOf? after with
      | some index => (index + 1, draft.consistent)
      | none => (list.length, false)
  let next := list.take at_ ++ id :: list.drop at_
  settle { draft with kids := draft.kids.set parent next, consistent } next

/-- Take `id` out of its parent's list, and settle the siblings behind it. -/
def detach (draft : ChannelTree) (id : ChannelID) : Option ChannelTree := do
  let channel ← draft.channels.get? id
  match draft.kids.get? channel.parentID with
  | none => some draft
  | some list =>
    let next := list.filter fun sibling => sibling ≠ id
    if next = [] then some { draft with kids := draft.kids.delete channel.parentID }
    else settle { draft with kids := draft.kids.set channel.parentID next } next

/-- Whether `id` is `ancestor` or sits below it. -/
def isWithin (draft : ChannelTree) : Nat → ChannelID → ChannelID → Option Bool
  | 0, _, _ => none
  | steps + 1, id, ancestor =>
    match draft.channels.get? id with
    | none => some false
    | some at_ =>
      if at_.id = ancestor then some true else isWithin draft steps at_.parentID ancestor

/-- The parent an event names, or the top level, and a flaw, when the tree has no such
channel. -/
def parentOf (draft : ChannelTree) (parent : ChannelID) : ChannelTree × ChannelID :=
  if parent = topChannel ∨ draft.channels.has parent = true then (draft, parent)
  else ({ draft with consistent := false }, topChannel)

/-! ### The four changes -/

/-- Remove `id`, and what a delete of the subchannels left below it. -/
def remove : Nat → ChannelTree → ChannelID → Option ChannelTree
  | 0, _, _ => none
  | steps + 1, draft, id => do
    if !draft.channels.has id then return { draft with consistent := false }
    let draft ← draft.detach id
    let draft ←
      match draft.kids.get? id with
      | none => some draft
      | some below => below.foldlM (remove steps) { draft with consistent := false }
    return { draft with kids := draft.kids.delete id, channels := draft.channels.delete id }

/-- What `parseChannel` reads from `CREATED_CHANNEL_DEFAULTS`, but for the ids. -/
def createdChannelDefaults : InsertionMap Str PropertyValue :=
  InsertionMap.empty.setAll
    [(.of "name", .text []), (.of "topic", .text []), (.of "hasPassword", .flag false),
      (.of "isDefault", .flag false), (.of "isPermanent", .flag false),
      (.of "isSemiPermanent", .flag false), (.of "codec", .number 4),
      (.of "codecQuality", .number 5), (.of "maxClients", .number (-1)),
      (.of "maxFamilyClients", .number (-1)), (.of "neededTalkPower", .number 0),
      (.of "uid", .text []), (.of "codecLatencyFactor", .number 1),
      (.of "isMaxClientsUnlimited", .flag true), (.of "isMaxFamilyClientsUnlimited", .flag true),
      (.of "isMaxFamilyClientsInherited", .flag false), (.of "deleteDelayMs", .number 0),
      (.of "namePhonetic", .text []), (.of "isForcedSilence", .flag false),
      (.of "bannerURL", .text []), (.of "bannerMode", .number 0)]

/-- The steps that a walk up or down a tree may take. -/
def steps (draft : ChannelTree) : Nat := draft.channels.size + 1

def create (draft : ChannelTree) (event : ChannelCreatedEvent) : Option ChannelTree := do
  let channelID := event.channelID
  -- created twice: the later one replaces the earlier
  let draft ←
    (if draft.channels.has channelID then
      remove draft.steps { draft with consistent := false } channelID
    else some draft)
  let (draft, parentID) := draft.parentOf event.parentID
  let base : Channel :=
    { id := channelID, parentID := topChannel, order := topChannel,
      properties := createdChannelDefaults }
  let channel := applyChannelChanges base { event.changes with parentID := some parentID }
  insert { draft with channels := draft.channels.set channelID channel } parentID channelID
    event.changes.order

def edit (draft : ChannelTree) (event : ChannelEditedEvent) : Option ChannelTree :=
  match draft.channels.get? event.channelID with
  | none => some { draft with consistent := false }
  | some channel =>
    let rest := { event.changes with order := none, parentID := none }
    let draft :=
      { draft with channels := draft.channels.set channel.id (applyChannelChanges channel rest) }
    match event.changes.order with
    | none => some draft
    | some order => do
      let draft ← draft.detach channel.id
      insert draft channel.parentID channel.id (some order)

def move (draft : ChannelTree) (event : ChannelMovedEvent) : Option ChannelTree :=
  match draft.channels.get? event.channelID with
  | none => some { draft with consistent := false }
  | some channel => do
    let (draft, parentID) := draft.parentOf event.parentID
    let within ← draft.isWithin draft.steps parentID channel.id
    -- under itself: the channel stays in its parent
    let (draft, parentID) :=
      if within then ({ draft with consistent := false }, channel.parentID) else (draft, parentID)
    let draft ← draft.detach channel.id
    let draft := { draft with channels := draft.channels.set channel.id { channel with parentID } }
    insert draft parentID channel.id (some event.order)

/-! ### From rows -/

/-- What `sortSiblings` carries; its set `seen` holds just what `out` does. -/
structure Sorting where
  out : List ChannelID := []
  consistent : Bool
  deriving DecidableEq

/-- The channels that name `from_` as the one before them; more than one is a flaw. -/
def enter (after : InsertionMap ChannelID (List Channel)) (from_ : ChannelID) (st : Sorting) :
    List Channel × Sorting :=
  let list := (after.get? from_).getD []
  (list, if list.length > 1 then { st with consistent := false } else st)

/-- The loop of `follow`: depth first, one frame per channel on the current chain, each
holding what is left of its list. -/
def followStack (after : InsertionMap ChannelID (List Channel)) :
    Nat → List (List Channel) → Sorting → Option Sorting
  | 0, _, _ => none
  | _ + 1, [], st => some st
  | steps + 1, [] :: stack, st => followStack after steps stack st
  | steps + 1, (channel :: list) :: stack, st =>
    if channel.id ∈ st.out then followStack after steps (list :: stack) st
    else
      let (frame, st) := enter after channel.id { st with out := st.out ++ [channel.id] }
      followStack after steps (frame :: list :: stack) st

def follow (after : InsertionMap ChannelID (List Channel)) (steps : Nat) (start : ChannelID)
    (st : Sorting) : Option Sorting :=
  let (frame, st) := enter after start st
  followStack after steps [frame] st

/-- The key that `sortSiblings` files a channel under: the sibling it names, or none. -/
def afterKey (siblings : List Channel) (channel : Channel) : ChannelID :=
  if channel.order ≠ topChannel ∧ channel.order ∈ siblings.map Channel.id then channel.order
  else topChannel

/-- Order siblings by the predecessor each names.  Any that cannot be reached from a
first one follow, in input order, and the set is no longer consistent. -/
def sortSiblings (siblings : List Channel) (consistent : Bool) : Option Sorting := do
  let named := siblings.all fun channel =>
    channel.order = topChannel ∨ channel.order ∈ siblings.map Channel.id
  let after := siblings.foldl (fun after channel => after.push (afterKey siblings channel) channel)
    (.empty : InsertionMap ChannelID (List Channel))
  let steps := (siblings.length + 1) * (siblings.length + 1) + 1
  let st ← follow after steps topChannel { consistent := consistent && named }
  siblings.foldlM (fun st channel =>
    if channel.id ∈ st.out then some st
    else follow after steps channel.id { out := st.out ++ [channel.id], consistent := false }) st

/-- The rows read so far. -/
structure Rows where
  rows : List Channel := []
  channels : InsertionMap ChannelID Channel := .empty
  consistent : Bool := true

/-- Take a row; no channel has id 0, and of two with one id the later one counts. -/
def addRow (st : Rows) (channel : Channel) : Rows :=
  if channel.id = topChannel then { st with consistent := false }
  else if st.channels.has channel.id then
    { rows := st.rows.set (st.rows.findIdx fun row => row.id = channel.id) channel
      channels := st.channels.set channel.id channel
      consistent := false }
  else { st with
    rows := st.rows ++ [channel]
    channels := st.channels.set channel.id channel }

/-- Rows on their way into lists: the draft, and the rows under each parent. -/
structure Grouping where
  draft : ChannelTree
  byParent : InsertionMap ChannelID (List Channel) := .empty

/-- A parent that is not in the set, or is the channel itself, leaves a channel the
server did not describe properly: it goes to the top level. -/
def groupRow (st : Grouping) (channel : Channel) : Grouping :=
  let parent := channel.parentID
  if parent ≠ topChannel ∧ (parent = channel.id ∨ st.draft.channels.has parent = false) then
    { draft :=
        { st.draft with
          channels := st.draft.channels.set channel.id { channel with parentID := topChannel }
          consistent := false }
      byParent := st.byParent.push topChannel channel }
  else { st with byParent := st.byParent.push parent channel }

/-- Sort the rows under one parent. -/
def sortGroup (draft : ChannelTree) (group : ChannelID × List Channel) : Option ChannelTree := do
  let st ← sortSiblings group.2 draft.consistent
  return { draft with kids := draft.kids.set group.1 st.out, consistent := st.consistent }

/-- Add to `reachable` what is below `parent`. -/
def mark (kids : InsertionMap ChannelID (List ChannelID)) :
    Nat → ChannelID → List ChannelID → Option (List ChannelID)
  | 0, _, _ => none
  | steps + 1, parent, reachable =>
    ((kids.get? parent).getD []).foldlM
      (fun reachable id =>
        if id ∈ reachable then some reachable else mark kids steps id (id :: reachable)) reachable

/-- Hang a channel that no top-level channel reaches at the top. -/
def hangRow (st : ChannelTree × List ChannelID) (row : Channel) :
    Option (ChannelTree × List ChannelID) := do
  let (draft, reachable) := st
  if row.id ∈ reachable then return st
  let channel ← draft.channels.get? row.id
  let list ← draft.kids.get? channel.parentID
  let kids := draft.kids.set channel.parentID (list.filter fun id => id ≠ channel.id)
  let kids := kids.set topChannel ((kids.get? topChannel).getD [] ++ [channel.id])
  let draft : ChannelTree :=
    { kids
      channels := draft.channels.set channel.id { channel with parentID := topChannel }
      consistent := false }
  let reachable ← mark kids draft.steps channel.id (channel.id :: reachable)
  return (draft, reachable)

/-- Drop an empty list, and settle any other. -/
def settleGroup (draft : ChannelTree) (group : ChannelID × List ChannelID) : Option ChannelTree :=
  if group.2 = [] then some { draft with kids := draft.kids.delete group.1 }
  else settle draft group.2

/-- `ChannelTree.from`: a tree of `channels`, which may come in any order. -/
def fromChannels (channels : List Channel) : Option ChannelTree := do
  let read := channels.foldl addRow {}
  let grouping := read.rows.foldl groupRow
    { draft := { channels := read.channels, consistent := read.consistent } }
  let draft ← grouping.byParent.entries.foldlM sortGroup grouping.draft
  let reachable ← mark draft.kids draft.steps topChannel []
  let (draft, _) ← read.rows.foldlM hangRow (draft, reachable)
  draft.kids.entries.foldlM settleGroup draft

/-! ### Events -/

inductive Event
  | created (event : ChannelCreatedEvent)
  | edited (event : ChannelEditedEvent)
  | moved (event : ChannelMovedEvent)
  | deleted (event : ChannelDeletedEvent)
  deriving DecidableEq

def Event.channelID : Event → ChannelID
  | .created event => event.channelID
  | .edited event => event.channelID
  | .moved event => event.channelID
  | .deleted event => event.channelID

/-- `applyCreated`, `applyEdited`, `applyMoved` and `applyDeleted`. -/
def apply (tree : ChannelTree) (event : Event) : Option ChannelTree :=
  if event.channelID = topChannel then some { tree with consistent := false }
  else
    match event with
    | .created event => create tree event
    | .edited event => edit tree event
    | .moved event => move tree event
    | .deleted event => remove tree.steps tree event.channelID

end ChannelTree

end Teamspeak
