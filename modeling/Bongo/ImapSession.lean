import Bongo.Views
import Bongo.MailboxStore

/-!
An IMAP session on one mailbox, with everything that happens to the mailbox and
to the session's client meanwhile. The session remembers the UIDs it has told
the client about, in order (`reported`). A command of the session reads the
mailbox and writes to it in several steps, and deliveries, moves and expunges
of other sessions land between them.

The client keeps a list of its own from nothing but the responses it hears.
-/

namespace Bongo.ImapSession

open ByteKeys Records Mailbox MailboxStore Views

/-! The mailbox. -/

/-- A mailbox as `ListMessages` shows it, in UID order. -/
structure Folder where
  messages : List MailboxMessage
  uidNext : UInt32
  deriving DecidableEq

namespace Folder

def uids (folder : Folder) : List UInt32 := folder.messages.map (·.uid)

def find (folder : Folder) (uid : UInt32) : Option MailboxMessage :=
  folder.messages.find? (·.uid == uid)

/-- A record written under its UID, whether or not there was one before. -/
def put (folder : Folder) (msg : MailboxMessage) : Folder :=
  { folder with
    messages := folder.messages.filter (·.uid < msg.uid) ++
      msg :: folder.messages.filter (msg.uid < ·.uid) }

def arrive (folder : Folder) (msg : MailboxMessage) : Folder :=
  { folder.put { msg with uid := folder.uidNext } with uidNext := folder.uidNext + 1 }

def remove (folder : Folder) (uid : UInt32) : Folder :=
  { folder with messages := folder.messages.filter (·.uid ≠ uid) }

def marked (folder : Folder) : List UInt32 := (folder.messages.filter markedDeleted).map (·.uid)

def expunge (folder : Folder) : Folder :=
  { folder with messages := folder.messages.filter (!markedDeleted ·) }

end Folder

/-! What the session is told and what it tells. -/

inductive Notification where
  | newMail (existsCount : Nat)
  | flagChange (uid : UInt32)
  | expunge (uid : UInt32)
  deriving DecidableEq

/-- The responses that change a client's list; `FETCH` and `SEARCH` responses
do not. -/
inductive Response where
  | numMessages (count : Nat)
  | expunge (seqNum : Nat)
  deriving DecidableEq

/-- The client's list, with the UID each entry stands for in the mailbox, if
there is one. -/
abbrev View := List (Option UInt32)

def hear (msgs : List UInt32) (client : View) : Response → View
  | .numMessages count => grow msgs count client
  | .expunge seqNum => strike client seqNum

def setReported (msgs : List UInt32) : List UInt32 := msgs

def dropReported (reported : List UInt32) (uid : UInt32) : List UInt32 := reported.erase uid

def reportedSeqNum (reported : List UInt32) (uid : UInt32) : Nat :=
  if uid ∈ reported then reported.idxOf uid + 1 else 0

def expungedSeqNums (reported msgs : List UInt32) : List Nat :=
  (places (fun uid _ => !decide (uid ∈ msgs)) reported).map Prod.snd

/-- The new `reported` and the responses, in order. Expunges go out from the
highest number to the lowest. -/
def pollUpdates (reported msgs : List UInt32) (allowExpunge : Bool) :
    List UInt32 × List Response :=
  let expunged := expungedSeqNums reported msgs
  if expunged ≠ [] ∧ allowExpunge = false then (reported, [])
  else
    let clientCount := reported.length - expunged.length
    (setReported msgs, expunged.reverse.map .expunge ++
      if msgs.length ≠ clientCount then [.numMessages msgs.length] else [])

inductive NumSet where
  | seq (contains : Nat → Bool)
  | uid (contains : UInt32 → Bool)

def numSetContains : NumSet → UInt32 → Nat → Bool
  | .seq contains, _, seqNum => contains seqNum
  | .uid contains, uid, _ => contains uid

/-- The messages of a fresh listing that a command acts on, each under its
position in that listing. The loops of `Fetch`, `Store`, `Copy` and `Move`
share this. -/
def chosen (numSet : NumSet) (msgs : List UInt32) : List (UInt32 × Nat) :=
  places (numSetContains numSet) msgs

/-! The commands that act on single messages. -/

/-- What a command does to each chosen message. A rewrite is a list of changes,
each reading the record and writing it back later; a failed change ends the
command if it is marked so. `here` says that the destination is the selected
mailbox itself. -/
inductive Act where
  | rewrite (changes : UInt32 → List (Change × Bool))
  | copy (here : Bool)
  | move (here : Bool)

/-- `FETCH` marks a message as seen for each body section not merely peeked at. -/
def fetch (sections : Nat) : Act :=
  .rewrite fun _ => List.replicate sections (.addFlags flagSeen, false)

/-- `STORE` changes the flags and then the tags, the latter without failing. -/
def store (flags : Option Change) (tags : UInt32 → Option (List Bytes)) : Act :=
  .rewrite fun uid => flags.toList.map (·, true) ++ (tags uid).toList.map (.writeTags ·, false)

inductive Phase where
  | unselected
  | ready
  | selecting
  | idling (channel : List Notification)
  | expunging (uids : List UInt32)
  | acting (act : Act) (pending moved : List (UInt32 × Nat))
  | rewriting (changes : UInt32 → List (Change × Bool)) (pending : List (UInt32 × Nat))
      (uid : UInt32) (left : List (Change × Bool))
  | writing (changes : UInt32 → List (Change × Bool)) (pending : List (UInt32 × Nat))
      (uid : UInt32) (left : List (Change × Bool)) (msg : MailboxMessage)

/-- `due` are the notifications of landed commands that the notifier has not
handed out yet. -/
structure State where
  folder : Folder
  due : List Notification
  reported : List UInt32
  phase : Phase
  client : View

def start (folder : Folder) : State :=
  { folder := folder, due := [], reported := [], phase := .unselected, client := [] }

inductive Event where
  | deliver (msg : MailboxMessage)
  | remove (uid : UInt32)
  | purge
  | announce
  | select
  | poll (allowExpunge : Bool)
  | idle
  | receive
  | done
  | search
  | act (act : Act) (numSet : NumSet)
  | expunge
  | proceed

/-! Commands of anyone that land in the mailbox. -/

def land (s : State) (folder : Folder) (gone : List UInt32) (arrived : Bool) : State :=
  { s with
    folder := folder
    due := s.due ++ gone.map .expunge ++
      if arrived then [.newMail folder.messages.length] else [] }

def landCopy (s : State) (here : Bool) (msg : MailboxMessage) : State :=
  if here then land s (s.folder.arrive (transferred msg s.folder.uidNext)) [] true else s

def landMove (s : State) (here : Bool) (msg : MailboxMessage) : State :=
  let moved := if here then s.folder.arrive (transferred msg s.folder.uidNext) else s.folder
  land s (moved.remove msg.uid) [msg.uid] here

/-- A plain write announces a change of flags of a message that was there. -/
def landPut (s : State) (msg : MailboxMessage) : State :=
  { s with
    folder := s.folder.put msg
    due := s.due ++ match s.folder.find msg.uid with
      | some prev => if msg.flags = prev.flags then [] else [.flagChange msg.uid]
      | none => [] }

/-! Steps of the session. -/

def Phase.isReady : Phase → Bool
  | .ready => true
  | _ => false

/-- The channel of an idling session holds 64 notifications; what does not fit
is dropped, and so is what nobody waits for. -/
def Phase.handed (notif : Notification) : Phase → Phase
  | .idling channel => .idling (if channel.length < 64 then channel ++ [notif] else channel)
  | phase => phase

def announce (s : State) : State :=
  match s.due with
  | [] => s
  | notif :: rest => { s with due := rest, phase := s.phase.handed notif }

def poll (s : State) (allowExpunge : Bool) : State :=
  if s.phase.isReady then
    let updates := pollUpdates s.reported s.folder.uids allowExpunge
    { s with reported := updates.1, client := updates.2.foldl (hear s.folder.uids) s.client }
  else s

def tellExpunged (s : State) (uid : UInt32) : State :=
  let seqNum := reportedSeqNum s.reported uid
  if seqNum = 0 then s
  else
    { s with
      reported := dropReported s.reported uid
      client := hear s.folder.uids s.client (.expunge seqNum) }

/-- One round of the loop of `Idle`. -/
def receive (s : State) : State :=
  match s.phase with
  | .idling (.newMail existsCount :: rest) =>
    { s with
      phase := .idling rest
      reported := setReported s.folder.uids
      client := hear s.folder.uids s.client (.numMessages existsCount) }
  | .idling (.expunge uid :: rest) => tellExpunged { s with phase := .idling rest } uid
  | .idling (.flagChange _ :: rest) => { s with phase := .idling rest }
  | _ => s

/-- `Expunge` lists the marked messages before its command lands. -/
def expunge (s : State) : State :=
  if s.phase.isReady then
    match s.folder.marked with
    | [] => s
    | uids => { s with phase := .expunging uids }
  else s

/-- The EXPUNGE responses of a finished `Move` carry the positions of its own
listing. A command that moved nothing has none. -/
def finish (s : State) (moved : List (UInt32 × Nat)) : State :=
  { s with
    phase := .ready
    client := ((moved.map Prod.snd).reverse.map Response.expunge).foldl (hear s.folder.uids)
      s.client
    reported := (moved.map Prod.fst).foldl dropReported s.reported }

/-- The next message of a `Copy` or a `Move`; a message that is gone ends the
command at once. -/
def transferNext (s : State) (act : Act) (place : UInt32 × Nat)
    (rest moved : List (UInt32 × Nat)) : State :=
  match act, s.folder.find place.1 with
  | .rewrite changes, _ =>
    { s with phase := .rewriting changes rest place.1 (changes place.1) }
  | _, none => { s with phase := .ready }
  | .copy here, some msg => { landCopy s here msg with phase := .acting (.copy here) rest moved }
  | .move here, some msg =>
    { landMove s here msg with phase := .acting (.move here) rest (moved ++ [place]) }

/-- The next change of a `Fetch` or a `Store`: the record is read now and written
by a later step. -/
def rewriteNext (s : State) (changes : UInt32 → List (Change × Bool))
    (rest : List (UInt32 × Nat)) (uid : UInt32) : List (Change × Bool) → State
  | [] => { s with phase := .acting (.rewrite changes) rest [] }
  | (change, fatal) :: left =>
    match s.folder.find uid with
    | some msg => { s with phase := .writing changes rest uid left (change.apply msg) }
    | none => { s with phase := if fatal then .ready else .rewriting changes rest uid left }

def proceed (s : State) : State :=
  match s.phase with
  | .selecting =>
    { s with
      phase := .ready
      client := hear s.folder.uids [] (.numMessages s.folder.messages.length) }
  | .expunging uids =>
    { uids.reverse.foldl tellExpunged (land s s.folder.expunge s.folder.marked false) with
      phase := .ready }
  | .acting _ [] moved => finish s moved
  | .acting act (place :: rest) moved => transferNext s act place rest moved
  | .rewriting changes rest uid left => rewriteNext s changes rest uid left
  | .writing changes rest uid left msg =>
    { landPut s msg with phase := .rewriting changes rest uid left }
  | _ => s

def step (s : State) : Event → State
  | .deliver msg => land s (s.folder.arrive msg) [] true
  | .remove uid => if uid ∈ s.folder.uids then land s (s.folder.remove uid) [uid] false else s
  | .purge => land s s.folder.expunge s.folder.marked false
  | .announce => announce s
  | .select =>
    match s.phase with
    | .unselected | .ready =>
      { s with phase := .selecting, reported := setReported s.folder.uids }
    | _ => s
  | .poll allowExpunge => poll s allowExpunge
  | .idle => if s.phase.isReady then { s with phase := .idling [] } else s
  | .receive => receive s
  | .done =>
    match s.phase with
    | .idling _ => { s with phase := .ready }
    | _ => s
  | .search => s
  | .act act numSet =>
    if s.phase.isReady then { s with phase := .acting act (chosen numSet s.folder.uids) [] } else s
  | .expunge => expunge s
  | .proceed => proceed s

end Bongo.ImapSession
