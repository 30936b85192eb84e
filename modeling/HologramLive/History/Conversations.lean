import HologramLive.Lib.Result
import HologramLive.Lib.Utf8
import HologramLive.Store.Guarded

/-! The history service: conversations, a file each in one directory, which some calls rewrite
under the service's lock and others read, list and delete beside it. -/

namespace HologramLive.History
open Lib Lib.Atomic Lib.Files Lib.Lookup Lib.Result Store

structure ConversationMessage where
  role : String
  content : String
  createdAtMillis : Nat
  deriving DecidableEq

structure Conversation where
  id : String
  title : String
  createdAtMillis : Nat
  updatedAtMillis : Nat
  messages : List ConversationMessage := []
  archived : Bool := false
  deriving DecidableEq

/-- What a call changes in a conversation. -/
inductive Edit where
  | add (messages : List ConversationMessage) (updatedAtMillis : Nat)
  | archive (archived : Bool)

def Edit.apply : Edit → Conversation → Conversation
  | .add messages updatedAtMillis, conversation =>
    { conversation with messages := conversation.messages ++ messages, updatedAtMillis }
  | .archive archived, conversation => { conversation with archived }

@[simp] theorem Edit.apply_id (edit : Edit) (conversation : Conversation) :
    (edit.apply conversation).id = conversation.id := by
  cases edit <;> rfl

/-- The messages that an edit adds. -/
def Edit.added : Edit → List ConversationMessage
  | .add messages _ => messages
  | .archive _ => []

theorem Edit.apply_messages (edit : Edit) (conversation : Conversation) :
    (edit.apply conversation).messages = conversation.messages ++ edit.added := by
  cases edit with
  | add messages updatedAtMillis => rfl
  | archive archived => exact (List.append_nil _).symm

theorem Edit.apply_title (edit : Edit) (conversation : Conversation) :
    (edit.apply conversation).title = conversation.title ∧
      (edit.apply conversation).createdAtMillis = conversation.createdAtMillis := by
  cases edit <;> exact ⟨rfl, rfl⟩

/-- The service with its root and what its code takes from the crates it uses. -/
structure HistoryService where
  root : List String
  blake3 : Blake3
  debug : String → String
  toVecPretty : Conversation → Contents
  fromSlice : Contents → Except String Conversation

def digestOf (id : String) : Except LiveError String :=
  if "blake3:".toList <+: id.toList then
    let digest := String.ofList (id.toList.drop 7)
    if ValidDigest digest then .ok digest
    else .error (.notFound "malformed conversation id")
  else .error (.notFound "conversation id must be a BLAKE3 address")

theorem digestOf_ok {id digest : String} :
    digestOf id = .ok digest ↔ id = "blake3:" ++ digest ∧ ValidDigest digest := by
  rw [← @validateId_ok fun text => text]
  unfold digestOf validateId
  split
  · dsimp only
    split <;> simp
  · simp

def checkTitle (title : String) : Except LiveError Unit :=
  if title = "" then .error (.config "conversation title is empty") else .ok ()

def checkExchange (userContent assistantContent : String) : Except LiveError Unit :=
  if trim userContent = "" then .error (.config "message content is empty")
  else if trim assistantContent = "" then .error (.config "assistant response is empty")
  else .ok ()

namespace HistoryService
variable (history : HistoryService)

def validateRole (role : String) : Except LiveError Unit :=
  if role ∈ ["system", "user", "assistant", "tool"] then .ok ()
  else .error <| .config
    s!"unsupported role {history.debug role}; expected system, user, assistant, or tool"

def checkMessage (role content : String) : Except LiveError Unit := do
  history.validateRole role
  if trim content = "" then .error (.config "message content is empty") else .ok ()

def conversationPath (digest : String) : Path := { directory := history.root, name := digest ++ ".json" }

def pathFor (id : String) : Except LiveError Path := (digestOf id).map history.conversationPath

/-- `persist`, and `persist_unlocked` where the lock is held already. -/
def persist (pid : Nat) (conversation : Conversation) : FileProgram LiveError Unit := do
  let path ← .ofExcept (history.pathFor conversation.id)
  atomicWrite pid path (history.toVecPretty conversation)

def nonce (pid now : Nat) (title : String) : Bytes := Utf8.encode s!"{title}\x00{now}\x00{pid}"

def created (pid now : Nat) (title : String) : Conversation where
  id := address history.blake3 (nonce pid now title)
  title
  createdAtMillis := now
  updatedAtMillis := now

def create (pid now : Nat) (title : String) : FileProgram LiveError Conversation := do
  .ofExcept (checkTitle (trim title))
  history.persist pid (history.created pid now (trim title))
  pure (history.created pid now (trim title))

def get (id : String) : FileProgram LiveError Conversation := do
  let path ← .ofExcept (history.pathFor id)
  let bytes ← attempt (.read path) fun error =>
    if error.notFound then .notFound s!"conversation {id} not found" else ioError path.display error
  .ofExcept ((history.fromSlice bytes).mapError .protocol)

/-- What the calls that change a conversation do under the lock. -/
def rewrite (pid : Nat) (id : String) (edit : Edit) : FileProgram LiveError Conversation := do
  let conversation ← history.get id
  history.persist pid (edit.apply conversation)
  pure (edit.apply conversation)

def append (pid now : Nat) (id role content : String) : FileProgram LiveError Conversation := do
  .ofExcept (history.checkMessage role content)
  history.rewrite pid id (.add [⟨role, content, now⟩] now)

/-- One user turn and its response. `userNow` and `now` are two readings of the clock. -/
def exchange (userNow now : Nat) (userContent assistantContent : String) : Edit :=
  .add [⟨"user", userContent, userNow⟩, ⟨"assistant", assistantContent, max now userNow⟩]
    (max now userNow)

def appendExchange (pid userNow now : Nat) (id userContent assistantContent : String) :
    FileProgram LiveError Conversation := do
  .ofExcept (checkExchange userContent assistantContent)
  history.rewrite pid id (exchange userNow now userContent assistantContent)

def setArchived (pid : Nat) (id : String) (archived : Bool) : FileProgram LiveError Conversation :=
  history.rewrite pid id (.archive archived)

def delete (id : String) : FileProgram LiveError Unit := do
  let path ← .ofExcept (history.pathFor id)
  if ← pathExists path then
    attempt (.removeFile path) (ioError path.display)

def wanted (includeArchived : Bool) (conversation : Conversation) : Bool :=
  !conversation.archived || includeArchived

/-- The order of a list. Sorting by it keeps the order of equals. -/
def lastUpdatedFirst (left right : Conversation) : Prop :=
  right.updatedAtMillis ≤ left.updatedAtMillis

instance : DecidableRel lastUpdatedFirst := fun _ _ => inferInstanceAs (Decidable (_ ≤ _))

def list (includeArchived : Bool) : DirProgram LiveError (List Conversation) := do
  let entries ← .call (.right (.readDir history.root)) fun reply =>
    .ofExcept (reply.mapError (ioError ("/".intercalate history.root)))
  let output ← readRecords history.root history.fromSlice (wanted includeArchived) entries
  pure (output.insertionSort lastUpdatedFirst)

end HistoryService

/-! ### One call after another -/

/-- The conversations by the digest in their ids. -/
structure Conversations where
  records : List (String × Conversation) := []
  named : ∀ entry ∈ records, entry.2.id = "blake3:" ++ entry.1 := by simp

namespace Conversations
variable (known : Conversations)

def find (digest : String) : Option Conversation := known.records.lookup digest

def drop (digest : String) : Conversations where
  records := known.records.filter fun record => record.1 ≠ digest
  named entry hentry := known.named entry (List.mem_of_mem_filter hentry)

def put (digest : String) (conversation : Conversation) : Conversations where
  records := (digest, { conversation with id := "blake3:" ++ digest }) :: (known.drop digest).records
  named := by
    intro entry hentry
    rcases List.mem_cons.mp hentry with rfl | hentry
    · rfl
    · exact (known.drop digest).named entry hentry

def get (id : String) : Except LiveError Conversation := do
  let digest ← digestOf id
  match known.find digest with
  | some conversation => .ok conversation
  | none => .error (.notFound s!"conversation {id} not found")

def rewrite (id : String) (edit : Edit) : Except LiveError (Conversation × Conversations) := do
  let digest ← digestOf id
  let conversation ← known.get id
  .ok (edit.apply conversation, known.put digest (edit.apply conversation))

variable {known} {digest : String} {conversation : Conversation}

theorem named_of_find (h : known.find digest = some conversation) :
    conversation.id = "blake3:" ++ digest :=
  known.named _ (mem_of_lookup h)

theorem put_records (h : conversation.id = "blake3:" ++ digest) :
    (known.put digest conversation).records =
      (digest, conversation) :: known.records.filter fun record => record.1 ≠ digest := by
  change (digest, { conversation with id := "blake3:" ++ digest }) :: _ = _
  rw [← h]
  rfl

theorem find_put (h : conversation.id = "blake3:" ++ digest) (other : String) :
    (known.put digest conversation).find other =
      if other = digest then some conversation else known.find other := by
  rw [find, put_records h]
  by_cases hsame : other = digest
  · simp [hsame]
  · rw [lookup_cons_ne hsame, lookup_filter_ne, if_neg hsame, if_neg hsame]
    rfl

theorem find_drop (other : String) :
    (known.drop digest).find other = if other = digest then none else known.find other :=
  lookup_filter_ne ..

end Conversations

namespace HistoryService

/-- A call of the service, with what the clock shows. -/
inductive Method where
  | create (now : Nat) (title : String)
  | append (now : Nat) (id role content : String)
  | appendExchange (userNow now : Nat) (id userContent assistantContent : String)
  | setArchived (id : String) (archived : Bool)
  | delete (id : String)
  | get (id : String)
  | list (includeArchived : Bool)
  deriving DecidableEq

inductive Answer where
  | conversation (conversation : Conversation)
  | listed (conversations : List Conversation)
  | deleted
  deriving DecidableEq

variable (history : HistoryService)

/-- What is checked before the lock is taken can make a call fail. -/
def locks : Method → Bool
  | .create _ title => (checkTitle (trim title)).toOption.isSome
  | .append _ _ role content => (history.checkMessage role content).toOption.isSome
  | .appendExchange _ _ _ userContent assistantContent =>
    (checkExchange userContent assistantContent).toOption.isSome
  | .setArchived .. => true
  | .delete _ | .get _ | .list _ => false

def body (pid : Nat) : Method → DirProgram LiveError Answer
  | .create now title =>
    (do
      let conversation ← history.create pid now title
      pure (Answer.conversation conversation)).translate .left
  | .append now id role content =>
    (do
      let conversation ← history.append pid now id role content
      pure (Answer.conversation conversation)).translate .left
  | .appendExchange userNow now id userContent assistantContent =>
    (do
      let conversation ← history.appendExchange pid userNow now id userContent assistantContent
      pure (Answer.conversation conversation)).translate .left
  | .setArchived id archived =>
    (do
      let conversation ← history.setArchived pid id archived
      pure (Answer.conversation conversation)).translate .left
  | .delete id =>
    (do
      history.delete id
      pure Answer.deleted).translate .left
  | .get id =>
    (do
      let conversation ← history.get id
      pure (Answer.conversation conversation)).translate .left
  | .list includeArchived => do
    let conversations ← history.list includeArchived
    pure (.listed conversations)

/-- What a call comes to that reports failure by leaving the conversations alone. -/
def settled (known : Conversations) :
    Except LiveError (Answer × Conversations) → Except LiveError Answer × Conversations
  | .ok (answer, after) => (.ok answer, after)
  | .error error => (.error error, known)

/-- A call that changes one conversation, carried out at once. -/
def rewritten (known : Conversations) (checked : Except LiveError Unit) (id : String) (edit : Edit) :
    Except LiveError Answer × Conversations :=
  settled known do
    checked
    let (conversation, after) ← known.rewrite id edit
    .ok (.conversation conversation, after)

/-- A call carried out at once, where the directory lists `names`. -/
def apply (pid : Nat) (names : List String) (known : Conversations) :
    Method → Except LiveError Answer × Conversations
  | .create now title =>
    settled known do
      checkTitle (trim title)
      let conversation := history.created pid now (trim title)
      .ok (.conversation conversation,
        known.put (hexDigest history.blake3 (nonce pid now (trim title))) conversation)
  | .append now id role content =>
    rewritten known (history.checkMessage role content) id (.add [⟨role, content, now⟩] now)
  | .appendExchange userNow now id userContent assistantContent =>
    rewritten known (checkExchange userContent assistantContent) id
      (exchange userNow now userContent assistantContent)
  | .setArchived id archived => rewritten known (.ok ()) id (.archive archived)
  | .delete id =>
    settled known do
      let digest ← digestOf id
      .ok (.deleted, known.drop digest)
  | .get id => ((known.get id).map .conversation, known)
  | .list includeArchived =>
    (.ok (.listed (((names.filterMap fun name =>
      if fileExtension name = some "json" then known.find (fileStem name) else none).filter
        (wanted includeArchived)).insertionSort lastUpdatedFirst)), known)

/-- What a call may come to when it is carried out at once. A conversation is created where there
is none. The order in which a directory lists its files decides only between equals. -/
def allows (pid : Nat) (method : Method) (known : Conversations) (answer : Except LiveError Answer)
    (after : Conversations) : Prop :=
  match method with
  | .create now title => history.apply pid [] known (.create now title) = (answer, after) ∧
    (answer.toOption.isSome →
      known.find (hexDigest history.blake3 (nonce pid now (trim title))) = none)
  | .list includeArchived => after = known ∧ ∃ output : List Conversation,
    output.Perm ((known.records.map Prod.snd).filter (wanted includeArchived)) ∧
      answer = .ok (.listed (output.insertionSort lastUpdatedFirst))
  | method => history.apply pid [] known method = (answer, after)

/-- The part of a call that rewrites, reads or removes the conversation of an id. -/
def roleOf (id : String) (role : String → Role Conversation) : Role Conversation :=
  match digestOf id with
  | .ok digest => role digest
  | .error _ => .idle

def role (pid : Nat) : Method → Role Conversation
  | .create now title => .creator (hexDigest history.blake3 (nonce pid now (trim title)))
  | .append _ id _ _ | .appendExchange _ _ id _ _ | .setArchived id _ =>
    roleOf id fun digest => .writer digest Option.isNone
  | .delete id => roleOf id .remover
  | .get id => roleOf id .reader
  | .list _ => .lister

/-- The directory of the conversations, with nothing beside it. -/
def ledger (hcodec : ∀ conversation,
      history.fromSlice (history.toVecPretty conversation) = .ok conversation) :
    Ledger Conversation Conversations Unit where
  directory := history.root
  toVecPretty := history.toVecPretty
  fromSlice := history.fromSlice
  records := Conversations.records
  aside := fun _ => ()
  drop := Conversations.drop
  apart := fun _ _ => True
  fromSlice_toVecPretty := hcodec
  records_drop := fun _ _ => rfl
  aside_drop := fun _ _ => rfl
  apart_congr := fun _ _ _ _ _ => trivial

def service (hcodec : ∀ conversation,
      history.fromSlice (history.toVecPretty conversation) = .ok conversation) (pid : Nat) :
    Service (history.ledger hcodec) Method Answer where
  role := history.role pid
  locks := history.locks
  body := history.body pid
  allows := history.allows pid
  apply := fun method names known => history.apply pid names known method
  fresh := fun _ _ => True

end HistoryService
end HologramLive.History
