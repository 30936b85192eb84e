import HologramLive.Lib.Program
import HologramLive.Store

/-! Copying a whole hub: from the catalog its head names, along the addresses the objects hold. -/

namespace HologramLive.ModelHub.Mirror
open Lib

/-- The kinds of object that carry a hub. -/
inductive Kind where
  | model
  | source
  | catalog
  deriving DecidableEq

/-- What a catalog lists under an id, as it is read. A link that is null or empty is none. -/
structure Listed where
  model : Option String
  sources : Option (List (Option String))
  deriving DecidableEq

/-- The fields of an object that are looked at. What an object does not have is not there. -/
structure Document where
  id : String
  revision : String
  snapshot : String
  prev : Option String
  objects : Option (List Listed)
  deriving DecidableEq

def filename : Kind → Document → String
  | .catalog, doc => "catalog@" ++ doc.snapshot
  | _, doc => doc.id ++ "@" ++ doc.revision

/-- Requests to the hub that is copied and to the one that becomes its copy. A request that
fails is answered with nothing. -/
inductive MirrorCall : Type → Type where
  | descriptor : MirrorCall (Option (Option String))
  | fetch (id : String) : MirrorCall (Option Bytes)
  | put (kind : Kind) (filename : String) (bytes : Bytes) : MirrorCall (Option String)

abbrev MirrorProgram := Program MirrorCall String

section Program
variable (hash : Bytes → String) (read : Bytes → Option Document)

/-- Fetch by address and refuse anything that does not hash to the address asked for. -/
def get (id : String) : MirrorProgram Bytes := do
  match ← Program.perform (.fetch id) with
  | none => .fail s!"get {id}"
  | some bytes => if hash bytes = id then .done bytes else .fail s!"REFUSED {id}"

def put (kind : Kind) (filename : String) (bytes : Bytes) : MirrorProgram String := do
  match ← Program.perform (.put kind filename bytes) with
  | none => .fail s!"put {filename}"
  | some given =>
    if given = hash bytes then .done given
    else .fail s!"put {filename}: server named it {given}, the bytes are {hash bytes}"

/-- The head names today's catalog, which is fetched by its address. -/
def head : MirrorProgram (Option String) := do
  match ← Program.perform .descriptor with
  | none => .fail "head"
  | some none => .done none
  | some (some id) =>
    let bytes ← get hash id
    match read bytes with
    | none => .fail "parse"
    | some _ => .done (some id)

/-- An object that has not been seen is fetched and put, and given back as it is read. -/
def copy (kind : Kind) (id : Option String) (seen : List String) :
    MirrorProgram (Option Document × List String) :=
  match id with
  | none => .done (none, seen)
  | some id =>
    if id ∈ seen then .done (none, seen)
    else do
      let bytes ← get hash id
      match read bytes with
      | none => .fail "parse"
      | some doc =>
        let given ← put hash kind (filename kind doc) bytes
        if given ≠ id then .fail "address changed in transit"
        else .done (some doc, seen ++ [id])

/-- A model and the versions before it. -/
def copyVersions : Nat → Option String → List String → MirrorProgram (List String)
  | _, none, seen => .done seen
  | 0, some _, _ => .fail "cut off"
  | rounds + 1, some id, seen => do
    let (doc, seen) ← copy hash read .model (some id) seen
    copyVersions rounds (doc.bind (·.prev)) seen

def copySources : List (Option String) → List String → MirrorProgram (List String)
  | [], seen => .done seen
  | id :: rest, seen => do
    let (_, seen) ← copy hash read .source id seen
    copySources rest seen

def copyListed (rounds : Nat) : List Listed → List String → MirrorProgram (List String)
  | [], seen => .done seen
  | listed :: rest, seen => do
    let seen ← copyVersions hash read rounds listed.model seen
    match listed.sources with
    | none => .fail "o.sources is not iterable"
    | some sources =>
      let seen ← copySources hash read sources seen
      copyListed rounds rest seen

/-- A catalog with all that it lists, and the catalogs before it. -/
def copyCatalogs (bound : Nat) : Nat → Option String → List String → MirrorProgram (List String)
  | _, none, seen => .done seen
  | 0, some _, _ => .fail "cut off"
  | rounds + 1, some id, seen => do
    match ← copy hash read .catalog (some id) seen with
    | (none, seen) => .done seen
    | (some catalog, seen) =>
      match catalog.objects with
      | none => .fail "cannot convert undefined or null to object"
      | some objects =>
        let seen ← copyListed hash read bound objects seen
        copyCatalogs bound rounds catalog.prev seen

/-- The bound is on the objects of one chain. -/
def mirror (bound : Nat) : MirrorProgram (List String) := do
  let root ← head hash read
  copyCatalogs hash read bound bound root []

end Program

/-- An object as it was put. -/
structure Copied where
  kind : Kind
  filename : String
  bytes : Bytes

/-- The catalog that was named, what was answered to which request, and what has been stored. -/
structure Transfer where
  root : Option String := none
  fetched : List (String × Bytes) := []
  stored : List Copied := []

/-- How the two hubs answer a request. -/
structure Verdict where
  descriptor : Option (Option String)
  answer : String → Option Bytes
  stores : Copied → Bool
  given : Copied → Option String

def Verdict.kept (verdict : Verdict) (copied : Copied) : List Copied :=
  if verdict.stores copied then [copied] else []

def serve : {β : Type} → MirrorCall β → Verdict → Transfer → β × Transfer
  | _, .descriptor, verdict, state =>
    (verdict.descriptor, { state with root := verdict.descriptor.join })
  | _, .fetch id, verdict, state =>
    (verdict.answer id,
      { state with fetched := state.fetched ++ ((verdict.answer id).map (id, ·)).toList })
  | _, .put kind filename bytes, verdict, state =>
    (verdict.given ⟨kind, filename, bytes⟩,
      { state with stored := state.stored ++ verdict.kept ⟨kind, filename, bytes⟩ })

/-- What is acknowledged has been stored. -/
def Verdict.Faithful (verdict : Verdict) : Prop :=
  ∀ copied, (verdict.given copied).isSome → verdict.stores copied = true

def Listed.links (listed : Listed) : List (Kind × String) :=
  listed.model.toList.map (Kind.model, ·) ++ ((listed.sources.getD []).filterMap id).map (Kind.source, ·)

/-- What an object of a kind leads to. -/
def links : Kind → Document → List (Kind × String)
  | .model, doc => doc.prev.toList.map (Kind.model, ·)
  | .source, _ => []
  | .catalog, doc =>
    doc.prev.toList.map (Kind.catalog, ·) ++ (doc.objects.getD []).flatMap Listed.links

/-- What is come by from the head, and as which kind of object. -/
inductive Needed (held : String → Document → Prop) (root : Option String) : Kind → String → Prop where
  | root {id : String} (h : root = some id) : Needed held root .catalog id
  | link {kind next : Kind} {id other : String} {doc : Document} (before : Needed held root kind id)
      (found : held id doc) (mem : (next, other) ∈ links kind doc) : Needed held root next other

theorem Needed.mono {held held' : String → Document → Prop} {root : Option String} {kind : Kind}
    {id : String} (h : Needed held root kind id) (hmore : ∀ id doc, held id doc → held' id doc) :
    Needed held' root kind id := by
  induction h with
  | root hroot => exact .root hroot
  | link _ found mem ih => exact .link ih (hmore _ _ found) mem

section Runs
variable (hash : Bytes → String) (read : Bytes → Option Document)

def addresses (stored : List Copied) : List String := stored.map fun copied => hash copied.bytes

/-- An object that is stored, as it is read. -/
def Held (stored : List Copied) (id : String) (doc : Document) : Prop :=
  ∃ copied ∈ stored, hash copied.bytes = id ∧ read copied.bytes = some doc

/-- Nothing is stored twice, and nothing but what the head leads to and what was answered when it
was asked for by its address. -/
structure Sound (state : Transfer) : Prop where
  nodup : (addresses hash state.stored).Nodup
  sent : ∀ copied ∈ state.stored, (hash copied.bytes, copied.bytes) ∈ state.fetched ∧
    ∃ doc, read copied.bytes = some doc ∧ copied.filename = filename copied.kind doc
  needed : ∀ copied ∈ state.stored,
    Needed (Held hash read state.stored) state.root copied.kind (hash copied.bytes)

/-- What an object leads to is stored with it. -/
def Closed (stored : List Copied) (copied : Copied) : Prop :=
  ∀ doc, read copied.bytes = some doc → ∀ link ∈ links copied.kind doc, link.2 ∈ addresses hash stored

/-- More has been stored, and all that it leads to. -/
structure Advanced (before : Transfer) (seen : List String) (after : Transfer) : Prop where
  root : after.root = before.root
  seen : seen = addresses hash after.stored
  grown : ∃ new, after.stored = before.stored ++ new ∧ ∀ copied ∈ new, Closed hash read after.stored copied

/-- An object has been copied, or it was there before. -/
inductive CopiedTo (kind : Kind) (id : Option String) (before : Transfer) (seen : List String)
    (after : Transfer) : Option Document → Prop where
  | known (mem : ∀ known, id = some known → known ∈ addresses hash before.stored)
      (stored : after.stored = before.stored) (root : after.root = before.root)
      (same : seen = addresses hash after.stored) : CopiedTo kind id before seen after none
  | new {copied : Copied} {doc : Document} (asked : id = some (hash copied.bytes))
      (fresh : hash copied.bytes ∉ addresses hash before.stored) (is : copied.kind = kind)
      (reads : read copied.bytes = some doc) (stored : after.stored = before.stored ++ [copied])
      (root : after.root = before.root) (same : seen = addresses hash after.stored) :
      CopiedTo kind id before seen after (some doc)

variable {hash read} {state after : Transfer} {seen : List String} {kind : Kind} {id : String}

theorem addresses_append (stored new : List Copied) :
    addresses hash (stored ++ new) = addresses hash stored ++ addresses hash new :=
  List.map_append

theorem mem_addresses {stored : List Copied} :
    id ∈ addresses hash stored ↔ ∃ copied ∈ stored, hash copied.bytes = id := List.mem_map

theorem Held.append {stored : List Copied} {doc : Document} (h : Held hash read stored id doc)
    (new : List Copied) : Held hash read (stored ++ new) id doc := by
  obtain ⟨copied, hmem, hcopied⟩ := h
  exact ⟨copied, List.mem_append_left _ hmem, hcopied⟩

theorem Closed.append {stored : List Copied} {copied : Copied} (h : Closed hash read stored copied)
    (new : List Copied) : Closed hash read (stored ++ new) copied := by
  intro doc hdoc link hlink
  rw [addresses_append]
  exact List.mem_append_left _ (h doc hdoc link hlink)

theorem Advanced.refl (state : Transfer) :
    Advanced hash read state (addresses hash state.stored) state :=
  ⟨rfl, rfl, [], by simp, by simp⟩

theorem Advanced.trans {last : Transfer} {seen' : List String}
    (h : Advanced hash read state seen after) (h' : Advanced hash read after seen' last) :
    Advanced hash read state seen' last := by
  obtain ⟨new, hnew, hclosed⟩ := h.grown
  obtain ⟨more, hmore, hclosed'⟩ := h'.grown
  refine ⟨h'.root.trans h.root, h'.seen, new ++ more, by rw [hmore, hnew, List.append_assoc], ?_⟩
  intro copied hcopied
  rcases List.mem_append.mp hcopied with hold | hlate
  · exact hmore ▸ (hclosed copied hold).append more
  · exact hclosed' copied hlate

theorem Advanced.mem (h : Advanced hash read state seen after)
    (hid : id ∈ addresses hash state.stored) : id ∈ seen := by
  obtain ⟨new, hnew, -⟩ := h.grown
  rw [h.seen, hnew, addresses_append]
  exact List.mem_append_left _ hid

theorem Advanced.held {doc : Document} (h : Advanced hash read state seen after)
    (hdoc : Held hash read state.stored id doc) : Held hash read after.stored id doc := by
  obtain ⟨new, hnew, -⟩ := h.grown
  exact hnew ▸ hdoc.append new

/-- An object that was copied first, and then all that it leads to. -/
theorem Advanced.first {last : Transfer} {copied : Copied}
    (hstored : after.stored = state.stored ++ [copied]) (hroot : after.root = state.root)
    (h : Advanced hash read after seen last) (hclosed : Closed hash read last.stored copied) :
    Advanced hash read state seen last := by
  obtain ⟨more, hmore, hclosed'⟩ := h.grown
  refine ⟨h.root.trans hroot, h.seen, copied :: more, by rw [hmore, hstored]; simp, ?_⟩
  intro other hother
  rcases List.mem_cons.mp hother with rfl | hother
  · exact hclosed
  · exact hclosed' other hother

theorem Sound.fetched (h : Sound hash read state) (more : List (String × Bytes)) :
    Sound hash read { state with fetched := state.fetched ++ more } where
  nodup := h.nodup
  sent := fun copied hcopied =>
    ⟨List.mem_append_left _ (h.sent copied hcopied).1, (h.sent copied hcopied).2⟩
  needed := h.needed

theorem Sound.stored {copied : Copied} {doc : Document} (h : Sound hash read state)
    (hnew : hash copied.bytes ∉ addresses hash state.stored)
    (hsent : (hash copied.bytes, copied.bytes) ∈ state.fetched)
    (hread : read copied.bytes = some doc) (hname : copied.filename = filename copied.kind doc)
    (hneeded : Needed (Held hash read state.stored) state.root copied.kind (hash copied.bytes)) :
    Sound hash read { state with stored := state.stored ++ [copied] } where
  nodup := by
    rw [addresses_append]
    exact h.nodup.append (List.nodup_singleton _) (by simpa [addresses] using hnew)
  sent := by
    intro other hother
    rcases List.mem_append.mp hother with hold | hlast
    · exact h.sent other hold
    · obtain rfl := List.mem_singleton.mp hlast
      exact ⟨hsent, doc, hread, hname⟩
  needed := by
    intro other hother
    rcases List.mem_append.mp hother with hold | hlast
    · exact (h.needed other hold).mono fun _ _ hheld => hheld.append _
    · obtain rfl := List.mem_singleton.mp hlast
      exact hneeded.mono fun _ _ hheld => hheld.append _

end Runs

/-! ### What a run makes sure of -/

section Makes
variable (hash : Bytes → String) (read : Bytes → Option Document) (answer : String → Option Bytes)
  (root : Option String) (ids : List String) (honest : Prop)

/-- An object as a hub answers it. -/
def Answered (id : String) (doc : Document) : Prop := ∃ bytes, answer id = some bytes ∧ read bytes = some doc

/-- A hub that answers for all its head leads to. -/
structure Whole : Prop where
  listed : ∀ kind id, Needed (Answered read answer) root kind id → id ∈ ids
  answered : ∀ kind id, Needed (Answered read answer) root kind id →
    ∃ bytes doc, answer id = some bytes ∧ hash bytes = id ∧ read bytes = some doc ∧
      (kind = .catalog → ∃ objects, doc.objects = some objects ∧ ∀ listed ∈ objects, listed.sources.isSome)

/-- A hub that answers with what it has, and one that takes what it is given. -/
def honestVerdict : Verdict where
  descriptor := some root
  answer := answer
  stores _ := true
  given copied := some (hash copied.bytes)

/-- How requests may be answered: between honest hubs, or else in any way but that what is
acknowledged has been stored. -/
def May (verdict : Verdict) : Prop :=
  verdict.Faithful ∧ (honest → verdict = honestVerdict hash answer root)

/-- Between honest hubs there is no error. -/
def Ends {α : Type} (post : α → Transfer → Prop) : Except String α → Transfer → Prop
  | .ok value, state => post value state
  | .error _, _ => ¬honest

def Makes {α : Type} (post : α → Transfer → Prop) (program : MirrorProgram α) (state : Transfer) :
    Prop :=
  Program.Ensures serve (May hash answer root honest) (Sound hash read) (Ends honest post) program state

/-- How many of the hub's objects are still to be copied. -/
def unseen (stored : List Copied) : Nat := (ids.filter fun id => id ∉ addresses hash stored).length

variable {hash read answer root ids honest} {α β : Type} {post : α → Transfer → Prop}
  {after : β → Transfer → Prop} {program : MirrorProgram α} {state : Transfer} {kind : Kind}
  {id : String}

theorem Makes.bind {rest : α → MirrorProgram β}
    (h : Makes hash read answer root honest post program state)
    (hrest : ∀ value state, Sound hash read state → post value state →
      Makes hash read answer root honest after (rest value) state) :
    Makes hash read answer root honest after (program >>= rest) state :=
  Program.Ensures.bind (Ends honest post) h hrest fun _ _ _ hfail => hfail

theorem Makes.done {value : α} (hsound : Sound hash read state) (h : post value state) :
    Makes hash read answer root honest post (.done value) state := ⟨hsound, h⟩

theorem Makes.fail {error : String} (hsound : Sound hash read state) (h : ¬honest) :
    Makes hash read answer root honest post (.fail error) state := ⟨hsound, h⟩

theorem unseen_append {stored : List Copied} {copied : Copied}
    (hmem : hash copied.bytes ∈ ids) (hnew : hash copied.bytes ∉ addresses hash stored) :
    unseen hash ids (stored ++ [copied]) < unseen hash ids stored := by
  have hsplit : ids.filter (fun id => id ∉ addresses hash (stored ++ [copied])) =
      (ids.filter fun id => id ∉ addresses hash stored).filter fun id => id ≠ hash copied.bytes := by
    rw [List.filter_filter]
    refine List.filter_congr fun id _ => ?_
    have hboth : id ∈ addresses hash (stored ++ [copied]) ↔
        id ∈ addresses hash stored ∨ id = hash copied.bytes := by
      rw [addresses_append, List.mem_append]
      exact or_congr_right List.mem_singleton
    simp only [hboth, not_or, Bool.decide_and, and_comm, ne_eq]
  rw [unseen, hsplit, unseen, List.length_filter_lt_length_iff_exists]
  exact ⟨hash copied.bytes, by simp [hmem, hnew], by simp⟩

theorem get_makes (hsound : Sound hash read state)
    (hanswer : honest → ∃ bytes, answer id = some bytes ∧ hash bytes = id) :
    Makes hash read answer root honest (fun bytes after =>
        hash bytes = id ∧ after = { state with fetched := state.fetched ++ [(id, bytes)] } ∧
          (honest → answer id = some bytes))
      (get hash id) state := by
  rw [get, Program.perform_bind]
  refine ⟨hsound, fun verdict hmay => ?_⟩
  have hfetched := hsound.fetched ((verdict.answer id).map (id, ·)).toList
  simp only [serve]
  cases hgiven : verdict.answer id with
  | none =>
    rw [hgiven] at hfetched
    refine Makes.fail hfetched fun hhonest => ?_
    obtain ⟨bytes, hbytes, -⟩ := hanswer hhonest
    rw [hmay.2 hhonest] at hgiven
    cases hbytes.symm.trans hgiven
  | some bytes =>
    rw [hgiven] at hfetched
    have hsame : honest → answer id = some bytes := by
      intro hhonest
      rw [hmay.2 hhonest] at hgiven
      exact hgiven
    dsimp only
    split
    · rename_i haddress
      exact Makes.done hfetched ⟨haddress, rfl, hsame⟩
    · rename_i haddress
      refine Makes.fail hfetched fun hhonest => ?_
      obtain ⟨found, hfound, hid⟩ := hanswer hhonest
      obtain rfl := Option.some.inj (hfound.symm.trans (hsame hhonest))
      exact haddress hid

theorem put_makes {name : String} {bytes : Bytes} (hsound : Sound hash read state)
    (hstored : Sound hash read { state with stored := state.stored ++ [⟨kind, name, bytes⟩] }) :
    Makes hash read answer root honest (fun given after =>
        given = hash bytes ∧ after = { state with stored := state.stored ++ [⟨kind, name, bytes⟩] })
      (put hash kind name bytes) state := by
  rw [put, Program.perform_bind]
  refine ⟨hsound, fun verdict hmay => ?_⟩
  have hafter : Sound hash read
      { state with stored := state.stored ++ verdict.kept ⟨kind, name, bytes⟩ } := by
    unfold Verdict.kept
    split
    · exact hstored
    · simpa using hsound
  simp only [serve]
  cases hgiven : verdict.given ⟨kind, name, bytes⟩ with
  | none =>
    refine Makes.fail hafter fun hhonest => ?_
    rw [hmay.2 hhonest] at hgiven
    cases hgiven
  | some given =>
    dsimp only
    have hstores := hmay.1 ⟨kind, name, bytes⟩ (by rw [hgiven]; rfl)
    split
    · rename_i hsame
      rw [Verdict.kept, hstores] at hafter ⊢
      exact Makes.done hafter ⟨hsame, rfl⟩
    · rename_i hother
      refine Makes.fail hafter fun hhonest => hother ?_
      rw [hmay.2 hhonest] at hgiven
      exact (Option.some.inj hgiven).symm

theorem unseen_le {stored new : List Copied} :
    unseen hash ids (stored ++ new) ≤ unseen hash ids stored := by
  rw [unseen, unseen, ← List.countP_eq_length_filter, ← List.countP_eq_length_filter]
  refine List.countP_mono_left fun id _ hnew => ?_
  simp only [addresses_append, List.mem_append, not_or, Bool.decide_and, Bool.and_eq_true] at hnew
  exact hnew.1

theorem Makes.mono {post' : α → Transfer → Prop}
    (h : Makes hash read answer root honest post program state)
    (hpost : ∀ value state, Sound hash read state → post value state → post' value state) :
    Makes hash read answer root honest post' program state := by
  refine Program.Ensures.mono h (fun _ hsound => hsound) ?_
  intro result last hsound hended
  cases result with
  | ok value => exact hpost value last hsound hended
  | error error => exact hended

variable (hash read answer root honest) in
/-- A link that has been come by among the copies, and where the objects are copied from. -/
structure Come (state : Transfer) (link : Kind × String) : Prop where
  here : Needed (Held hash read state.stored) state.root link.1 link.2
  there : honest → Needed (Answered read answer) root link.1 link.2

theorem Come.advanced {link : Kind × String} {seen : List String} {last : Transfer}
    (h : Come hash read answer root honest state link) (hlast : Advanced hash read state seen last) :
    Come hash read answer root honest last link := by
  refine ⟨?_, h.there⟩
  rw [hlast.root]
  exact h.here.mono fun _ _ hheld => hlast.held hheld

/-- What an object leads to has been come by with it. -/
theorem Come.next {doc : Document} (h : Come hash read answer root honest state (kind, id))
    (hheld : Held hash read state.stored id doc) (hanswered : honest → Answered read answer id doc)
    {link : Kind × String} (hlink : link ∈ links kind doc) :
    Come hash read answer root honest state link :=
  ⟨.link h.here hheld hlink, fun hhonest => .link (h.there hhonest) (hanswered hhonest) hlink⟩

variable {rounds bound : Nat} {cur : Option String}

theorem copy_makes (hwhole : honest → Whole hash read answer root ids)
    (hsound : Sound hash read state)
    (hcome : ∀ next, cur = some next → Come hash read answer root honest state (kind, next)) :
    Makes hash read answer root honest (fun found after =>
        CopiedTo hash read kind cur state found.2 after found.1 ∧
          (honest → ∀ doc, found.1 = some doc → ∀ next, cur = some next → Answered read answer next doc))
      (copy hash read kind cur (addresses hash state.stored)) state := by
  cases cur with
  | none => exact .done hsound ⟨.known (by simp) rfl rfl rfl, by simp⟩
  | some id =>
    rw [copy]
    split
    · rename_i hmem
      refine .done hsound ⟨.known ?_ rfl rfl rfl, by simp⟩
      intro known hknown
      obtain rfl := Option.some.inj hknown
      exact hmem
    · rename_i hfresh
      obtain ⟨hneeded, hthere⟩ := hcome id rfl
      have hanswer : honest → ∃ bytes, answer id = some bytes ∧ hash bytes = id := by
        intro hhonest
        obtain ⟨bytes, -, hbytes, haddress, -⟩ := (hwhole hhonest).answered _ _ (hthere hhonest)
        exact ⟨bytes, hbytes, haddress⟩
      apply (get_makes hsound hanswer).bind
      rintro bytes after hafter ⟨rfl, rfl, hsame⟩
      split
      · rename_i hread
        refine .fail hafter fun hhonest => ?_
        obtain ⟨found, doc, hfound, -, hdoc, -⟩ := (hwhole hhonest).answered _ _ (hthere hhonest)
        obtain rfl := Option.some.inj (hfound.symm.trans (hsame hhonest))
        cases hdoc.symm.trans hread
      · rename_i doc hread
        let copied : Copied := ⟨kind, filename kind doc, bytes⟩
        have hsent : (hash copied.bytes, copied.bytes) ∈ state.fetched ++ [(hash bytes, bytes)] := by
          simp [copied]
        have hstored := hafter.stored (show hash copied.bytes ∉ _ from hfresh) hsent hread rfl hneeded
        apply (put_makes hafter hstored).bind
        rintro given last hlast ⟨rfl, rfl⟩
        rw [if_neg (not_not.mpr rfl)]
        refine .done hlast ⟨?_, fun hhonest found hfound next hnext => ?_⟩
        · exact .new rfl hfresh rfl hread rfl rfl (addresses_append state.stored [copied]).symm
        · obtain rfl := Option.some.inj hfound
          obtain rfl := Option.some.inj hnext
          exact ⟨bytes, hsame hhonest, hread⟩

@[simp] theorem copyVersions_none (seen : List String) :
    copyVersions hash read rounds none seen = .done seen := by
  cases rounds <;> rfl

@[simp] theorem copyCatalogs_none (seen : List String) :
    copyCatalogs hash read bound rounds none seen = .done seen := by
  cases rounds <;> rfl

theorem Advanced.unseen_le {seen : List String} {last : Transfer}
    (h : Advanced hash read state seen last) : unseen hash ids last.stored ≤ unseen hash ids state.stored := by
  obtain ⟨new, hnew, -⟩ := h.grown
  rw [hnew]
  exact Mirror.unseen_le

/-- Nothing was copied, for it was there. -/
theorem Advanced.same {last : Transfer} (hstored : last.stored = state.stored)
    (hroot : last.root = state.root) :
    Advanced hash read state (addresses hash last.stored) last :=
  ⟨hroot, rfl, [], by simpa using hstored, by simp⟩

/-- What is left to be copied gets less with every object that is. -/
theorem unseen_new {last : Transfer} {copied : Copied}
    (hwhole : honest → Whole hash read answer root ids)
    (hcome : Come hash read answer root honest state (kind, hash copied.bytes))
    (hfresh : hash copied.bytes ∉ addresses hash state.stored)
    (hlast : last.stored = state.stored ++ [copied])
    (hrounds : honest → unseen hash ids state.stored < rounds + 1) :
    honest → unseen hash ids last.stored < rounds := by
  intro hhonest
  have hmem := (hwhole hhonest).listed _ _ (hcome.there hhonest)
  have hless := unseen_append hmem hfresh
  rw [hlast]
  exact Nat.lt_of_lt_of_le hless (Nat.le_of_lt_succ (hrounds hhonest))

/-- What a copy that has just been made leads to has been come by. -/
theorem Come.copied {last : Transfer} {copied : Copied} {doc : Document}
    (h : Come hash read answer root honest state (kind, hash copied.bytes))
    (hstored : last.stored = state.stored ++ [copied]) (hroot : last.root = state.root)
    (hread : read copied.bytes = some doc)
    (hanswered : honest → Answered read answer (hash copied.bytes) doc) {link : Kind × String}
    (hlink : link ∈ links kind doc) : Come hash read answer root honest last link := by
  have hhere : Come hash read answer root honest last (kind, hash copied.bytes) := by
    refine ⟨?_, h.there⟩
    rw [hroot, hstored]
    exact h.here.mono fun _ _ hheld => hheld.append _
  have hheld : Held hash read last.stored (hash copied.bytes) doc :=
    ⟨copied, by simp [hstored], rfl, hread⟩
  exact hhere.next hheld hanswered hlink

theorem copyVersions_makes (hwhole : honest → Whole hash read answer root ids)
    (hsound : Sound hash read state)
    (hcome : ∀ next, cur = some next → Come hash read answer root honest state (.model, next))
    (hrounds : honest → unseen hash ids state.stored < rounds) :
    Makes hash read answer root honest (fun seen after =>
        Advanced hash read state seen after ∧ ∀ next, cur = some next → next ∈ seen)
      (copyVersions hash read rounds cur (addresses hash state.stored)) state := by
  induction rounds generalizing cur state with
  | zero =>
    cases cur with
    | none => exact .done hsound ⟨.refl state, by simp⟩
    | some id => exact .fail hsound fun hhonest => absurd (hrounds hhonest) (Nat.not_lt_zero _)
  | succ rounds ih =>
    cases cur with
    | none => exact .done hsound ⟨.refl state, by simp⟩
    | some id =>
      rw [copyVersions]
      apply (copy_makes hwhole hsound hcome).bind
      rintro ⟨found, seen⟩ after hafter ⟨hcopied, hanswered⟩
      cases hcopied with
      | known hmem hstored hroot hsame =>
        obtain rfl : seen = addresses hash after.stored := hsame
        dsimp only
        rw [Option.bind_none, copyVersions_none]
        refine .done hafter ⟨.same hstored hroot, ?_⟩
        simpa [hstored] using hmem
      | @new copied doc hasked hfresh his hread hstored hroot hsame =>
        obtain rfl := Option.some.inj hasked
        have hthis := hcome _ rfl
        have hprev : ∀ next, doc.prev = some next →
            Come hash read answer root honest after (.model, next) := by
          intro next hnext
          apply hthis.copied hstored hroot hread fun hhonest => hanswered hhonest doc rfl _ rfl
          simp [links, hnext]
        obtain rfl : seen = addresses hash after.stored := hsame
        apply (ih hafter hprev (unseen_new hwhole hthis hfresh hstored hrounds)).mono
        rintro seen last hlast ⟨hadvanced, hseen⟩
        refine ⟨hadvanced.first hstored hroot ?_, ?_⟩
        · intro doc' hdoc' link hlink
          obtain rfl := Option.some.inj (hread.symm.trans hdoc')
          rw [his, links, List.mem_map] at hlink
          obtain ⟨next, hnext, rfl⟩ := hlink
          exact hadvanced.seen ▸ hseen next (Option.mem_toList.mp hnext)
        · intro next hnext
          obtain rfl := Option.some.inj hnext
          apply hadvanced.mem
          simp [hstored, addresses]

theorem copySources_makes {sources : List (Option String)}
    (hwhole : honest → Whole hash read answer root ids) (hsound : Sound hash read state)
    (hcome : ∀ next, some next ∈ sources → Come hash read answer root honest state (.source, next)) :
    Makes hash read answer root honest (fun seen after =>
        Advanced hash read state seen after ∧ ∀ next, some next ∈ sources → next ∈ seen)
      (copySources hash read sources (addresses hash state.stored)) state := by
  induction sources generalizing state with
  | nil => exact .done hsound ⟨.refl state, by simp⟩
  | cons cur rest ih =>
    rw [copySources]
    have hfirst : ∀ next, cur = some next → Come hash read answer root honest state (.source, next) :=
      fun next hnext => hcome next (hnext ▸ List.mem_cons_self)
    apply (copy_makes hwhole hsound hfirst).bind
    rintro ⟨found, seen⟩ after hafter ⟨hcopied, -⟩
    have hstep : Advanced hash read state seen after ∧ ∀ next, cur = some next → next ∈ seen := by
      cases hcopied with
      | known hmem hstored hroot hsame =>
        obtain rfl : seen = addresses hash after.stored := hsame
        exact ⟨.same hstored hroot, by simpa [hstored] using hmem⟩
      | @new copied doc hasked hfresh his hread hstored hroot hsame =>
        have hclosed : Closed hash read after.stored copied := by
          intro doc' _ link hlink
          rw [his] at hlink
          cases hlink
        obtain rfl : seen = addresses hash after.stored := hsame
        refine ⟨.first hstored hroot (.refl after) hclosed, fun next hnext => ?_⟩
        obtain rfl := Option.some.inj (hasked.symm.trans hnext)
        simp [hstored, addresses]
    obtain ⟨hadvanced, hseen⟩ := hstep
    have hlater : ∀ next, some next ∈ rest → Come hash read answer root honest after (.source, next) :=
      fun next hnext => (hcome next (List.mem_cons_of_mem _ hnext)).advanced hadvanced
    rw [hadvanced.seen]
    apply (ih hafter hlater).mono
    rintro seen' last hlast ⟨hadvanced', hseen'⟩
    refine ⟨hadvanced.trans hadvanced', fun next hnext => ?_⟩
    rcases List.mem_cons.mp hnext with hhead | htail
    · exact hadvanced'.mem (hadvanced.seen ▸ hseen next hhead.symm)
    · exact hseen' next htail

theorem copyListed_makes {objects : List Listed}
    (hwhole : honest → Whole hash read answer root ids) (hsound : Sound hash read state)
    (hcome : ∀ listed ∈ objects, ∀ link ∈ listed.links, Come hash read answer root honest state link)
    (hsources : honest → ∀ listed ∈ objects, listed.sources.isSome)
    (hrounds : honest → unseen hash ids state.stored < rounds) :
    Makes hash read answer root honest (fun seen after =>
        Advanced hash read state seen after ∧ ∀ listed ∈ objects, ∀ link ∈ listed.links, link.2 ∈ seen)
      (copyListed hash read rounds objects (addresses hash state.stored)) state := by
  induction objects generalizing state with
  | nil => exact .done hsound ⟨.refl state, by simp⟩
  | cons listed rest ih =>
    rw [copyListed]
    have hhere := hcome listed List.mem_cons_self
    have hmodel : ∀ next, listed.model = some next →
        Come hash read answer root honest state (.model, next) := by
      intro next hnext
      apply hhere
      simp [Listed.links, hnext]
    apply (copyVersions_makes hwhole hsound hmodel hrounds).bind
    rintro seen after hafter ⟨hversions, hmodels⟩
    split
    · rename_i hnone
      refine .fail hafter fun hhonest => ?_
      have hsome := hsources hhonest listed List.mem_cons_self
      rw [hnone] at hsome
      cases hsome
    · rename_i sources hsome
      have hlisted : ∀ next, some next ∈ sources →
          Come hash read answer root honest after (.source, next) := by
        intro next hnext
        apply (hhere (.source, next) ?_).advanced hversions
        simp [Listed.links, hsome, hnext]
      rw [hversions.seen]
      apply (copySources_makes hwhole hafter hlisted).bind
      rintro seen' last hlast ⟨hcopied, hsourced⟩
      have hboth := hversions.trans hcopied
      have hless : honest → unseen hash ids last.stored < rounds :=
        fun hhonest => Nat.lt_of_le_of_lt hboth.unseen_le (hrounds hhonest)
      rw [hboth.seen]
      apply (ih hlast
        (fun other hother link hlink =>
          (hcome other (List.mem_cons_of_mem _ hother) link hlink).advanced hboth)
        (fun hhonest other hother => hsources hhonest other (List.mem_cons_of_mem _ hother)) hless).mono
      rintro seen'' final hfinal ⟨hrest, hlinks⟩
      refine ⟨hboth.trans hrest, fun other hother link hlink => ?_⟩
      rcases List.mem_cons.mp hother with rfl | hother
      · apply hrest.mem
        rw [← hboth.seen]
        rw [Listed.links, List.mem_append, List.mem_map, List.mem_map] at hlink
        rcases hlink with ⟨next, hnext, rfl⟩ | ⟨next, hnext, rfl⟩
        · exact hcopied.mem (hversions.seen ▸ hmodels next (Option.mem_toList.mp hnext))
        · apply hsourced
          simpa [hsome] using hnext
      · exact hlinks other hother link hlink

theorem copyCatalogs_makes (hwhole : honest → Whole hash read answer root ids)
    (hsound : Sound hash read state)
    (hcome : ∀ next, cur = some next → Come hash read answer root honest state (.catalog, next))
    (hrounds : honest → unseen hash ids state.stored < rounds)
    (hbound : honest → unseen hash ids state.stored < bound) :
    Makes hash read answer root honest (fun seen after =>
        Advanced hash read state seen after ∧ ∀ next, cur = some next → next ∈ seen)
      (copyCatalogs hash read bound rounds cur (addresses hash state.stored)) state := by
  induction rounds generalizing cur state with
  | zero =>
    cases cur with
    | none => exact .done hsound ⟨.refl state, by simp⟩
    | some id => exact .fail hsound fun hhonest => absurd (hrounds hhonest) (Nat.not_lt_zero _)
  | succ rounds ih =>
    cases cur with
    | none => exact .done hsound ⟨.refl state, by simp⟩
    | some id =>
      rw [copyCatalogs]
      apply (copy_makes hwhole hsound hcome).bind
      rintro ⟨found, seen⟩ after hafter ⟨hcopied, hanswered⟩
      cases hcopied with
      | known hmem hstored hroot hsame =>
        obtain rfl : seen = addresses hash after.stored := hsame
        refine .done hafter ⟨.same hstored hroot, ?_⟩
        simpa [hstored] using hmem
      | @new copied doc hasked hfresh his hread hstored hroot hsame =>
        obtain rfl := Option.some.inj hasked
        have hthis := hcome _ rfl
        have hfound : honest → Answered read answer (hash copied.bytes) doc :=
          fun hhonest => hanswered hhonest doc rfl _ rfl
        have hfit : honest → ∃ objects, doc.objects = some objects ∧
            ∀ listed ∈ objects, listed.sources.isSome := by
          intro hhonest
          obtain ⟨bytes, doc', hbytes, -, hdoc', hcatalog⟩ :=
            (hwhole hhonest).answered _ _ (hthis.there hhonest)
          obtain ⟨bytes', hbytes', hdoc⟩ := hfound hhonest
          obtain rfl := Option.some.inj (hbytes.symm.trans hbytes')
          obtain rfl := Option.some.inj (hdoc'.symm.trans hdoc)
          exact hcatalog rfl
        dsimp only
        split
        · rename_i hnone
          refine .fail hafter fun hhonest => ?_
          obtain ⟨objects, hobjects, -⟩ := hfit hhonest
          cases hnone.symm.trans hobjects
        · rename_i objects hobjects
          have hlisted : ∀ listed ∈ objects, ∀ link ∈ listed.links,
              Come hash read answer root honest after link := by
            intro listed hmem link hlink
            apply hthis.copied hstored hroot hread hfound
            rw [links, hobjects]
            exact List.mem_append_right _ (List.mem_flatMap.mpr ⟨listed, hmem, hlink⟩)
          have hsources : honest → ∀ listed ∈ objects, listed.sources.isSome := by
            intro hhonest
            obtain ⟨objects', hobjects', hsome⟩ := hfit hhonest
            obtain rfl := Option.some.inj (hobjects.symm.trans hobjects')
            exact hsome
          have hless := unseen_new hwhole hthis hfresh hstored hrounds
          have hwithin : honest → unseen hash ids after.stored < bound := by
            intro hhonest
            rw [hstored]
            exact Nat.lt_of_le_of_lt unseen_le (hbound hhonest)
          obtain rfl : seen = addresses hash after.stored := hsame
          apply (copyListed_makes hwhole hafter hlisted hsources hwithin).bind
          rintro seen' next hnext ⟨hcontents, hlinks⟩
          have hprev : ∀ link, doc.prev = some link →
              Come hash read answer root honest next (.catalog, link) := by
            intro link hlink
            apply Come.advanced ?_ hcontents
            apply hthis.copied hstored hroot hread hfound
            simp [links, hlink]
          rw [hcontents.seen]
          apply (ih hnext hprev
            (fun hhonest => Nat.lt_of_le_of_lt hcontents.unseen_le (hless hhonest))
            (fun hhonest => Nat.lt_of_le_of_lt hcontents.unseen_le (hwithin hhonest))).mono
          rintro seen'' last hlast ⟨hrest, hseen⟩
          have hall := hcontents.trans hrest
          refine ⟨hall.first hstored hroot ?_, ?_⟩
          · intro doc' hdoc' link hlink
            obtain rfl := Option.some.inj (hread.symm.trans hdoc')
            rw [← hall.seen]
            rw [his, links, hobjects, List.mem_append, List.mem_map, List.mem_flatMap] at hlink
            rcases hlink with ⟨other, hother, rfl⟩ | ⟨listed, hmem, hlink⟩
            · exact hseen other (Option.mem_toList.mp hother)
            · exact hrest.mem (hcontents.seen ▸ hlinks listed hmem link hlink)
          · intro link hlink
            obtain rfl := Option.some.inj hlink
            apply hall.mem
            simp [hstored, addresses]

/-- A finished copy: the catalog that was named, and with every object all that it leads to. -/
structure Complete (hash : Bytes → String) (read : Bytes → Option Document) (seen : List String)
    (state : Transfer) : Prop where
  same : seen = addresses hash state.stored
  root : ∀ id, state.root = some id → id ∈ seen
  closed : ∀ copied ∈ state.stored, Closed hash read state.stored copied

theorem head_makes (hwhole : honest → Whole hash read answer root ids) :
    Makes hash read answer root honest (fun found after =>
        after.stored = [] ∧ after.root = found ∧ (honest → found = root)) (head hash read) {} := by
  have hempty : Sound hash read {} := ⟨List.nodup_nil, by simp, by simp⟩
  rw [head, Program.perform_bind]
  refine ⟨hempty, fun verdict hmay => ?_⟩
  have hsound : Sound hash read { root := verdict.descriptor.join } :=
    ⟨List.nodup_nil, by simp, by simp⟩
  simp only [serve]
  cases hgiven : verdict.descriptor with
  | none =>
    rw [hgiven] at hsound
    refine Makes.fail hsound fun hhonest => ?_
    rw [hmay.2 hhonest] at hgiven
    cases hgiven
  | some found =>
    rw [hgiven] at hsound
    have hroot : honest → found = root := by
      intro hhonest
      rw [hmay.2 hhonest] at hgiven
      exact (Option.some.inj hgiven).symm
    cases found with
    | none => exact Makes.done hsound ⟨rfl, rfl, hroot⟩
    | some id =>
      have hanswered : honest → ∃ bytes doc, answer id = some bytes ∧ hash bytes = id ∧
          read bytes = some doc := by
        intro hhonest
        obtain ⟨bytes, doc, hbytes, haddress, hdoc, -⟩ :=
          (hwhole hhonest).answered _ _ (.root (hroot hhonest).symm)
        exact ⟨bytes, doc, hbytes, haddress, hdoc⟩
      have hanswer : honest → ∃ bytes, answer id = some bytes ∧ hash bytes = id := by
        intro hhonest
        obtain ⟨bytes, doc, hbytes, haddress, -⟩ := hanswered hhonest
        exact ⟨bytes, hbytes, haddress⟩
      apply Makes.bind (get_makes hsound hanswer)
      rintro bytes after hafter ⟨-, rfl, hsame⟩
      split
      · rename_i hread
        refine Makes.fail hafter fun hhonest => ?_
        obtain ⟨found, doc, hfound, -, hdoc⟩ := hanswered hhonest
        obtain rfl := Option.some.inj (hfound.symm.trans (hsame hhonest))
        cases hdoc.symm.trans hread
      · exact Makes.done hafter ⟨rfl, rfl, hroot⟩

theorem mirror_makes (hwhole : honest → Whole hash read answer root ids)
    (hbound : honest → ids.length < bound) :
    Makes hash read answer root honest (fun seen after =>
        Complete hash read seen after ∧ (honest → after.root = root))
      (mirror hash read bound) {} := by
  rw [mirror]
  apply (head_makes hwhole).bind
  rintro found state hsound ⟨hempty, rfl, hroot⟩
  have hcome : ∀ next, state.root = some next →
      Come hash read answer root honest state (.catalog, next) := by
    intro next hnext
    refine ⟨.root hnext, fun hhonest => .root ?_⟩
    rw [← hroot hhonest, hnext]
  have hless : honest → unseen hash ids state.stored < bound := by
    intro hhonest
    exact Nat.lt_of_le_of_lt (List.length_filter_le _ _) (hbound hhonest)
  have hcatalogs := copyCatalogs_makes hwhole hsound hcome hless hless
  rw [hempty] at hcatalogs
  apply hcatalogs.mono
  rintro seen last hlast ⟨hadvanced, hnamed⟩
  obtain ⟨new, hnew, hclosed⟩ := hadvanced.grown
  rw [hempty, List.nil_append] at hnew
  refine ⟨⟨hadvanced.seen, fun id hid => hnamed id (hadvanced.root ▸ hid), ?_⟩, fun hhonest => ?_⟩
  · intro copied hcopied
    exact hclosed copied (hnew ▸ hcopied)
  · exact hadvanced.root.trans (hroot hhonest)

end Makes

section Runs
variable {hash : Bytes → String} {read : Bytes → Option Document} {bound : Nat}

/-- No address is come by as two kinds of object. -/
def Apart (held : String → Document → Prop) (root : Option String) : Prop :=
  ∀ {kind other : Kind} {id : String}, Needed held root kind id → Needed held root other id → kind = other

theorem Sound.same {state : Transfer} {copied other : Copied} (h : Sound hash read state)
    (hcopied : copied ∈ state.stored) (hother : other ∈ state.stored)
    (hsame : hash copied.bytes = hash other.bytes) : copied = other :=
  List.inj_on_of_nodup_map h.nodup hcopied hother hsame

/-- A finished copy has all that is come by, under the kind it is come by. -/
theorem Complete.needed {state : Transfer} {seen : List String} (h : Complete hash read seen state)
    (hsound : Sound hash read state) (hapart : Apart (Held hash read state.stored) state.root)
    {kind : Kind} {id : String} (hneeded : Needed (Held hash read state.stored) state.root kind id) :
    ∃ copied ∈ state.stored, copied.kind = kind ∧ hash copied.bytes = id := by
  have hmem : id ∈ seen := by
    induction hneeded with
    | root hroot => exact h.root _ hroot
    | @link kind next id other doc hbefore hfound hlink ih =>
      obtain ⟨copied, hcopied, haddress⟩ := mem_addresses.mp (h.same ▸ ih)
      obtain ⟨again, hagain, hsame, hread⟩ := hfound
      obtain rfl := hsound.same hcopied hagain (haddress.trans hsame.symm)
      have hkind : copied.kind = kind := by
        apply hapart (hsound.needed copied hcopied)
        rw [haddress]
        exact hbefore
      rw [h.same]
      exact h.closed copied hcopied doc hread _ (hkind ▸ hlink)
  obtain ⟨copied, hcopied, rfl⟩ := mem_addresses.mp (h.same ▸ hmem)
  exact ⟨copied, hcopied, hapart (hsound.needed copied hcopied) hneeded, rfl⟩

/-- However the source answers and wherever the run ends, nothing is stored but what was asked for
by its address and leads from the head. A run that ends well has stored all of that. -/
theorem mirror_complete (hash : Bytes → String) (read : Bytes → Option Document) (bound : Nat)
    (verdicts : List Verdict) (hfaithful : ∀ verdict ∈ verdicts, verdict.Faithful) :
    let run := Program.advance serve verdicts (mirror hash read bound) {}
    Sound hash read run.2 ∧ ∀ seen, run.1.outcome = some (.ok seen) →
      Complete hash read seen run.2 ∧ (Apart (Held hash read run.2.stored) run.2.root →
        ∀ kind id, Needed (Held hash read run.2.stored) run.2.root kind id ↔
          ∃ copied ∈ run.2.stored, copied.kind = kind ∧ hash copied.bytes = id) := by
  intro run
  have hwhole : False → Whole hash read (fun _ => none) none [] := False.elim
  have hmakes : Makes hash read (fun _ => none) none False _ (mirror hash read bound) {} :=
    mirror_makes hwhole False.elim
  obtain ⟨hsound, hended⟩ := hmakes.sound fun verdict hverdict =>
    ⟨hfaithful verdict hverdict, False.elim⟩
  refine ⟨hsound, fun seen hseen => ?_⟩
  obtain ⟨hcomplete, -⟩ := hended _ hseen
  refine ⟨hcomplete, fun hapart kind id => ⟨hcomplete.needed hsound hapart, ?_⟩⟩
  rintro ⟨copied, hcopied, rfl, rfl⟩
  exact hsound.needed copied hcopied

variable {answer : String → Option Bytes} {root : Option String} {ids : List String}

/-- What an honest hub was asked for is what it has. -/
theorem honest_fetched (verdicts : List Verdict) (program : MirrorProgram (List String))
    (hhonest : ∀ verdict ∈ verdicts, verdict = honestVerdict hash answer root) :
    ∀ item ∈ (Program.advance serve verdicts program {}).2.fetched, answer item.1 = some item.2 := by
  let fits : Transfer → Prop := fun state => ∀ item ∈ state.fetched, answer item.1 = some item.2
  have hkeeps : ∀ {β : Type} (operation : MirrorCall β) (verdict : Verdict) (state : Transfer),
      verdict = honestVerdict hash answer root → fits state → fits (serve operation verdict state).2 := by
    rintro β operation verdict state rfl hfits
    cases operation with
    | descriptor => exact hfits
    | fetch id =>
      intro item hitem
      rcases List.mem_append.mp hitem with hold | hnew
      · exact hfits item hold
      · obtain ⟨bytes, hbytes, rfl⟩ := Option.map_eq_some_iff.mp (Option.mem_toList.mp hnew)
        exact hbytes
    | put kind filename bytes => exact hfits
  have hensures : Program.Ensures serve (· = honestVerdict hash answer root) fits (fun _ _ => True)
      program {} := .keeps (fun item hitem => by cases hitem) hkeeps
  exact (hensures.sound hhonest).1

/-- Of an honest hub the copy has what it answers. -/
structure Honest (answer : String → Option Bytes) (root : Option String) (state : Transfer) : Prop where
  root : state.root = root
  fetched : ∀ item ∈ state.fetched, answer item.1 = some item.2

theorem Honest.answered {state : Transfer} (h : Honest answer root state)
    (hsound : Sound hash read state) {copied : Copied} (hcopied : copied ∈ state.stored) :
    answer (hash copied.bytes) = some copied.bytes :=
  h.fetched _ (hsound.sent copied hcopied).1

theorem Honest.needed {state : Transfer} (h : Honest answer root state) (hsound : Sound hash read state)
    {kind : Kind} {id : String} (hneeded : Needed (Held hash read state.stored) state.root kind id) :
    Needed (Answered read answer) root kind id := by
  rw [h.root] at hneeded
  apply hneeded.mono
  rintro id doc ⟨copied, hcopied, rfl, hread⟩
  exact ⟨copied.bytes, h.answered hsound hcopied, hread⟩

/-- All that the honest hub's head leads to is in the finished copy. -/
theorem Honest.copied {state : Transfer} {seen : List String} (h : Honest answer root state)
    (hsound : Sound hash read state) (hcomplete : Complete hash read seen state)
    (hapart : Apart (Answered read answer) root) {kind : Kind} {id : String}
    (hneeded : Needed (Answered read answer) root kind id) :
    ∃ copied ∈ state.stored, copied.kind = kind ∧ hash copied.bytes = id := by
  have hapart' : Apart (Held hash read state.stored) state.root :=
    fun hone hother => hapart (h.needed hsound hone) (h.needed hsound hother)
  apply hcomplete.needed hsound hapart'
  induction hneeded with
  | root hroot => exact .root (h.root.trans hroot)
  | link _ hfound hlink ih =>
    obtain ⟨copied, hcopied, -, rfl⟩ := hcomplete.needed hsound hapart' ih
    obtain ⟨bytes, hbytes, hread⟩ := hfound
    obtain rfl := Option.some.inj ((h.answered hsound hcopied).symm.trans hbytes)
    exact .link ih ⟨copied, hcopied, rfl, hread⟩ hlink

/-- Between honest hubs a copy comes to its end, with all that the head leads to, just as it is
answered, and with nothing else. -/
theorem mirror_ends (hwhole : Whole hash read answer root ids)
    (hapart : Apart (Answered read answer) root) (hbound : ids.length < bound) :
    ∃ count, ∀ more, count ≤ more →
      let run := Program.advance serve (List.replicate more (honestVerdict hash answer root))
        (mirror hash read bound) {}
      ∃ seen, run.1.outcome = some (.ok seen) ∧ Sound hash read run.2 ∧
        ∀ kind id bytes,
          (∃ copied ∈ run.2.stored, copied.kind = kind ∧ hash copied.bytes = id ∧ copied.bytes = bytes) ↔
            Needed (Answered read answer) root kind id ∧ answer id = some bytes := by
  obtain ⟨count, hcount⟩ := Program.comes_to_end serve (mirror hash read bound)
    (honestVerdict hash answer root) {}
  refine ⟨count, fun more hmore => ?_⟩
  intro run
  have hverdicts : ∀ verdict ∈ List.replicate more (honestVerdict hash answer root),
      verdict = honestVerdict hash answer root := fun verdict hverdict => List.eq_of_mem_replicate hverdict
  have hmakes : Makes hash read answer root True _ (mirror hash read bound) {} :=
    mirror_makes (fun _ => hwhole) (fun _ => hbound)
  obtain ⟨hsound, hended⟩ := hmakes.sound fun verdict hverdict => by
    obtain rfl := hverdicts verdict hverdict
    exact ⟨fun _ _ => rfl, fun _ => rfl⟩
  obtain ⟨result, hresult⟩ := Option.isSome_iff_exists.mp (hcount more hmore)
  cases result with
  | error error => exact absurd trivial (hended _ hresult)
  | ok seen =>
    obtain ⟨hcomplete, hroot⟩ := hended _ hresult
    have hfetched := honest_fetched _ (mirror hash read bound) hverdicts
    have hhonest : Honest answer root run.2 := ⟨hroot trivial, hfetched⟩
    refine ⟨seen, hresult, hsound, fun kind id bytes => ⟨?_, ?_⟩⟩
    · rintro ⟨copied, hcopied, rfl, rfl, rfl⟩
      exact ⟨hhonest.needed hsound (hsound.needed copied hcopied), hhonest.answered hsound hcopied⟩
    · rintro ⟨hneeded, hanswer⟩
      obtain ⟨copied, hcopied, hkind, rfl⟩ := hhonest.copied hsound hcomplete hapart hneeded
      have hbytes := (hhonest.answered hsound hcopied).symm.trans hanswer
      exact ⟨copied, hcopied, hkind, rfl, Option.some.inj hbytes⟩

end Runs

/-! ### A hub with one model and one source of it -/

def sampleHash : Bytes → String
  | [1] => "blake3:catalog"
  | [2] => "blake3:model"
  | [3] => "blake3:source"
  | _ => "blake3:other"

def sampleRead : Bytes → Option Document
  | [1] => some ⟨"", "", "2026-01-01", none, some [⟨some "blake3:model", some [some "blake3:source"]⟩]⟩
  | [2] => some ⟨"o/m", "r1", "", none, none⟩
  | [3] => some ⟨"o/m", "r1", "", none, none⟩
  | _ => none

def sampleAnswer : String → Option Bytes
  | "blake3:catalog" => some [1]
  | "blake3:model" => some [2]
  | "blake3:source" => some [3]
  | _ => none

def sampleVerdict : Verdict := honestVerdict sampleHash sampleAnswer (some "blake3:catalog")

theorem mirror_complete_sample :
    let run := Program.advance serve (List.replicate 8 sampleVerdict) (mirror sampleHash sampleRead 4) {}
    Sound sampleHash sampleRead run.2 ∧
      ∃ seen, run.1.outcome = some (.ok seen) ∧ Complete sampleHash sampleRead seen run.2 := by
  have hfaithful : ∀ verdict ∈ List.replicate 8 sampleVerdict, verdict.Faithful := by
    intro verdict hverdict
    obtain rfl := List.eq_of_mem_replicate hverdict
    exact fun _ _ => rfl
  have hcomplete := mirror_complete sampleHash sampleRead 4 (List.replicate 8 sampleVerdict) hfaithful
  have hended : (Program.advance serve (List.replicate 8 sampleVerdict)
      (mirror sampleHash sampleRead 4) {}).1.outcome =
      some (.ok ["blake3:catalog", "blake3:model", "blake3:source"]) := by
    rfl
  exact ⟨hcomplete.1, _, hended, (hcomplete.2 _ hended).1⟩

def sampleNeeds : List (Kind × String) :=
  [(.catalog, "blake3:catalog"), (.model, "blake3:model"), (.source, "blake3:source")]

theorem sample_needed {kind : Kind} {id : String}
    (h : Needed (Answered sampleRead sampleAnswer) (some "blake3:catalog") kind id) :
    (kind, id) ∈ sampleNeeds := by
  induction h with
  | root hroot =>
    obtain rfl := Option.some.inj hroot
    decide
  | link _ hfound hlink ih =>
    obtain ⟨bytes, hbytes, hread⟩ := hfound
    simp only [sampleNeeds, List.mem_cons, Prod.mk.injEq, List.not_mem_nil, or_false] at ih
    rcases ih with ⟨rfl, rfl⟩ | ⟨rfl, rfl⟩ | ⟨rfl, rfl⟩
    · obtain rfl := Option.some.inj hbytes
      obtain rfl := Option.some.inj hread
      simp [links, Listed.links] at hlink
      simp [sampleNeeds, hlink]
    · obtain rfl := Option.some.inj hbytes
      obtain rfl := Option.some.inj hread
      cases hlink
    · cases hlink

theorem mirror_ends_sample :
    ∃ count, ∀ more, count ≤ more →
      let run := Program.advance serve (List.replicate more sampleVerdict) (mirror sampleHash sampleRead 4) {}
      ∃ seen, run.1.outcome = some (.ok seen) ∧ Sound sampleHash sampleRead run.2 ∧
        ∀ kind id bytes, (∃ copied ∈ run.2.stored,
            copied.kind = kind ∧ sampleHash copied.bytes = id ∧ copied.bytes = bytes) ↔
          Needed (Answered sampleRead sampleAnswer) (some "blake3:catalog") kind id ∧
            sampleAnswer id = some bytes := by
  have hwhole : Whole sampleHash sampleRead sampleAnswer (some "blake3:catalog")
      (sampleNeeds.map Prod.snd) := by
    refine ⟨fun kind id hneeded => List.mem_map_of_mem (sample_needed hneeded), fun kind id hneeded => ?_⟩
    have hmem := sample_needed hneeded
    simp only [sampleNeeds, List.mem_cons, Prod.mk.injEq, List.not_mem_nil, or_false] at hmem
    rcases hmem with ⟨rfl, rfl⟩ | ⟨rfl, rfl⟩ | ⟨rfl, rfl⟩
    · exact ⟨[1], _, rfl, rfl, rfl, fun _ => ⟨_, rfl, by simp⟩⟩
    · exact ⟨[2], _, rfl, rfl, rfl, by simp⟩
    · exact ⟨[3], _, rfl, rfl, rfl, by simp⟩
  have hapart : Apart (Answered sampleRead sampleAnswer) (some "blake3:catalog") := by
    intro kind other id hone hother
    have hmem := sample_needed hone
    have hmem' := sample_needed hother
    simp only [sampleNeeds, List.mem_cons, Prod.mk.injEq, List.not_mem_nil, or_false] at hmem hmem'
    rcases hmem with ⟨rfl, rfl⟩ | ⟨rfl, rfl⟩ | ⟨rfl, rfl⟩ <;> simp_all
  exact mirror_ends hwhole hapart (by decide)

end HologramLive.ModelHub.Mirror
