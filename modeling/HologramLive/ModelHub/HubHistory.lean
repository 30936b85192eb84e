import HologramLive.ModelHub.Hub

namespace HologramLive.ModelHub.Hub
open Lib Lib.Interleaving

abbrev Stored := List (String × Doc)

/-- The revisions of a model from an address on, newest first. -/
inductive Chain (stored : Stored) : Option String → List String → Prop where
  | nil : Chain stored none []
  | cons {id : String} {doc : ModelDoc} {revisions : List String}
      (found : stored.lookup id = some (.model doc)) (rest : Chain stored doc.prev revisions) :
      Chain stored (some id) (doc.revision :: revisions)

/-- A model whose versions can all be read, no revision twice. -/
def Versioned (stored : Stored) (id : Option String) : Prop :=
  ∃ revisions, Chain stored id revisions ∧ revisions.Nodup

/-- What a document links to. A source's link to its model is not among these. -/
def Doc.links : Doc → List String
  | .model doc => doc.prev.toList
  | .source _ => []
  | .catalog doc => doc.prev.toList ++ doc.objects.flatMap fun item => item.2.model :: item.2.sources

/-- What can be come by from an address. -/
inductive Linked (stored : Stored) (root : String) : String → Prop where
  | root : Linked stored root root
  | link {id next : String} {doc : Doc} (before : Linked stored root id)
      (found : stored.lookup id = some doc) (mem : next ∈ doc.links) : Linked stored root next

/-- An address that is reachable from the present head. -/
def FromHead (shelf : Shelf) (id : String) : Prop :=
  ∃ head, shelf.descriptor.map Prod.fst = some head ∧ Linked shelf.stored head id

/-- The history as it is to be found at any time. -/
structure Kept (state : State) : Prop where
  readable : ∀ head, state.shelf.descriptor.map Prod.fst = some head →
    ∃ catalog, state.shelf.stored.lookup head = some (.catalog catalog)
  reachable : ∀ run ∈ state.runs, run.program.outcome = some (.ok ()) →
    ∀ item ∈ run.own.put, FromHead state.shelf item.1
  versioned : ∀ id doc, state.shelf.stored.lookup id = some (.model doc) →
    Versioned state.shelf.stored (some id)
  sources : ∀ head catalog, state.shelf.descriptor.map Prod.fst = some head →
    state.shelf.stored.lookup head = some (.catalog catalog) →
      ∀ item ∈ catalog.objects, ∀ id ∈ item.2.sources, ∃ doc,
        state.shelf.stored.lookup id = some (.source doc) ∧ doc.model = item.2.model

/-- What the head's catalog lists under an id. -/
def Shelf.listed (shelf : Shelf) (id : String) : Option Listing :=
  match shelf.descriptor with
  | none => none
  | some (head, _) =>
    match shelf.stored.lookup head with
    | some (.catalog catalog) => catalog.objects.lookup id
    | _ => none

/-- When a call comes in time. A descriptor is written while it names the catalog the run has
read (or the one it writes); a head is read after a source was put only while it lists, under
that source's id, the model the source names. -/
def Timely : {β : Type} → HubCall β → Progress → Shelf → Prop
  | _, .head, own, shelf => ∀ item ∈ own.put, ∀ doc, item.2 = .source doc →
      ∀ listing, shelf.listed doc.id = some listing → listing.model = doc.model
  | _, .writeDescriptor id _, own, shelf =>
    shelf.descriptor.map Prod.fst = own.read ∨ shelf.descriptor.map Prod.fst = some id
  | _, _, _, _ => True

/-- A step of which the call comes in time. -/
def Permitted (state : State) : Action → Prop
  | .start _ => True
  | .call place => match state.runs[place]? with
    | some ⟨.call operation _, own⟩ => Timely operation own state.shelf
    | _ => True

section
variable {stored later : Stored} {id : String}

/-- Objects stay where they are and are what they were. -/
def Grows (stored later : Stored) : Prop :=
  ∀ id doc, stored.lookup id = some doc → later.lookup id = some doc

theorem Grows.refl (stored : Stored) : Grows stored stored := fun _ _ h => h

theorem Grows.trans {last : Stored} (h : Grows stored later) (h' : Grows later last) :
    Grows stored last := fun id doc hfound => h' id doc (h id doc hfound)

theorem lookup_snoc (stored : Stored) (item : String × Doc) (id : String) :
    (stored ++ [item]).lookup id = (stored.lookup id).or ([item].lookup id) := by
  induction stored with
  | nil => rfl
  | cons first rest ih =>
    rw [List.cons_append, List.lookup_cons, List.lookup_cons]
    split
    · rfl
    · exact ih

/-- A free address can be taken. -/
theorem Grows.append {doc : Doc} (h : stored.lookup id = none) :
    Grows stored (stored ++ [(id, doc)]) ∧ (stored ++ [(id, doc)]).lookup id = some doc := by
  refine ⟨fun other found hfound => ?_, ?_⟩
  · rw [lookup_snoc, hfound]
    rfl
  · rw [lookup_snoc, h]
    simp

theorem Chain.grows {cur : Option String} {revisions : List String} (h : Chain stored cur revisions)
    (hgrows : Grows stored later) : Chain later cur revisions := by
  induction h with
  | nil => exact .nil
  | cons found _ ih => exact .cons (hgrows _ _ found) ih

theorem Versioned.grows {cur : Option String} (h : Versioned stored cur)
    (hgrows : Grows stored later) : Versioned later cur := by
  obtain ⟨revisions, hchain, hnodup⟩ := h
  exact ⟨revisions, hchain.grows hgrows, hnodup⟩

theorem Linked.grows {root : String} (h : Linked stored root id) (hgrows : Grows stored later) :
    Linked later root id := by
  induction h with
  | root => exact .root
  | link _ found mem ih => exact .link ih (hgrows _ _ found) mem

theorem Linked.trans {root middle : String} (h : Linked stored root middle)
    (hnext : Linked stored middle id) : Linked stored root id := by
  induction hnext with
  | root => exact h
  | link _ found mem ih => exact .link ih found mem

theorem Linked.first {root : String} {doc : Doc}
    (found : stored.lookup root = some doc) {next : String} (hnext : next ∈ doc.links)
    (hrest : Linked stored next id) : Linked stored root id :=
  (Linked.link .root found hnext).trans hrest

/-- Objects that are listed are there, each model with all its versions and each source for the
model it stands with. -/
def ListedWell (careful : Prop) (stored : Stored) (objects : Objects) : Prop :=
  ∀ item ∈ objects, Versioned stored (some item.2.model) ∧
    ∀ id ∈ item.2.sources, ∃ doc, stored.lookup id = some (.source doc) ∧
      (careful → doc.model = item.2.model)

/-- A document that may be stored. -/
def Doc.Sound (careful : Prop) (stored : Stored) : Doc → Prop
  | .model doc => ∃ revisions, Chain stored doc.prev revisions ∧ (doc.revision :: revisions).Nodup
  | .source _ => True
  | .catalog doc =>
    (∀ id, doc.prev = some id → ∃ catalog, stored.lookup id = some (.catalog catalog)) ∧
      ListedWell careful stored doc.objects

/-- A shelf with nothing amiss on it. -/
structure Shelf.Sound (careful : Prop) (shelf : Shelf) : Prop where
  docs : ∀ id doc, shelf.stored.lookup id = some doc → doc.Sound careful shelf.stored
  head : ∀ id, shelf.descriptor.map Prod.fst = some id →
    ∃ catalog, shelf.stored.lookup id = some (.catalog catalog)

/-- What every run may rely on: nothing is lost, and nothing comes to be amiss. -/
structure Later (careful : Prop) (shelf after : Shelf) : Prop where
  grows : Grows shelf.stored after.stored
  sound : after.Sound careful
  reach : careful → ∀ id, FromHead shelf id → FromHead after id

/-- What a run answers for when it makes a call. -/
def Obliged (careful : Prop) : {β : Type} → HubCall β → Progress → Shelf → Prop
  | _, .put doc, _, shelf => doc.Sound careful shelf.stored
  | _, .writeDescriptor id _, own, shelf =>
    (∃ catalog, shelf.stored.lookup id = some (.catalog catalog) ∧
      (some id = own.read ∨ catalog.prev = own.read)) ∧
    ∀ item ∈ own.put, Linked shelf.stored id item.1
  | _, _, _, _ => True

theorem ListedWell.grows {careful : Prop} {objects : Objects}
    (h : ListedWell careful stored objects) (hgrows : Grows stored later) :
    ListedWell careful later objects := by
  intro item hitem
  obtain ⟨hmodel, hsources⟩ := h item hitem
  refine ⟨hmodel.grows hgrows, fun id hid => ?_⟩
  obtain ⟨doc, hdoc, hsame⟩ := hsources id hid
  exact ⟨doc, hgrows _ _ hdoc, hsame⟩

theorem Doc.Sound.grows {careful : Prop} {doc : Doc} (h : doc.Sound careful stored)
    (hgrows : Grows stored later) : doc.Sound careful later := by
  cases doc with
  | model doc =>
    obtain ⟨revisions, hchain, hnodup⟩ := h
    exact ⟨revisions, hchain.grows hgrows, hnodup⟩
  | source doc => trivial
  | catalog doc =>
    obtain ⟨hprev, hobjects⟩ := h
    refine ⟨fun id hid => ?_, hobjects.grows hgrows⟩
    obtain ⟨catalog, hcatalog⟩ := hprev id hid
    exact ⟨catalog, hgrows _ _ hcatalog⟩

end

section
variable {careful : Prop} {address : Doc → String} {shelf seen after : Shelf} {own : Progress}
  {objects : Objects} {before : Option (String × CatalogDoc)} {id : String}

theorem Later.refl (h : shelf.Sound careful) : Later careful shelf shelf :=
  ⟨.refl _, h, fun _ _ hid => hid⟩

theorem Later.trans (h : Later careful shelf seen) (h' : Later careful seen after) :
    Later careful shelf after :=
  ⟨h.grows.trans h'.grows, h'.sound, fun hcareful id hid =>
    h'.reach hcareful id (h.reach hcareful id hid)⟩

/-- A new document takes nothing away. -/
theorem Later.put {doc : Doc} (h : shelf.Sound careful) (hdoc : doc.Sound careful shelf.stored)
    (hfree : shelf.stored.lookup (address doc) = none) :
    Later careful shelf { shelf with stored := shelf.stored ++ [(address doc, doc)] } := by
  obtain ⟨hgrows, hfound⟩ := @Grows.append shelf.stored (address doc) doc hfree
  refine ⟨hgrows, ⟨fun id found hid => ?_, fun id hid => ?_⟩, fun _ id hid => ?_⟩
  · rw [lookup_snoc] at hid
    cases hold : shelf.stored.lookup id with
    | some old =>
      rw [hold] at hid
      obtain rfl := Option.some.inj hid
      exact (h.docs id old hold).grows hgrows
    | none =>
      rw [hold, Option.none_or, List.lookup_cons] at hid
      split at hid
      · obtain rfl := Option.some.inj hid
        exact hdoc.grows hgrows
      · cases hid
  · obtain ⟨catalog, hcatalog⟩ := h.head id hid
    exact ⟨catalog, hgrows _ _ hcatalog⟩
  · obtain ⟨head, hhead, hlinked⟩ := hid
    exact ⟨head, hhead, hlinked.grows hgrows⟩

/-- A descriptor that is written in time keeps what was reachable. -/
theorem Later.write {snapshot : String} (h : shelf.Sound careful)
    (hobliged : Obliged careful (.writeDescriptor id snapshot) own shelf)
    (htimely : careful → Timely (.writeDescriptor id snapshot) own shelf) :
    Later careful shelf { shelf with descriptor := some (id, snapshot) } := by
  obtain ⟨⟨catalog, hfound, hread⟩, -⟩ := hobliged
  refine ⟨.refl _, ⟨h.docs, fun found hhead => ?_⟩, fun hcareful target htarget => ?_⟩
  · obtain rfl := Option.some.inj hhead
    exact ⟨catalog, hfound⟩
  · obtain ⟨head, hhead, hlinked⟩ := htarget
    refine ⟨id, rfl, ?_⟩
    rcases htimely hcareful with hsame | hsame
    · rw [hhead] at hsame
      rcases hread with hold | hprev
      · obtain rfl := Option.some.inj (hold.trans hsame.symm)
        exact hlinked
      · refine .first hfound (List.mem_append_left _ ?_) hlinked
        rw [hprev, ← hsame]
        exact List.mem_singleton.mpr rfl
    · rw [hhead] at hsame
      obtain rfl := Option.some.inj hsame
      exact hlinked

/-- The rules a run keeps to and can rely on. -/
def contract (address : Doc → String) (careful : Prop) : Program.Contract HubCall Shelf Progress where
  rely := Later careful
  trans := Later.trans
  obliged := Obliged careful
  may operation own shelf reply own' after :=
    serve address operation shelf = some (reply, after) ∧ own' = own.after operation reply ∧
      (careful → Timely operation own shelf)
  keeps := by
    rintro β operation own shelf reply own' after hself hobliged ⟨hserve, -, htimely⟩
    cases operation with
    | head =>
      simp only [serve] at hserve
      split at hserve
      · obtain ⟨-, rfl⟩ := Prod.mk.inj (Option.some.inj hserve)
        exact hself
      · split at hserve
        · obtain ⟨-, rfl⟩ := Prod.mk.inj (Option.some.inj hserve)
          exact hself
        · cases hserve
    | get id =>
      obtain ⟨doc, -, hdoc⟩ := Option.map_eq_some_iff.mp hserve
      obtain ⟨-, rfl⟩ := Prod.mk.inj hdoc
      exact hself
    | put doc =>
      simp only [serve] at hserve
      split at hserve
      · rename_i hfree
        obtain ⟨-, rfl⟩ := Prod.mk.inj (Option.some.inj hserve)
        exact .put hself.sound hobliged hfree
      · split at hserve
        · obtain ⟨-, rfl⟩ := Prod.mk.inj (Option.some.inj hserve)
          exact hself
        · cases hserve
    | writeDescriptor id snapshot =>
      obtain ⟨-, rfl⟩ := Prod.mk.inj (Option.some.inj hserve)
      exact .write hself.sound hobliged htimely

section Calls
variable {α : Type} {post : α → Progress → Shelf → Prop}

/-- Where the head is read. -/
structure HeadRead (shelf : Shelf) (found : Option (String × CatalogDoc)) : Prop where
  head : found.map Prod.fst = shelf.descriptor.map Prod.fst
  stored : ∀ id catalog, found = some (id, catalog) →
    shelf.stored.lookup id = some (.catalog catalog)

theorem relies_head {rest : Option (String × CatalogDoc) → HubProgram α}
    (h : ∀ seen found, Later careful shelf seen → HeadRead seen found →
      (careful → Timely .head own seen) →
      Program.Relies (contract address careful) post (rest found)
        { own with read := found.map Prod.fst } seen) :
    Program.Relies (contract address careful) post (Program.perform .head >>= rest) own shelf := by
  refine Program.Relies.perform fun seen hseen => ⟨trivial, ?_⟩
  rintro reply own' after ⟨hserve, rfl, htimely⟩
  simp only [serve] at hserve
  split at hserve
  · rename_i hnone
    obtain ⟨rfl, rfl⟩ := Prod.mk.inj (Option.some.inj hserve)
    exact h seen none hseen ⟨by rw [hnone]; rfl, by simp⟩ htimely
  · rename_i head snapshot hsome
    split at hserve
    · rename_i catalog hcatalog
      obtain ⟨rfl, rfl⟩ := Prod.mk.inj (Option.some.inj hserve)
      refine h seen (some (head, catalog)) hseen ⟨by rw [hsome]; rfl, ?_⟩ htimely
      intro id found hfound
      obtain ⟨rfl, rfl⟩ := Prod.mk.inj (Option.some.inj hfound)
      exact hcatalog
    · cases hserve

theorem relies_get {rest : Doc → HubProgram α}
    (h : ∀ seen doc, Later careful shelf seen → seen.stored.lookup id = some doc →
      Program.Relies (contract address careful) post (rest doc) own seen) :
    Program.Relies (contract address careful) post (Program.perform (.get id) >>= rest) own shelf := by
  refine Program.Relies.perform fun seen hseen => ⟨trivial, ?_⟩
  rintro reply own' after ⟨hserve, rfl, -⟩
  obtain ⟨doc, hdoc, heq⟩ := Option.map_eq_some_iff.mp hserve
  obtain ⟨rfl, rfl⟩ := Prod.mk.inj heq
  exact h seen doc hseen hdoc

theorem relies_put {doc : Doc} {rest : String → HubProgram α} (hdoc : doc.Sound careful shelf.stored)
    (h : ∀ seen, Later careful shelf seen → seen.stored.lookup (address doc) = some doc →
      Program.Relies (contract address careful) post (rest (address doc))
        { own with put := own.put ++ [(address doc, doc)] } seen) :
    Program.Relies (contract address careful) post (Program.perform (.put doc) >>= rest) own shelf := by
  refine Program.Relies.perform fun seen hseen => ⟨hdoc.grows hseen.grows, ?_⟩
  rintro reply own' after ⟨hserve, rfl, -⟩
  simp only [serve] at hserve
  split at hserve
  · rename_i hfree
    obtain ⟨rfl, rfl⟩ := Prod.mk.inj (Option.some.inj hserve)
    exact h _ (hseen.trans (.put hseen.sound (hdoc.grows hseen.grows) hfree)) (Grows.append hfree).2
  · rename_i found hfound
    split at hserve
    · rename_i hsame
      obtain ⟨rfl, rfl⟩ := Prod.mk.inj (Option.some.inj hserve)
      exact h seen hseen (hsame ▸ hfound)
    · cases hserve

/-- What a run that has ended was for. -/
def Ended (careful : Prop) (_ : Unit) (own : Progress) (shelf : Shelf) : Prop :=
  careful → ∀ item ∈ own.put, FromHead shelf item.1

theorem relies_write {snapshot : String} {catalog : CatalogDoc}
    (hfound : shelf.stored.lookup id = some (.catalog catalog))
    (hread : some id = own.read ∨ catalog.prev = own.read)
    (hput : ∀ item ∈ own.put, Linked shelf.stored id item.1) :
    Program.Relies (contract address careful) (Ended careful)
      (Program.perform (.writeDescriptor id snapshot) : HubProgram Unit) own shelf := by
  intro seen hseen
  refine ⟨⟨⟨catalog, hseen.grows _ _ hfound, hread⟩, fun item hitem =>
    (hput item hitem).grows hseen.grows⟩, ?_⟩
  rintro reply own' after ⟨hserve, rfl, -⟩
  obtain ⟨-, rfl⟩ := Prod.mk.inj (Option.some.inj hserve)
  exact fun _ item hitem => ⟨id, rfl, (hput item hitem).grows hseen.grows⟩

end Calls

end
end HologramLive.ModelHub.Hub
