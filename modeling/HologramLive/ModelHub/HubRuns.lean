import HologramLive.ModelHub.HubHistory

namespace HologramLive.ModelHub.Hub
open Lib Lib.Interleaving

section
variable {careful : Prop} {address : Doc → String} {shelf seen after : Shelf} {own : Progress}
  {objects : Objects} {before : Option (String × CatalogDoc)} {id : String} {listing : Listing}

theorem mem_assign {item : String × Listing} (h : item ∈ assign id listing objects) :
    item = (id, listing) ∨ item ∈ objects := by
  induction objects with
  | nil => exact .inl (List.mem_singleton.mp h)
  | cons first rest ih =>
    rw [assign] at h
    split at h
    · rcases List.mem_cons.mp h with hnew | hrest
      · exact .inl hnew
      · exact .inr (List.mem_cons_of_mem _ hrest)
    · rcases List.mem_cons.mp h with rfl | hrest
      · exact .inr List.mem_cons_self
      · exact (ih hrest).imp_right (List.mem_cons_of_mem _)

theorem self_mem_assign : (id, listing) ∈ assign id listing objects := by
  induction objects with
  | nil => exact List.mem_cons_self
  | cons first rest ih =>
    rw [assign]
    split
    · exact List.mem_cons_self
    · exact List.mem_cons_of_mem _ ih

/-- What is listed stays listed, but for what is listed under the id itself. -/
theorem mem_assign_of_mem {item : String × Listing} (h : item ∈ objects) :
    item ∈ assign id listing objects ∨ objects.lookup id = some item.2 := by
  induction objects with
  | nil => cases h
  | cons first rest ih =>
    rw [assign]
    split
    · rename_i hid
      rcases List.mem_cons.mp h with rfl | hrest
      · right
        rw [List.lookup_cons, hid, beq_self_eq_true]
      · exact .inl (List.mem_cons_of_mem _ hrest)
    · rename_i hid
      rcases List.mem_cons.mp h with rfl | hrest
      · exact .inl List.mem_cons_self
      · refine (ih hrest).imp (List.mem_cons_of_mem _) fun hlookup => ?_
        have hne : (id == first.1) = false := by simpa using Ne.symm hid
        rw [List.lookup_cons, hne]
        exact hlookup

theorem mem_of_lookup (h : objects.lookup id = some listing) : (id, listing) ∈ objects := by
  induction objects with
  | nil => cases h
  | cons first rest ih =>
    rw [List.lookup_cons] at h
    split at h
    · rename_i hid
      obtain rfl := Option.some.inj h
      rw [eq_of_beq hid]
      exact List.mem_cons_self
    · exact List.mem_cons_of_mem _ (ih h)

/-- An object that a listing leads to. -/
def Covered (stored : Stored) (objects : Objects) (id : String) : Prop :=
  ∃ item ∈ objects, id ∈ item.2.sources ∨ Linked stored item.2.model id

/-- A run that has read the head and gathers what it will list. -/
structure Working (careful : Prop) (before : Option (String × CatalogDoc)) (objects : Objects)
    (own : Progress) (shelf : Shelf) : Prop where
  sound : shelf.Sound careful
  read : own.read = before.map Prod.fst
  found : ∀ id catalog, before = some (id, catalog) →
    shelf.stored.lookup id = some (.catalog catalog)
  listed : ListedWell careful shelf.stored objects
  covered : ∀ item ∈ own.put, Covered shelf.stored objects item.1

theorem Covered.grows {stored later : Stored} (h : Covered stored objects id)
    (hgrows : Grows stored later) : Covered later objects id := by
  obtain ⟨item, hitem, hcovered⟩ := h
  exact ⟨item, hitem, hcovered.imp_right fun hlinked => hlinked.grows hgrows⟩

theorem Working.later (h : Working careful before objects own shelf)
    (hlater : Later careful shelf after) : Working careful before objects own after :=
  ⟨hlater.sound, h.read, fun id catalog hbefore => hlater.grows _ _ (h.found id catalog hbefore),
    h.listed.grows hlater.grows, fun item hitem => (h.covered item hitem).grows hlater.grows⟩

/-- What is listed can be reached from the catalog that lists it. -/
theorem Covered.linked {stored : Stored} {root : String} {catalog : CatalogDoc}
    (h : Covered stored catalog.objects id) (hroot : stored.lookup root = some (.catalog catalog)) :
    Linked stored root id := by
  obtain ⟨item, hitem, hcovered⟩ := h
  have hmem : ∀ next ∈ item.2.model :: item.2.sources, next ∈ (Doc.catalog catalog).links :=
    fun next hnext => List.mem_append_right _ (List.mem_flatMap.mpr ⟨item, hitem, hnext⟩)
  rcases hcovered with hsource | hmodel
  · exact .link .root hroot (hmem _ (List.mem_cons_of_mem _ hsource))
  · exact .first hroot (hmem _ List.mem_cons_self) hmodel

/-- The catalog that is put leads to what the run has put, and to the one before. -/
theorem relies_putCatalog {rows : List Row} {snapshot : String}
    (h : Working careful before objects own shelf) :
    Program.Relies (contract address careful) (Ended careful)
      (do
        let id ← Program.perform
          (.put (.catalog ⟨snapshot, before.map Prod.fst, rows, objects⟩))
        Program.perform (.writeDescriptor id snapshot) : HubProgram Unit) own shelf := by
  refine relies_put ⟨fun id hid => ?_, h.listed⟩ fun seen hseen hfound => ?_
  · obtain ⟨found, hbefore, rfl⟩ := Option.map_eq_some_iff.mp hid
    exact ⟨found.2, h.found found.1 found.2 hbefore⟩
  · refine relies_write hfound (.inr h.read.symm) fun item hitem => ?_
    rcases List.mem_append.mp hitem with hold | hnew
    · exact ((h.covered item hold).grows hseen.grows).linked hfound
    · rw [List.mem_singleton.mp hnew]
      exact .root

theorem publishCatalog_relies {rows : List Row} {snapshot : String}
    (h : Working careful before objects own shelf) :
    Program.Relies (contract address careful) (Ended careful)
      (publishCatalog rows snapshot objects before) own shelf := by
  cases before with
  | none => exact relies_putCatalog h
  | some found =>
    obtain ⟨id, catalog⟩ := found
    have hfound := h.found id catalog rfl
    rw [publishCatalog]
    split
    · rename_i hsame
      obtain ⟨-, -, rfl⟩ := hsame
      exact relies_write hfound (.inl h.read.symm) fun item hitem => (h.covered item hitem).linked hfound
    · exact relies_putCatalog h

/-- A walk of a chain. -/
theorem inChain_relies {revision : String} {bound : Nat} {cur : Option String}
    {revisions : List String} (hsound : shelf.Sound careful)
    (hchain : Chain shelf.stored cur revisions) :
    Program.Relies (contract address careful)
      (fun present own' after => own' = own ∧ Later careful shelf after ∧
        (present = false → revision ∉ revisions))
      (inChain revision bound cur) own shelf := by
  induction bound generalizing cur revisions shelf with
  | zero =>
    cases hchain with
    | nil => exact ⟨rfl, .refl hsound, by simp⟩
    | cons => trivial
  | succ bound ih =>
    cases hchain with
    | nil => exact ⟨rfl, .refl hsound, by simp⟩
    | @cons id doc revisions hfound hrest =>
      refine relies_get fun seen reply hseen hreply => ?_
      have hdoc := (hseen.grows _ _ hfound).symm.trans hreply
      obtain rfl := Option.some.inj hdoc
      dsimp only
      split
      · exact ⟨rfl, hseen, by simp⟩
      · rename_i hother
        refine (ih hseen.sound (hrest.grows hseen.grows)).mono ?_
        rintro present own' after ⟨rfl, hafter, habsent⟩
        refine ⟨rfl, hseen.trans hafter, fun hfalse => ?_⟩
        rw [List.mem_cons, not_or]
        exact ⟨Ne.symm hother, habsent hfalse⟩

theorem versions_relies {bound : Nat} {cur : Option String} (hsound : shelf.Sound careful) :
    Program.Relies (contract address careful)
      (fun chain own' after => own' = own ∧ Later careful shelf after ∧
        ∀ first ∈ chain.head?, some first.1 = cur)
      (versions bound cur) own shelf := by
  induction bound generalizing cur shelf with
  | zero =>
    cases cur with
    | none => exact ⟨rfl, .refl hsound, by simp⟩
    | some id => trivial
  | succ bound ih =>
    cases cur with
    | none => exact ⟨rfl, .refl hsound, by simp⟩
    | some id =>
      refine relies_get fun seen reply hseen hreply => ?_
      cases reply with
      | model doc =>
        refine (ih hseen.sound).bind ?_
        rintro chain own' after ⟨rfl, hafter, -⟩
        refine ⟨rfl, hseen.trans hafter, fun first hfirst => ?_⟩
        obtain rfl := Option.some.inj hfirst
        rfl
      | source doc => trivial
      | catalog doc => trivial

/-- What publishing one revision comes to: nothing, or one new version. -/
def ModelPublished (careful : Prop) (m : Revision) (objects : Objects) (own : Progress)
    (shelf : Shelf) (objects' : Objects) (own' : Progress) (after : Shelf) : Prop :=
  Later careful shelf after ∧ ((objects' = objects ∧ own' = own) ∨
    ∃ new doc, objects' = assign m.id ⟨new, []⟩ objects ∧
      own' = { own with put := own.put ++ [(new, .model doc)] } ∧
      Versioned after.stored (some new) ∧
      ∀ listing, objects.lookup m.id = some listing → Linked after.stored new listing.model)

theorem publishModel_relies {bound : Nat} {m : Revision} (hsound : shelf.Sound careful)
    (hlisted : ListedWell careful shelf.stored objects) :
    Program.Relies (contract address careful) (ModelPublished careful m objects own shelf)
      (publishModel bound m objects) own shelf := by
  obtain ⟨revisions, hchain, hnodup⟩ :
      Versioned shelf.stored ((objects.lookup m.id).map Listing.model) := by
    cases hlookup : objects.lookup m.id with
    | none => exact ⟨[], .nil, List.nodup_nil⟩
    | some listing => exact (hlisted _ (mem_of_lookup hlookup)).1
  refine (inChain_relies hsound hchain).bind ?_
  rintro present own' seen ⟨rfl, hseen, habsent⟩
  cases present with
  | true => exact ⟨hseen, .inl ⟨rfl, rfl⟩⟩
  | false =>
    have hnew : (m.revision :: revisions).Nodup := List.nodup_cons.mpr ⟨habsent rfl, hnodup⟩
    have hprev := hchain.grows hseen.grows
    refine relies_put ⟨revisions, hprev, hnew⟩ fun after hafter hfound => ?_
    refine ⟨hseen.trans hafter, .inr ⟨_, _, rfl, rfl, ?_, fun listing hlookup => ?_⟩⟩
    · exact ⟨_, .cons hfound (hprev.grows hafter.grows), hnew⟩
    · refine .first hfound ?_ .root
      rw [Doc.links, manifest, hlookup]
      exact List.mem_singleton.mpr rfl

/-- So far only models have been put, and what is listed leads to them by versions alone. -/
def ByVersions (stored : Stored) (objects : Objects) (own : Progress) : Prop :=
  ∀ item ∈ own.put, ∃ listed ∈ objects, Linked stored listed.2.model item.1

theorem ListedWell.assign {stored : Stored} (h : ListedWell careful stored objects)
    (hmodel : Versioned stored (some listing.model))
    (hsources : ∀ id ∈ listing.sources, ∃ doc, stored.lookup id = some (.source doc) ∧
      (careful → doc.model = listing.model)) :
    ListedWell careful stored (assign id listing objects) := by
  intro item hitem
  rcases mem_assign hitem with rfl | hold
  · exact ⟨hmodel, hsources⟩
  · exact h item hold

/-- A new version leads to the ones before. -/
theorem ModelPublished.byVersions {m : Revision} {objects' : Objects} {own' : Progress}
    (h : ModelPublished careful m objects own shelf objects' own' after)
    (hworking : Working careful before objects own shelf)
    (hversions : ByVersions shelf.stored objects own) :
    Working careful before objects' own' after ∧ ByVersions after.stored objects' own' := by
  obtain ⟨hlater, ⟨rfl, rfl⟩ | ⟨new, doc, rfl, rfl, hnew, hprev⟩⟩ := h
  · refine ⟨hworking.later hlater, fun item hitem => ?_⟩
    obtain ⟨listed, hlisted, hlinked⟩ := hversions item hitem
    exact ⟨listed, hlisted, hlinked.grows hlater.grows⟩
  · have hafter := hworking.later hlater
    have hall : ByVersions after.stored (assign m.id ⟨new, []⟩ objects)
        { own with put := own.put ++ [(new, .model doc)] } := by
      intro item hitem
      rcases List.mem_append.mp hitem with hold | hitem
      · obtain ⟨listed, hlisted, hlinked⟩ := hversions item hold
        rcases mem_assign_of_mem hlisted with hkept | hlookup
        · exact ⟨listed, hkept, hlinked.grows hlater.grows⟩
        · exact ⟨_, self_mem_assign, (hprev _ hlookup).trans (hlinked.grows hlater.grows)⟩
      · rw [List.mem_singleton.mp hitem]
        exact ⟨_, self_mem_assign, .root⟩
    refine ⟨⟨hafter.sound, hafter.read, hafter.found, hafter.listed.assign hnew (by simp), ?_⟩, hall⟩
    intro item hitem
    obtain ⟨listed, hlisted, hlinked⟩ := hall item hitem
    exact ⟨listed, hlisted, .inr hlinked⟩

/-- A model that was not listed takes no other's place. -/
theorem ModelPublished.fresh {m : Revision} {objects' : Objects} {own' : Progress}
    (h : ModelPublished careful m objects own shelf objects' own' after)
    (hworking : Working careful before objects own shelf) (hfresh : objects.lookup m.id = none) :
    Working careful before objects' own' after := by
  obtain ⟨hlater, ⟨rfl, rfl⟩ | ⟨new, doc, rfl, rfl, hnew, -⟩⟩ := h
  · exact hworking.later hlater
  · have hafter := hworking.later hlater
    refine ⟨hafter.sound, hafter.read, hafter.found, hafter.listed.assign hnew (by simp), ?_⟩
    intro item hitem
    rcases List.mem_append.mp hitem with hold | hitem
    · obtain ⟨listed, hlisted, hcovered⟩ := hafter.covered item hold
      rcases mem_assign_of_mem hlisted with hkept | hlookup
      · exact ⟨listed, hkept, hcovered⟩
      · rw [hfresh] at hlookup
        cases hlookup
    · rw [List.mem_singleton.mp hitem]
      exact ⟨_, self_mem_assign, .inr .root⟩

theorem publishRows_relies {bound : Nat} {day : Day} {rows : List Row}
    (h : Working careful before objects own shelf) (hversions : ByVersions shelf.stored objects own) :
    Program.Relies (contract address careful) (Working careful before)
      (publishRows bound day rows objects) own shelf := by
  induction rows generalizing objects own shelf with
  | nil => exact h
  | cons row rows ih =>
    rw [publishRows]
    cases day.listed row.id with
    | none => exact ih h hversions
    | some f =>
      refine (publishModel_relies h.sound h.listed).bind fun objects' own' after hpublished => ?_
      obtain ⟨hworking, hversions'⟩ := hpublished.byVersions h hversions
      exact ih hworking hversions'

/-- A source is put and listed with the model it names. -/
theorem Working.announced {doc : SourceDoc} {s : String} (hsound : shelf.Sound careful)
    (hread : own.read = before.map Prod.fst)
    (hfound : ∀ id catalog, before = some (id, catalog) →
      shelf.stored.lookup id = some (.catalog catalog))
    (hlisted : ListedWell careful shelf.stored objects)
    (hlookup : objects.lookup id = some listing)
    (hstored : shelf.stored.lookup s = some (.source doc))
    (hmodel : careful → doc.model = listing.model)
    (hcovered : ∀ item ∈ own.put, item.1 = s ∨ Covered shelf.stored objects item.1) :
    Working careful before (assign id { listing with sources := listing.sources ++ [s] } objects)
      own shelf := by
  have hold := hlisted _ (mem_of_lookup hlookup)
  refine ⟨hsound, hread, hfound, hlisted.assign hold.1 ?_, fun item hitem => ?_⟩
  · intro found hmem
    rcases List.mem_append.mp hmem with hmem | hmem
    · exact hold.2 found hmem
    · rw [List.mem_singleton.mp hmem]
      exact ⟨doc, hstored, hmodel⟩
  · rcases hcovered item hitem with rfl | ⟨listed, hmem, hcovered⟩
    · exact ⟨_, self_mem_assign, .inl (List.mem_append_right _ (List.mem_singleton.mpr rfl))⟩
    · rcases mem_assign_of_mem hmem with hkept | hsame
      · exact ⟨listed, hkept, hcovered⟩
      · obtain rfl := Option.some.inj (hlookup.symm.trans hsame)
        exact ⟨_, self_mem_assign, hcovered.imp_left (List.mem_append_left _)⟩

/-- A source that is listed already is listed with its model. -/
theorem Working.listedAlready {s : String} (hsound : shelf.Sound careful)
    (hread : own.read = before.map Prod.fst)
    (hfound : ∀ id catalog, before = some (id, catalog) →
      shelf.stored.lookup id = some (.catalog catalog))
    (hlisted : ListedWell careful shelf.stored objects)
    (hlookup : objects.lookup id = some listing) (hmem : s ∈ listing.sources)
    (hcovered : ∀ item ∈ own.put, item.1 = s ∨ Covered shelf.stored objects item.1) :
    Working careful before objects own shelf := by
  refine ⟨hsound, hread, hfound, hlisted, fun item hitem => ?_⟩
  rcases hcovered item hitem with rfl | hcovered
  · exact ⟨_, mem_of_lookup hlookup, .inl hmem⟩
  · exact hcovered

theorem put_covered (address : Doc → String) {stored : Stored} {put : List (String × Doc)}
    (h : ∀ item ∈ put, Covered stored objects item.1) (doc : Doc) :
    ∀ item ∈ put ++ [(address doc, doc)], item.1 = address doc ∨ Covered stored objects item.1 := by
  intro item hitem
  rcases List.mem_append.mp hitem with hold | hnew
  · exact .inr (h item hold)
  · rw [List.mem_singleton.mp hnew]
    exact .inl rfl

theorem publishPin_relies {bound : Nat} {day : Day} {pin : Pin}
    (h : Working careful before objects own shelf) :
    Program.Relies (contract address careful) (Working careful before)
      (publishPin bound day id pin objects) own shelf := by
  rw [publishPin]
  cases hlookup : objects.lookup id with
  | none => trivial
  | some listing =>
    refine (versions_relies h.sound).bind ?_
    rintro chain own' seen ⟨rfl, hseen, -⟩
    have hworking := h.later hseen
    cases chain.find? fun v => decide (v.2.revision = pin.revision) with
    | none => exact hworking
    | some target =>
      dsimp only
      split
      · exact hworking
      · rename_i hsame
        refine relies_put trivial fun after hafter hstored => ?_
        have hlast := hworking.later hafter
        have hcovered := put_covered address hlast.covered
        split
        · rename_i hmem
          exact .listedAlready hlast.sound hlast.read hlast.found hlast.listed hlookup
            (List.contains_iff_mem.mp hmem) (hcovered _)
        · exact .announced hlast.sound hlast.read hlast.found hlast.listed hlookup hstored
            (fun _ => not_not.mp hsame) (hcovered _)

theorem publishPins_relies {bound : Nat} {day : Day} {pins : List (String × Pin)}
    (h : Working careful before objects own shelf) :
    Program.Relies (contract address careful) (Working careful before)
      (publishPins bound day pins objects) own shelf := by
  induction pins generalizing objects own shelf with
  | nil => exact h
  | cons item pins ih =>
    obtain ⟨id, pin⟩ := item
    rw [publishPins]
    cases hlookup : objects.lookup id with
    | some listing => exact (publishPin_relies h).bind fun objects' own' after hworking => ih hworking
    | none =>
      cases day.latest id with
      | none => trivial
      | some doc =>
        dsimp only
        split
        · exact ih h
        · refine (publishModel_relies h.sound h.listed).bind fun objects' own' after hpublished => ?_
          have hworking := hpublished.fresh h hlookup
          exact (publishPin_relies hworking).bind fun objects'' own'' last hlast => ih hlast

/-- A head that has been read is a start to work from. -/
theorem HeadRead.working {found : String × CatalogDoc} (h : HeadRead shelf (some found))
    (hsound : shelf.Sound careful) :
    Working careful (some found) found.2.objects { read := some found.1, put := [] } shelf := by
  have hstored := h.stored found.1 found.2 rfl
  refine ⟨hsound, rfl, fun id catalog heq => ?_, (hsound.docs _ _ hstored).2, by simp⟩
  obtain rfl := Option.some.inj heq
  exact hstored

theorem HeadRead.listed {found : String × CatalogDoc} (h : HeadRead shelf (some found))
    (id : String) : shelf.listed id = found.2.objects.lookup id := by
  obtain ⟨⟨head, snapshot⟩, hdescriptor, heq⟩ := Option.map_eq_some_iff.mp h.head.symm
  have hstored := h.stored found.1 found.2 rfl
  rw [← heq] at hstored
  rw [Shelf.listed, hdescriptor]
  dsimp only
  rw [hstored]

theorem publish_relies {bound : Nat} {day : Day} :
    Program.Relies (contract address careful) (Ended careful) (publish bound day) {} shelf := by
  refine relies_head fun seen found hseen hread _ => ?_
  have hworking : Working careful found ((found.map fun found => found.2.objects).getD [])
      { read := found.map Prod.fst, put := [] } seen := by
    cases found with
    | none => exact ⟨hseen.sound, rfl, by simp, fun item hitem => (by cases hitem), by simp⟩
    | some found => exact hread.working hseen.sound
  refine (publishRows_relies hworking (fun item hitem => by cases hitem)).bind ?_
  intro objects own' after hrows
  refine (publishPins_relies hrows).bind fun objects' own'' last hpins => ?_
  exact publishCatalog_relies hpins

theorem revise_relies {bound : Nat} {m : Revision} :
    Program.Relies (contract address careful) (Ended careful) (revise bound m) {} shelf := by
  refine relies_head fun seen found hseen hread _ => ?_
  cases found with
  | none => trivial
  | some found =>
    have hworking := hread.working hseen.sound
    refine (publishModel_relies hworking.sound hworking.listed).bind fun objects own' after h => ?_
    exact publishCatalog_relies (h.byVersions hworking (fun item hitem => by cases hitem)).1

theorem source_relies {bound : Nat} {kind resolve : String} :
    Program.Relies (contract address careful) (Ended careful) (source bound id kind resolve) {}
      shelf := by
  refine relies_head fun seen found hseen hread _ => ?_
  cases found with
  | none => trivial
  | some found =>
    have hworking := hread.working hseen.sound
    dsimp only
    cases hlookup : found.2.objects.lookup id with
    | none => trivial
    | some listing =>
      refine (versions_relies hworking.sound).bind ?_
      rintro chain own' next ⟨rfl, hnext, hfirst⟩
      cases chain with
      | nil => trivial
      | cons v rest =>
        have hmodel : v.1 = listing.model := Option.some.inj (hfirst v rfl)
        refine relies_put trivial fun after hafter hstored => ?_
        have hlast := (hworking.later hnext).later hafter
        rw [announce, hlookup]
        dsimp only
        rw [Program.done_bind]
        refine publishCatalog_relies ?_
        exact .announced hlast.sound hlast.read hlast.found hlast.listed hlookup hstored
          (fun _ => hmodel) (put_covered address hlast.covered _)

theorem host_relies {bound : Nat} {base : String} {chunks : String → List String} :
    Program.Relies (contract address careful) (Ended careful) (host bound id base chunks) {}
      shelf := by
  refine relies_head fun first found hfirst _ _ => ?_
  refine (versions_relies hfirst.sound).bind ?_
  rintro chain own' next ⟨rfl, hnext, -⟩
  cases chain with
  | nil => trivial
  | cons v rest =>
    refine relies_put trivial fun after hafter hstored => ?_
    refine relies_head fun seen head hseen hread htimely => ?_
    cases head with
    | none => trivial
    | some head =>
      have hworking := hread.working hseen.sound
      dsimp only
      cases hlookup : head.2.objects.lookup id with
      | none => trivial
      | some listing =>
        have hsource := hseen.grows _ _ hstored
        have hmodel : careful → v.1 = listing.model := fun hcareful =>
          (htimely hcareful _ (List.mem_append_right _ (List.mem_singleton.mpr rfl)) _ rfl listing
            ((hread.listed id).trans hlookup)).symm
        have hcovered := put_covered address hworking.covered
        dsimp only
        split
        · rename_i hmem
          rw [Program.done_bind]
          refine publishCatalog_relies ?_
          exact .listedAlready hworking.sound rfl hworking.found hworking.listed hlookup
            (List.contains_iff_mem.mp hmem) (hcovered _)
        · rw [announce, hlookup]
          dsimp only
          rw [Program.done_bind]
          refine publishCatalog_relies ?_
          exact .announced hworking.sound rfl hworking.found hworking.listed hlookup hsource hmodel
            (hcovered _)

theorem program_relies (request : Request) :
    Program.Relies (contract address careful) (Ended careful) request.program {} shelf := by
  cases request with
  | publish bound day => exact publish_relies
  | revise bound m => exact revise_relies
  | host bound id base chunks => exact host_relies
  | source bound id kind resolve => exact source_relies

/-- Every run keeps to the contract. -/
structure Inv (address : Doc → String) (careful : Prop) (state : State) : Prop where
  sound : state.shelf.Sound careful
  runs : ∀ run ∈ state.runs,
    Program.Relies (contract address careful) (Ended careful) run.program run.own state.shelf

theorem Inv.init : Inv address careful {} where
  sound := ⟨fun _ _ h => (by cases h), fun _ h => (by cases h)⟩
  runs := by simp

theorem Ended.later (hlater : Later careful shelf after) {value : Unit}
    (h : Ended careful value own shelf) : Ended careful value own after :=
  fun hcareful item hitem => hlater.reach hcareful _ (h hcareful item hitem)

/-- One call of one run, or a run that begins. -/
theorem Inv.step {state next : State} {action : Action} (h : Inv address careful state)
    (hpermitted : careful → Permitted state action) (hstep : Hub.step address state action = some next) :
    Inv address careful next := by
  cases action with
  | start request =>
    obtain rfl := Option.some.inj hstep
    refine ⟨h.sound, fun run hrun => ?_⟩
    rcases List.mem_append.mp hrun with hold | hnew
    · exact h.runs run hold
    · rw [List.mem_singleton.mp hnew]
      exact program_relies request
  | call place =>
    cases hrun : state.runs[place]? with
    | none =>
      simp only [Hub.step, hrun] at hstep
      cases hstep
    | some run =>
      obtain ⟨program, own⟩ := run
      cases program with
      | done value =>
        simp only [Hub.step, hrun] at hstep
        cases hstep
      | fail error =>
        simp only [Hub.step, hrun] at hstep
        cases hstep
      | call operation rest =>
        simp only [Hub.step, hrun] at hstep
        obtain ⟨answered, hserve, rfl⟩ := Option.map_eq_some_iff.mp hstep
        have htimely : careful → Timely operation own state.shelf := fun hcareful => by
          have := hpermitted hcareful
          rw [Permitted, hrun] at this
          exact this
        have hself : (contract address careful).rely state.shelf state.shelf := Later.refl h.sound
        have hmay : (contract address careful).may operation own state.shelf answered.1
            (own.after operation answered.1) answered.2 := ⟨hserve, rfl, htimely⟩
        have hpost : ∀ (value : Unit) (own : Progress) (shared after : Shelf),
            Later careful shared after → Ended careful value own shared →
              Ended careful value own after := fun _ _ _ _ hlater h => Ended.later hlater h
        obtain ⟨hlater, hruns⟩ := Program.Relies.step hpost hself h.runs hrun hmay
        exact ⟨hlater.sound, hruns⟩

theorem Inv.reached {allowed : State → Action → Prop} {state : State}
    (hallowed : ∀ state action, allowed state action → careful → Permitted state action)
    (h : Reaches (Hub.step address) allowed {} state) : Inv address careful state :=
  h.invariant .init fun state action _ hinv hallows hstep =>
    hinv.step (hallowed state action hallows) hstep

/-- Whatever the order of the calls, the head can be read and no version is there twice. -/
theorem always_readable {state : State} (h : Reaches (Hub.step address) (fun _ _ => True) {} state) :
    (∀ head, state.shelf.descriptor.map Prod.fst = some head →
      ∃ catalog, state.shelf.stored.lookup head = some (.catalog catalog)) ∧
    ∀ id doc, state.shelf.stored.lookup id = some (.model doc) →
      Versioned state.shelf.stored (some id) := by
  have hinv : Inv address False state := Inv.reached (fun _ _ _ hfalse => hfalse.elim) h
  refine ⟨hinv.sound.head, fun id doc hfound => ?_⟩
  obtain ⟨revisions, hchain, hnodup⟩ := hinv.sound.docs id _ hfound
  exact ⟨_, .cons hfound hchain, hnodup⟩

/-- Where every head is read and every descriptor written in time, no history is lost. -/
theorem history_kept {state : State} (h : Reaches (Hub.step address) Permitted {} state) :
    Kept state := by
  have hinv : Inv address True state := Inv.reached (fun _ _ hpermitted _ => hpermitted) h
  refine ⟨hinv.sound.head, fun run hrun hended item hitem => ?_, fun id doc hfound => ?_, ?_⟩
  · have hrelies := hinv.runs run hrun
    cases hprogram : run.program with
    | done value =>
      rw [hprogram] at hrelies
      exact hrelies trivial item hitem
    | fail error =>
      rw [hprogram] at hended
      cases hended
    | call operation next =>
      rw [hprogram] at hended
      cases hended
  · obtain ⟨revisions, hchain, hnodup⟩ := hinv.sound.docs id _ hfound
    exact ⟨_, .cons hfound hchain, hnodup⟩
  · intro head catalog hhead hfound listed hlisted id hid
    obtain ⟨-, hobjects⟩ := hinv.sound.docs head _ hfound
    obtain ⟨doc, hdoc, hmodel⟩ := (hobjects listed hlisted).2 id hid
    exact ⟨doc, hdoc, hmodel trivial⟩

end

section
variable {state : State}

def onTime : {β : Type} → HubCall β → Progress → Shelf → Bool
  | _, .head, own, shelf => own.put.all fun item => match item.2 with
    | .source doc => match shelf.listed doc.id with
      | some listing => listing.model == doc.model
      | none => true
    | _ => true
  | _, .writeDescriptor id _, own, shelf =>
    decide (shelf.descriptor.map Prod.fst = own.read ∨ shelf.descriptor.map Prod.fst = some id)
  | _, _, _, _ => true

def permits (state : State) : Action → Bool
  | .start _ => true
  | .call place => match state.runs[place]? with
    | some ⟨.call operation _, own⟩ => onTime operation own state.shelf
    | _ => true

theorem onTime_timely {β : Type} {operation : HubCall β} {own : Progress} {shelf : Shelf}
    (h : onTime operation own shelf = true) : Timely operation own shelf := by
  cases operation with
  | head =>
    intro item hitem doc hdoc listing hlisting
    have hall := List.all_eq_true.mp h item hitem
    rw [hdoc] at hall
    dsimp only at hall
    rw [hlisting] at hall
    exact eq_of_beq hall
  | get id => trivial
  | put doc => trivial
  | writeDescriptor id snapshot =>
    simp only [onTime, decide_eq_true_eq] at h
    exact h

theorem permits_permitted {action : Action} (h : permits state action = true) :
    Permitted state action := by
  cases action with
  | start request => trivial
  | call place =>
    simp only [permits] at h
    simp only [Permitted]
    split
    · rename_i hrun
      rw [hrun] at h
      exact onTime_timely h
    · trivial

end

/-- Addresses for what the samples store. -/
def sampleAddress : Doc → String
  | .model doc => "blake3:model-" ++ doc.revision
  | .source doc => "blake3:source-" ++ doc.resolve
  | .catalog doc => "blake3:catalog-" ++ String.join (doc.objects.flatMap fun item => item.2.sources)

/-- A day on which one model is published. -/
def sampleDay : Day where
  snapshot := "2026-01-01"
  models := [⟨"o/m", "addressed", none⟩]
  limit := none
  listed _ := some ⟨"r1", [⟨"a.bin", 1, "sha256:00", true⟩], none⟩
  pins := []
  gateway := ""
  latest _ := none

def samplePublish : List Action :=
  .start (.publish 8 sampleDay) :: List.replicate 4 (.call 0)

def sampleSources : List Action :=
  [.start (.source 8 "o/m" "http" "one"), .start (.source 8 "o/m" "http" "two")]

/-- One source is announced after the other. -/
def inTurn : List Action :=
  samplePublish ++ sampleSources ++ List.replicate 5 (Action.call 1) ++
    List.replicate 5 (Action.call 2)

/-- Both read the head before either writes. -/
def atOnce : List Action :=
  samplePublish ++ sampleSources ++ (List.replicate 5 [Action.call 1, .call 2]).flatten

theorem history_kept_in_turn : ∃ state, checked (step sampleAddress) permits inTurn {} = some state ∧
    state.shelf.descriptor = some
      ("blake3:catalog-blake3:source-oneblake3:source-two", "2026-01-01") ∧ Kept state := by
  have hrun : (checked (step sampleAddress) permits inTurn {}).map (fun state => state.shelf.descriptor) =
      some (some ("blake3:catalog-blake3:source-oneblake3:source-two", "2026-01-01")) := by
    decide
  obtain ⟨state, hstate, hdescriptor⟩ := Option.map_eq_some_iff.mp hrun
  exact ⟨state, hstate, hdescriptor, history_kept
    (Reaches.start.checked (fun _ _ => permits_permitted) hstate)⟩

def finished (run : HubRun) : Bool :=
  match run.program with
  | .done () => true
  | _ => false

/-- What leads from the head after both have written. -/
def leftAtOnce : List String :=
  ["blake3:catalog-blake3:source-two", "blake3:catalog-", "blake3:source-two", "blake3:model-r1"]

theorem linked_subset {stored : Stored} {root id : String} {reach : List String}
    (h : Linked stored root id) (hroot : root ∈ reach)
    (hclosed : ∀ id ∈ reach, ∀ doc ∈ stored.lookup id, ∀ next ∈ doc.links, next ∈ reach) :
    id ∈ reach := by
  induction h with
  | root => exact hroot
  | link _ found mem ih => exact hclosed _ ih _ found _ mem

/-- Two sources announced at once: the first is lost. -/
theorem history_lost : ∃ state, run (step sampleAddress) atOnce {} = some state ∧ ¬Kept state := by
  have hrun : (run (step sampleAddress) atOnce {}).map (fun state =>
      (state.shelf.descriptor,
        decide (∀ id ∈ leftAtOnce, ∀ doc ∈ state.shelf.stored.lookup id, ∀ next ∈ doc.links,
          next ∈ leftAtOnce),
        state.runs[1]?.map fun run => (finished run, (run.own.put.map Prod.fst).head?))) =
      some (some ("blake3:catalog-blake3:source-two", "2026-01-01"), true,
        some (true, some "blake3:source-one")) := by
    decide
  obtain ⟨state, hstate, heq⟩ := Option.map_eq_some_iff.mp hrun
  obtain ⟨hdescriptor, hclosed, hlost⟩ := by simpa only [Prod.mk.injEq] using heq
  obtain ⟨lost, hplace, hended, hput⟩ := by
    simpa only [Option.map_eq_some_iff, Prod.mk.injEq] using hlost
  refine ⟨state, hstate, fun hkept => ?_⟩
  have houtcome : lost.program.outcome = some (.ok ()) := by
    unfold finished at hended
    split at hended
    · rename_i hdone
      rw [hdone]
      rfl
    · cases hended
  have hmem := List.mem_of_head? hput
  obtain ⟨item, hitem, hfirst⟩ := List.mem_map.mp hmem
  obtain ⟨head, hhead, hlinked⟩ :=
    hkept.reachable lost (List.mem_of_getElem? hplace) houtcome item hitem
  rw [hdescriptor] at hhead
  obtain rfl := Option.some.inj hhead
  have hreach := linked_subset hlinked (by decide) (of_decide_eq_true hclosed)
  rw [hfirst] at hreach
  revert hreach
  decide

end HologramLive.ModelHub.Hub
