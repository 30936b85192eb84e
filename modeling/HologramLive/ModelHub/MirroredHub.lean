import HologramLive.ModelHub.HubRuns
import HologramLive.ModelHub.Mirror

/-! A hub that has been published to, copied by its addresses alone. -/

namespace HologramLive.ModelHub.Hub
open Lib Lib.Interleaving Mirror

/-- A link that is empty is none. -/
def truthy (link : String) : Option String := if link = "" then none else some link

/-- What is looked at in a document when a hub is copied. -/
def Doc.document : Doc → Document
  | .model doc => ⟨doc.id, doc.revision, "", doc.prev.bind truthy, none⟩
  | .source doc => ⟨doc.id, doc.revision, "", none, none⟩
  | .catalog doc =>
    ⟨"", "", doc.snapshot, doc.prev.bind truthy,
      some (doc.objects.map fun item => ⟨truthy item.2.model, some (item.2.sources.map truthy)⟩)⟩

def Doc.kind : Doc → Kind
  | .model _ => .model
  | .source _ => .source
  | .catalog _ => .catalog

section
variable (encode : Doc → Bytes)

/-- A shelf answers with the bytes that were put. -/
def Shelf.answer (shelf : Shelf) (id : String) : Option Bytes := (shelf.stored.lookup id).map encode

def Shelf.root (shelf : Shelf) : Option String := shelf.descriptor.map Prod.fst

end

/-- Every document lies under its address. -/
def Addressed (address : Doc → String) (stored : Stored) : Prop := ∀ item ∈ stored, item.1 = address item.2

section
variable {careful : Prop} {address : Doc → String} {shelf : Shelf} {stored : Stored} {id : String}
  {doc : Doc}

theorem truthy_eq_some {link next : String} : truthy link = some next ↔ link = next ∧ next ≠ "" := by
  unfold truthy
  split
  · rename_i hempty
    simp [hempty]
  · rename_i hne
    simp only [Option.some.injEq]
    exact ⟨fun h => ⟨h, h ▸ hne⟩, And.left⟩

/-- A document's links, each with the kind of object it leads to. -/
def Doc.leads : Doc → List (Kind × String)
  | .model doc => doc.prev.toList.map (Kind.model, ·)
  | .source _ => []
  | .catalog doc =>
    doc.prev.toList.map (Kind.catalog, ·) ++ doc.objects.flatMap fun item =>
      (Kind.model, item.2.model) :: item.2.sources.map (Kind.source, ·)

theorem Doc.mem_links {next : String} : next ∈ doc.links ↔ ∃ kind, (kind, next) ∈ doc.leads := by
  cases doc with
  | model doc => simp [Doc.links, Doc.leads]
  | source doc => simp [Doc.links, Doc.leads]
  | catalog doc =>
    simp only [Doc.links, Doc.leads, List.mem_append, List.mem_map, List.mem_flatMap, List.mem_cons]
    constructor
    · rintro (hprev | ⟨item, hitem, rfl | hsource⟩)
      · exact ⟨.catalog, .inl ⟨next, hprev, rfl⟩⟩
      · exact ⟨.model, .inr ⟨item, hitem, .inl rfl⟩⟩
      · exact ⟨.source, .inr ⟨item, hitem, .inr ⟨next, hsource, rfl⟩⟩⟩
    · rintro ⟨kind, ⟨prev, hprev, heq⟩ | ⟨item, hitem, heq | ⟨source, hsource, heq⟩⟩⟩
      · obtain ⟨rfl, rfl⟩ := Prod.mk.inj heq
        exact .inl hprev
      · obtain ⟨rfl, rfl⟩ := Prod.mk.inj heq
        exact .inr ⟨item, hitem, .inl rfl⟩
      · obtain ⟨rfl, rfl⟩ := Prod.mk.inj heq
        exact .inr ⟨item, hitem, .inr hsource⟩

/-- When a hub is copied all links are followed but the empty ones. -/
theorem Doc.mem_document {link : Kind × String} :
    link ∈ Mirror.links doc.kind doc.document ↔ link ∈ doc.leads ∧ link.2 ≠ "" := by
  obtain ⟨kind, next⟩ := link
  cases doc with
  | model doc =>
    simp [Doc.kind, Doc.document, Mirror.links, Doc.leads, Option.bind_eq_some_iff, truthy_eq_some]
    grind
  | source doc => simp [Doc.kind, Mirror.links, Doc.leads]
  | catalog doc =>
    simp [Doc.kind, Doc.document, Mirror.links, Doc.leads, Option.bind_eq_some_iff, truthy_eq_some,
      Listed.links]
    grind

/-- There is a document of the kind at an address. -/
def Placed (stored : Stored) (kind : Kind) (id : String) : Prop :=
  ∃ doc, stored.lookup id = some doc ∧ doc.kind = kind

theorem Chain.placed {revisions : List String} (h : Chain stored (some id) revisions) :
    Placed stored .model id := by
  cases h with
  | cons found _ => exact ⟨_, found, rfl⟩

/-- What a document of a sound shelf leads to is there, and is of the kind it is to be. -/
theorem Shelf.Sound.placed (h : shelf.Sound careful) (hfound : shelf.stored.lookup id = some doc)
    {link : Kind × String} (hlink : link ∈ doc.leads) : Placed shelf.stored link.1 link.2 := by
  have hsound := h.docs id doc hfound
  cases doc with
  | source doc => cases hlink
  | model doc =>
    obtain ⟨next, hnext, rfl⟩ := List.mem_map.mp hlink
    obtain ⟨revisions, hchain, -⟩ := hsound
    rw [Option.mem_toList.mp hnext] at hchain
    exact hchain.placed
  | catalog doc =>
    obtain ⟨hprevs, hobjects⟩ := hsound
    rcases List.mem_append.mp hlink with hprev | hlisted
    · obtain ⟨next, hnext, rfl⟩ := List.mem_map.mp hprev
      obtain ⟨catalog, hcatalog⟩ := hprevs _ (Option.mem_toList.mp hnext)
      exact ⟨_, hcatalog, rfl⟩
    · obtain ⟨item, hitem, hlink⟩ := List.mem_flatMap.mp hlisted
      obtain ⟨⟨revisions, hchain, -⟩, hsources⟩ := hobjects item hitem
      rcases List.mem_cons.mp hlink with rfl | hsource
      · exact hchain.placed
      · obtain ⟨next, hnext, rfl⟩ := List.mem_map.mp hsource
        obtain ⟨found, hfound, -⟩ := hsources next hnext
        exact ⟨_, hfound, rfl⟩

theorem Addressed.step {state next : State} {action : Action} (h : Addressed address state.shelf.stored)
    (hstep : Hub.step address state action = some next) : Addressed address next.shelf.stored := by
  cases action with
  | start request =>
    obtain rfl := Option.some.inj hstep
    exact h
  | call place =>
    simp only [Hub.step] at hstep
    split at hstep
    · rename_i operation rest own hrun
      obtain ⟨answered, hserve, rfl⟩ := Option.map_eq_some_iff.mp hstep
      cases operation with
      | head =>
        simp only [serve] at hserve
        split at hserve
        · obtain rfl := Option.some.inj hserve
          exact h
        · split at hserve
          · obtain rfl := Option.some.inj hserve
            exact h
          · cases hserve
      | get id =>
        obtain ⟨doc, -, rfl⟩ := Option.map_eq_some_iff.mp hserve
        exact h
      | put doc =>
        simp only [serve] at hserve
        split at hserve
        · obtain rfl := Option.some.inj hserve
          intro item hitem
          rcases List.mem_append.mp hitem with hold | hnew
          · exact h item hold
          · rw [List.mem_singleton.mp hnew]
        · split at hserve
          · obtain rfl := Option.some.inj hserve
            exact h
          · cases hserve
      | writeDescriptor catalog snapshot =>
        obtain rfl := Option.some.inj hserve
        exact h
    · cases hstep

theorem Addressed.reached {state : State} {allowed : State → Action → Prop}
    (h : Reaches (Hub.step address) allowed {} state) : Addressed address state.shelf.stored := by
  induction h with
  | start =>
    intro item hitem
    cases hitem
  | step _ _ hstep ih => exact ih.step hstep

theorem mem_of_lookup_doc (h : stored.lookup id = some doc) : (id, doc) ∈ stored := by
  obtain ⟨before, after, rfl, -⟩ := List.lookup_eq_some_iff.mp h
  simp

end

section
variable {hash : Bytes → String} {read : Bytes → Option Document} {encode : Doc → Bytes}
  {shelf : Shelf} {careful : Prop}

/-- The documents of a shelf as they are kept, each under the hash of its bytes. -/
structure Filed (hash : Bytes → String) (read : Bytes → Option Document) (encode : Doc → Bytes)
    (shelf : Shelf) : Prop where
  addressed : Addressed (fun doc => hash (encode doc)) shelf.stored
  readable : ∀ item ∈ shelf.stored, read (encode item.2) = some item.2.document
  named : ∀ bytes, hash bytes ≠ ""

theorem Filed.answered (h : Filed hash read encode shelf) {id : String} {document : Document}
    (hanswered : Answered read (shelf.answer encode) id document) :
    ∃ doc, shelf.stored.lookup id = some doc ∧ document = doc.document := by
  obtain ⟨bytes, hbytes, hread⟩ := hanswered
  obtain ⟨doc, hdoc, rfl⟩ := Option.map_eq_some_iff.mp hbytes
  have hreadable := h.readable _ (mem_of_lookup_doc hdoc)
  exact ⟨doc, hdoc, Option.some.inj (hread.symm.trans hreadable)⟩

/-- What is come by is on the shelf, and of the kind it is come by as. -/
theorem Filed.placed (h : Filed hash read encode shelf) (hsound : shelf.Sound careful) {kind : Kind}
    {id : String} (hneeded : Needed (Answered read (shelf.answer encode)) shelf.root kind id) :
    Placed shelf.stored kind id ∧ FromHead shelf id := by
  induction hneeded with
  | root hroot =>
    obtain ⟨catalog, hcatalog⟩ := hsound.head _ hroot
    exact ⟨⟨_, hcatalog, rfl⟩, _, hroot, .root⟩
  | link _ hfound hlink ih =>
    obtain ⟨⟨doc, hdoc, rfl⟩, head, hhead, hlinked⟩ := ih
    obtain ⟨same, hsame, rfl⟩ := h.answered hfound
    obtain rfl := Option.some.inj (hdoc.symm.trans hsame)
    obtain ⟨hlead, -⟩ := Doc.mem_document.mp hlink
    exact ⟨hsound.placed hdoc hlead, head, hhead, .link hlinked hdoc (Doc.mem_links.mpr ⟨_, hlead⟩)⟩

theorem Filed.apart (h : Filed hash read encode shelf) (hsound : shelf.Sound careful) :
    Apart (Answered read (shelf.answer encode)) shelf.root := by
  intro kind other id hone hother
  obtain ⟨⟨doc, hdoc, rfl⟩, -⟩ := h.placed hsound hone
  obtain ⟨⟨same, hsame, rfl⟩, -⟩ := h.placed hsound hother
  rw [Option.some.inj (hdoc.symm.trans hsame)]

/-- A shelf that is sound answers for all its head leads to. -/
theorem Filed.whole (h : Filed hash read encode shelf) (hsound : shelf.Sound careful) :
    Whole hash read (shelf.answer encode) shelf.root (shelf.stored.map Prod.fst) where
  listed := by
    intro kind id hneeded
    obtain ⟨⟨doc, hdoc, -⟩, -⟩ := h.placed hsound hneeded
    exact List.mem_map_of_mem (mem_of_lookup_doc hdoc)
  answered := by
    intro kind id hneeded
    obtain ⟨⟨doc, hdoc, rfl⟩, -⟩ := h.placed hsound hneeded
    have hmem := mem_of_lookup_doc hdoc
    refine ⟨encode doc, doc.document, ?_, (h.addressed _ hmem).symm, h.readable _ hmem, fun hkind => ?_⟩
    · rw [Shelf.answer, hdoc]
      rfl
    · cases doc with
      | catalog doc =>
        refine ⟨_, rfl, fun listed hlisted => ?_⟩
        obtain ⟨item, -, rfl⟩ := List.mem_map.mp hlisted
        rfl
      | model doc => cases hkind
      | source doc => cases hkind

/-- What can be come by from the head is what the copy needs. -/
theorem Filed.needed (h : Filed hash read encode shelf) (hsound : shelf.Sound careful) {id : String}
    (hfrom : FromHead shelf id) :
    ∃ kind, Needed (Answered read (shelf.answer encode)) shelf.root kind id := by
  obtain ⟨head, hhead, hlinked⟩ := hfrom
  induction hlinked with
  | root => exact ⟨.catalog, .root hhead⟩
  | @link id next doc _ hfound hmem ih =>
    obtain ⟨kind, hneeded⟩ := ih
    obtain ⟨⟨same, hsame, rfl⟩, -⟩ := h.placed hsound hneeded
    obtain rfl := Option.some.inj (hfound.symm.trans hsame)
    obtain ⟨other, hlead⟩ := Doc.mem_links.mp hmem
    obtain ⟨found, hlookup, -⟩ := hsound.placed hfound hlead
    have hne : next ≠ "" := by
      have haddress : next = hash (encode found) := h.addressed _ (mem_of_lookup_doc hlookup)
      rw [haddress]
      exact h.named _
    have hlink := Doc.mem_document.mpr ⟨hlead, hne⟩
    refine ⟨other, .link hneeded ⟨encode doc, ?_, h.readable _ (mem_of_lookup_doc hfound)⟩ hlink⟩
    rw [Shelf.answer, hfound]
    rfl

/-- Whatever has been published to a hub, and in whatever order of calls: an anonymous copy of it
comes to its end and has, byte for byte, just what can be come by from the head. -/
theorem reached_mirrored {state : State} {bound : Nat}
    (hreach : Reaches (Hub.step fun doc => hash (encode doc)) (fun _ _ => True) {} state)
    (hreadable : ∀ item ∈ state.shelf.stored, read (encode item.2) = some item.2.document)
    (hnamed : ∀ bytes, hash bytes ≠ "") (hbound : state.shelf.stored.length < bound) :
    ∃ count, ∀ more, count ≤ more →
      let verdict := honestVerdict hash (state.shelf.answer encode) state.shelf.root
      let run := Program.advance Mirror.serve (List.replicate more verdict) (mirror hash read bound) {}
      (∃ seen, run.1.outcome = some (.ok seen)) ∧ (addresses hash run.2.stored).Nodup ∧
        ∀ id bytes, (∃ copied ∈ run.2.stored, hash copied.bytes = id ∧ copied.bytes = bytes) ↔
          FromHead state.shelf id ∧ state.shelf.answer encode id = some bytes := by
  have hinv : Inv (fun doc => hash (encode doc)) False state :=
    Inv.reached (fun _ _ _ hfalse => hfalse.elim) hreach
  have hfiled : Filed hash read encode state.shelf := ⟨Addressed.reached hreach, hreadable, hnamed⟩
  obtain ⟨count, hcount⟩ := mirror_ends (hfiled.whole hinv.sound) (hfiled.apart hinv.sound)
    (show (state.shelf.stored.map Prod.fst).length < bound from by simpa using hbound)
  refine ⟨count, fun more hmore => ?_⟩
  obtain ⟨seen, hended, hsound, hcopied⟩ := hcount more hmore
  refine ⟨⟨seen, hended⟩, hsound.nodup, fun id bytes => ⟨?_, ?_⟩⟩
  · rintro ⟨copied, hmem, haddress, hbytes⟩
    obtain ⟨hneeded, hanswer⟩ := (hcopied copied.kind id bytes).mp ⟨copied, hmem, rfl, haddress, hbytes⟩
    exact ⟨(hfiled.placed hinv.sound hneeded).2, hanswer⟩
  · rintro ⟨hfrom, hanswer⟩
    obtain ⟨kind, hneeded⟩ := hfiled.needed hinv.sound hfrom
    obtain ⟨copied, hmem, -, haddress, hbytes⟩ := (hcopied kind id bytes).mpr ⟨hneeded, hanswer⟩
    exact ⟨copied, hmem, haddress, hbytes⟩

end

def sampleEncode : Doc → Bytes
  | .catalog _ => [1]
  | .model _ => [2]
  | .source _ => [3]

def samplePublished : Bytes → Option Document
  | [1] => some ⟨"", "", "2026-01-01", none, some [⟨some "blake3:model", some []⟩]⟩
  | [2] => some ⟨"o/m", "r1", "", none, none⟩
  | _ => none

theorem sampleHash_ne (bytes : Bytes) : sampleHash bytes ≠ "" := by
  unfold sampleHash
  split <;> decide

theorem reached_mirrored_sample :
    ∃ state, run (step fun doc => sampleHash (sampleEncode doc)) samplePublish {} = some state ∧
      state.shelf.root = some "blake3:catalog" ∧ ∃ count, ∀ more, count ≤ more →
        let verdict := honestVerdict sampleHash (state.shelf.answer sampleEncode) state.shelf.root
        let run := Program.advance Mirror.serve (List.replicate more verdict)
          (mirror sampleHash samplePublished 8) {}
        (∃ seen, run.1.outcome = some (.ok seen)) ∧ (addresses sampleHash run.2.stored).Nodup ∧
          ∀ id bytes, (∃ copied ∈ run.2.stored, sampleHash copied.bytes = id ∧ copied.bytes = bytes) ↔
            FromHead state.shelf id ∧ state.shelf.answer sampleEncode id = some bytes := by
  have hrun : (run (step fun doc => sampleHash (sampleEncode doc)) samplePublish {}).map
      (fun state => (state.shelf.root, state.shelf.stored.length, decide (∀ item ∈ state.shelf.stored,
        samplePublished (sampleEncode item.2) = some item.2.document))) =
      some (some "blake3:catalog", 2, true) := by
    decide
  obtain ⟨state, hstate, heq⟩ := Option.map_eq_some_iff.mp hrun
  obtain ⟨hroot, hlength, hreadable⟩ := by simpa only [Prod.mk.injEq] using heq
  refine ⟨state, hstate, hroot, ?_⟩
  exact reached_mirrored (Reaches.start.run hstate) (of_decide_eq_true hreadable) sampleHash_ne
    (by omega)

end HologramLive.ModelHub.Hub
