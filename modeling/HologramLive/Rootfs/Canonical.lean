import HologramLive.Rootfs.Image
import Mathlib.Data.List.Sort

/-! The archive an image is normalised to is the image's own: it does not depend on the
archive the image came in. -/

namespace HologramLive.Rootfs
open Lib Lib.Result Store

namespace Tools
variable (tools : Tools)

/-- The blobs of an image, each under its own digest. -/
def blobs (contents : List Bytes) : Files := contents.map fun blob => (tools.blobNames blob, blob)

/-- The members that hold the blobs. -/
def blobFiles (image : Image) : Files :=
  (tools.blobs (image.config :: image.layers)).foldl
    (fun files blob => Table.insert files blob.1 blob.2) []

def normalizedManifest (image : Image) : DockerManifest :=
  ⟨tools.blobPath image.config, sortedTags image.tags, image.layers.map tools.blobPath⟩

/-- The members of an image's own archive. -/
def normalizedFiles (image : Image) : Files :=
  Table.insert (tools.blobFiles image) manifestNames
    (tools.codec.toVec (.array [(tools.normalizedManifest image).toJson]))

/-- How many bytes the members have together. -/
def normalizedSize (image : Image) : Nat :=
  ((Table.listing (tools.normalizedFiles image)).map fun file => file.2.length).sum

def normalizedEntries (image : Image) : List Entry :=
  (Table.listing (tools.normalizedFiles image)).map canonicalEntry

def normalized (image : Image) : NormalizedDockerArchive :=
  ⟨tools.tar.build (tools.normalizedEntries image), "sha256:" ++ tools.digest image.config⟩

end Tools

section Tags
variable {tags others : List String}

theorem mem_destutter' {tag first : String} {rest : List String} :
    tag ∈ rest.destutter' (· ≠ ·) first ↔ tag = first ∨ tag ∈ rest := by
  induction rest generalizing first with
  | nil => simp
  | cons second rest ih =>
    by_cases h : first = second
    · rw [List.destutter'_cons_neg _ (by simp [h]), ih]
      simp [h]
    · rw [List.destutter'_cons_pos _ h, List.mem_cons, ih, List.mem_cons]

theorem mem_sortedTags {tag : String} : tag ∈ sortedTags tags ↔ tag ∈ tags := by
  have hmem : tag ∈ tags.insertionSort (· ≤ ·) ↔ tag ∈ tags := List.mem_insertionSort _
  rw [sortedTags, ← hmem]
  cases tags.insertionSort (· ≤ ·) with
  | nil => simp
  | cons first rest => rw [List.destutter_cons', mem_destutter', List.mem_cons]

theorem destutter'_pairwise {first : String} {rest : List String}
    (h : (first :: rest).Pairwise (· ≤ ·)) : (rest.destutter' (· ≠ ·) first).Pairwise (· < ·) := by
  induction rest generalizing first with
  | nil => simp
  | cons second rest ih =>
    obtain ⟨hfirst, hrest⟩ := List.pairwise_cons.mp h
    by_cases hsame : first = second
    · rw [List.destutter'_cons_neg _ (by simp [hsame])]
      exact ih (hsame ▸ hrest)
    · rw [List.destutter'_cons_pos _ hsame]
      refine List.pairwise_cons.mpr ⟨fun tag htag => ?_, ih hrest⟩
      have hlt : first < second := lt_of_le_of_ne (hfirst second List.mem_cons_self) hsame
      rcases mem_destutter'.mp htag with rfl | hmem
      · exact hlt
      · exact lt_of_lt_of_le hlt ((List.pairwise_cons.mp hrest).1 tag hmem)

/-- Sorted and without repetitions, the tags stand in a strict order. -/
theorem sortedTags_pairwise (tags : List String) : (sortedTags tags).Pairwise (· < ·) := by
  have hsorted := List.pairwise_insertionSort (· ≤ ·) tags
  unfold sortedTags
  cases hcase : tags.insertionSort (· ≤ ·) with
  | nil => simp
  | cons first rest => exact destutter'_pairwise (hcase ▸ hsorted)

theorem sortedTags_congr (h : ∀ tag, tag ∈ tags ↔ tag ∈ others) :
    sortedTags tags = sortedTags others := by
  have hperm : (sortedTags tags).Perm (sortedTags others) := by
    refine (List.perm_ext_iff_of_nodup ?_ ?_).mpr fun tag => ?_
    · exact (sortedTags_pairwise tags).imp ne_of_lt
    · exact (sortedTags_pairwise others).imp ne_of_lt
    · rw [mem_sortedTags, mem_sortedTags, h]
  exact hperm.eq_of_pairwise (fun _ _ _ _ h h' => absurd h' (lt_asymm h)) (sortedTags_pairwise tags)
    (sortedTags_pairwise others)

theorem sortedTags_sortedTags (tags : List String) : sortedTags (sortedTags tags) = sortedTags tags :=
  sortedTags_congr fun _ => mem_sortedTags

end Tags
section
variable {tools : Tools} {archive : Bytes} {tag : String} {files : Files} {image other : Image}

/-- All layers in turn, where the files have them. -/
theorem normalizeLayers_ok (hnodup : (files.map Prod.fst).Nodup) {start : Files} {paths layers : List String}
    {after : Files × List String} :
    layers.foldlM (tools.normalizeLayer files) (start, paths) = .ok after ↔
      ∃ contents, List.Forall₂ (MemberAt files) layers contents ∧
        after = ((tools.blobs contents).foldl (fun files blob => Table.insert files blob.1 blob.2) start,
          paths ++ contents.map tools.blobPath) := by
  induction layers generalizing start paths with
  | nil =>
    constructor
    · intro h
      obtain rfl := Except.ok.inj h
      exact ⟨[], .nil, by simp [Tools.blobs]⟩
    · intro ⟨contents, hcontents, hafter⟩
      cases hcontents
      simp [hafter, Tools.blobs, pure, Except.pure]
  | cons layer layers ih =>
    rw [List.foldlM_cons, bind_ok]
    constructor
    · intro ⟨between, hstep, h⟩
      obtain ⟨found, hfound, hbetween⟩ := bind_ok.mp hstep
      obtain rfl := Except.ok.inj hbetween
      obtain ⟨contents, hcontents, rfl⟩ := ih.mp h
      exact ⟨found :: contents, .cons ((requiredMember_ok hnodup).mp hfound) hcontents,
        by simp [Tools.blobs]⟩
    · intro ⟨contents, hcontents, hafter⟩
      cases hcontents with
      | cons hfound hrest =>
        refine ⟨_, bind_ok.mpr ⟨_, (requiredMember_ok hnodup).mpr hfound, rfl⟩, ih.mpr ⟨_, hrest, ?_⟩⟩
        simp [hafter, Tools.blobs]

theorem memberAt_reverse {members : Files} {path : String} {contents : Bytes} :
    MemberAt members.reverse path contents ↔ MemberAt members path contents := by
  simp [MemberAt]

/-- What an archive is normalised to. -/
theorem normalize_ok {result : NormalizedDockerArchive} :
    normalize tools archive tag = .ok result ↔
      ∃ image, DockerArchive tools archive image ∧ tag ∈ image.tags ∧ result = tools.normalized image := by
  rw [normalize, bind_ok]
  constructor
  · intro ⟨files, hfiles, h⟩
    obtain ⟨entries, members, total, hentries, hholds, hnodup, htotal, rfl⟩ :=
      readRegularFiles_ok.mp hfiles
    have hnodup' : (members.reverse.map Prod.fst).Nodup := by simpa using hnodup
    cases hmanifest : members.reverse.lookup manifestNames with
    | none =>
      rw [hmanifest] at h
      cases h
    | some manifestBytes =>
      rw [hmanifest] at h
      obtain ⟨manifests, hread, h⟩ := bind_ok.mp h
      match manifests with
      | [] => cases h
      | _ :: _ :: _ => cases h
      | [manifest] =>
        obtain ⟨htag, h⟩ := guard_ok.mp h
        obtain ⟨config, hconfig, h⟩ := bind_ok.mp h
        obtain ⟨⟨normalized, paths⟩, hlayers, h⟩ := bind_ok.mp h
        obtain rfl := Except.ok.inj h
        obtain ⟨layers, hcontents, hafter⟩ := (normalizeLayers_ok hnodup').mp hlayers
        obtain ⟨rfl, rfl⟩ := Prod.mk.inj hafter
        refine ⟨⟨config, layers, manifest.repoTags⟩, ?_, mem_sortedTags.mp (not_not.mp htag), rfl⟩
        refine ⟨entries, members, total, hentries, hholds, hnodup, htotal, manifestBytes, manifest,
          ?_, mapError_ok.mp hread, ?_, ?_, rfl⟩
        · simpa using Lookup.mem_of_lookup hmanifest
        · exact memberAt_reverse.mp ((requiredMember_ok hnodup').mp hconfig)
        · exact hcontents.imp fun _ _ hmember => memberAt_reverse.mp hmember
  · intro ⟨image, harchive, htag, hresult⟩
    obtain ⟨entries, members, total, hentries, hholds, hnodup, htotal, manifestBytes, manifest,
      hmanifest, hread, hconfig, hlayers, htags⟩ := harchive
    have hnodup' : (members.reverse.map Prod.fst).Nodup := by simpa using hnodup
    refine ⟨members.reverse, readRegularFiles_ok.mpr
      ⟨entries, members, total, hentries, hholds, hnodup, htotal, rfl⟩, ?_⟩
    rw [Lookup.lookup_of_mem hnodup' (List.mem_reverse.mpr hmanifest)]
    refine bind_ok.mpr ⟨[manifest], mapError_ok.mpr hread, ?_⟩
    refine guard_ok.mpr ⟨not_not.mpr (mem_sortedTags.mpr (htags ▸ htag)), ?_⟩
    refine bind_ok.mpr ⟨image.config, (requiredMember_ok hnodup').mpr (memberAt_reverse.mpr hconfig), ?_⟩
    refine bind_ok.mpr ⟨_, (normalizeLayers_ok hnodup').mpr ⟨image.layers,
      hlayers.imp fun _ _ hmember => memberAt_reverse.mpr hmember, rfl⟩, ?_⟩
    rw [hresult]
    simp only [Tools.normalized, Tools.normalizedEntries, Tools.normalizedFiles,
      Tools.normalizedManifest, Tools.blobFiles, htags, List.nil_append]
    rfl

/-- Two archives of the same content come to the same archive. -/
theorem normalized_congr (h : SameContent image other) :
    tools.normalized image = tools.normalized other := by
  have htags := sortedTags_congr h.tags
  simp only [Tools.normalized, Tools.normalizedEntries, Tools.normalizedFiles,
    Tools.normalizedManifest, Tools.blobFiles, h.config, h.layers, htags]

end
section Paths
variable {names : List Bytes} {name : Bytes}

/-- A name that stands for itself on a path. -/
structure PlainName (name : Bytes) : Prop where
  ne_nil : name ≠ []
  noSlash : slash ∉ name
  ne_dot : name ≠ [dot]
  ne_dots : name ≠ [dot, dot]

theorem joined_cons (name : Bytes) (names : List Bytes) :
    ∃ tail, joined (name :: names) = name ++ tail := by
  cases names with
  | nil => exact ⟨[], by simp [joined, List.intercalate]⟩
  | cons second names => exact ⟨_, by simp [joined, List.intercalate]; rfl⟩

theorem components_joined (h : ∀ name ∈ names, PlainName name) :
    components (joined names) = names.map .normal := by
  have hpieces : Pieces.pieces slash (joined names) = names :=
    Pieces.pieces_join fun name hname => ⟨(h name hname).ne_nil, (h name hname).noSlash⟩
  have hfilter : names.filter (· ≠ [dot]) = names :=
    List.filter_eq_self.mpr fun name hname => by simpa using (h name hname).ne_dot
  have hmap : names.map Component.ofPiece = names.map .normal :=
    List.map_congr_left fun name hname => if_neg (h name hname).ne_dots
  have hhead : (joined names).head? ≠ some slash := by
    cases names with
    | nil => simp [joined]
    | cons name names =>
      obtain ⟨hne, hslash, -, -⟩ := h name List.mem_cons_self
      obtain ⟨tail, htail⟩ := joined_cons name names
      obtain ⟨byte, bytes, rfl⟩ := List.exists_cons_of_ne_nil hne
      rw [htail, List.cons_append, List.head?_cons]
      intro heq
      exact hslash (Option.some.inj heq ▸ List.mem_cons_self)
  have hdot : names.head? ≠ some [dot] := fun hhead =>
    (h [dot] (List.mem_of_mem_head? hhead)).ne_dot rfl
  rw [components, hpieces, if_neg hhead, if_neg hdot, hfilter, hmap]

theorem joined_safe (hne : names ≠ []) (h : ∀ name ∈ names, PlainName name) :
    SafePath (joined names) ∧ Rootfs.names (joined names) = names := by
  refine ⟨⟨?_, ?_⟩, ?_⟩
  · obtain ⟨name, names, rfl⟩ := List.exists_cons_of_ne_nil hne
    obtain ⟨tail, htail⟩ := joined_cons name names
    rw [htail]
    simp [(h name List.mem_cons_self).ne_nil]
  · rw [components_joined h]
    simp [Component.name?]
  · rw [Rootfs.names, components_joined h, List.filterMap_map]
    exact List.filterMap_some

theorem plainName_manifest : PlainName (Utf8.encode "manifest.json") :=
  ⟨by decide, by decide, by decide, by decide⟩

/-- The digits of a digest are a name. -/
theorem plainName_digest (tools : Tools) (contents : Bytes) :
    PlainName (Utf8.encode (tools.digest contents)) := by
  have habsent : ∀ byte ∈ [slash, dot], byte ∉ Utf8.encode (tools.digest contents) := by
    intro byte hbyte
    have htable : hexTable.all (fun c => byte ∉ Utf8.encode (String.singleton c)) := by
      rcases List.mem_cons.mp hbyte with rfl | hbyte
      · decide
      · obtain rfl := List.mem_singleton.mp hbyte
        decide
    refine Utf8.not_mem_encode fun c hc => ?_
    simpa using List.all_eq_true.mp (hex_all htable _) c hc
  have hne : Utf8.encode (tools.digest contents) ≠ [] := by
    intro hnil
    have hempty : tools.digest contents = "" := Utf8.encode_injective (hnil.trans (by decide))
    have hlength := congrArg (fun text => text.toList.length) hempty
    simp [Tools.digest, length_hex] at hlength
  have hdot := habsent dot (by simp)
  refine ⟨hne, habsent slash (by simp), fun heq => ?_, fun heq => ?_⟩
  · rw [heq] at hdot
    exact hdot (by simp)
  · rw [heq] at hdot
    exact hdot (by simp)

theorem plainName_blob (tools : Tools) (contents : Bytes) :
    ∀ name ∈ tools.blobNames contents, PlainName name := by
  have hblobs : PlainName (Utf8.encode "blobs") := ⟨by decide, by decide, by decide, by decide⟩
  have hsha256 : PlainName (Utf8.encode "sha256") := ⟨by decide, by decide, by decide, by decide⟩
  simpa [Tools.blobNames] using And.intro hblobs ⟨hsha256, plainName_digest tools contents⟩

/-- The path in the manifest is that of the member. -/
theorem encode_blobPath (tools : Tools) (contents : Bytes) :
    Utf8.encode (tools.blobPath contents) = joined (tools.blobNames contents) := by
  have hfolder : Utf8.encode "blobs/sha256/"
      = Utf8.encode "blobs" ++ slash :: (Utf8.encode "sha256" ++ [slash]) := by decide
  rw [Tools.blobPath, Utf8.encode_append, hfolder]
  simp [joined, Tools.blobNames, List.intercalate]

theorem blobPath_safe (tools : Tools) (contents : Bytes) :
    SafePath (Utf8.encode (tools.blobPath contents)) ∧
      Rootfs.names (Utf8.encode (tools.blobPath contents)) = tools.blobNames contents := by
  rw [encode_blobPath]
  exact joined_safe (by simp [Tools.blobNames]) (plainName_blob tools contents)

end Paths

section Own
variable {tools : Tools} {image : Image}

theorem asStr_strings (texts : List String) :
    Json.vector Json.asStr (.array (texts.map .string)) = some texts :=
  Json.vector_written fun _ _ => rfl

theorem ofJson_toJson (manifest : DockerManifest) :
    DockerManifest.ofJson manifest.toJson = some manifest := by
  rw [DockerManifest.ofJson, DockerManifest.toJson, StructShape.read_ofFields rfl (by decide)]
  simp [asStr_strings]

theorem nodup_blobFiles (tools : Tools) (image : Image) :
    ((tools.blobFiles image).map Prod.fst).Nodup := Table.nodup_inserts (by simp) _

theorem nodup_normalizedFiles (tools : Tools) (image : Image) :
    ((tools.normalizedFiles image).map Prod.fst).Nodup :=
  Table.nodup_insert (nodup_blobFiles tools image) _ _

/-- Every blob is under its own digest. -/
theorem mem_blobFiles {file : List Bytes × Bytes} (h : file ∈ tools.blobFiles image) :
    ∃ blob ∈ image.config :: image.layers, file = (tools.blobNames blob, blob) := by
  rcases Table.mem_of_inserts h with hnil | hblob
  · cases hnil
  · obtain ⟨found, hfound, hfile⟩ := List.mem_map.mp hblob
    exact ⟨found, hfound, hfile.symm⟩

theorem digest_of_blobNames {blob other : Bytes} (h : tools.blobNames blob = tools.blobNames other) :
    tools.digest blob = tools.digest other := by
  simp only [Tools.blobNames, List.cons.injEq, true_and, and_true] at h
  exact Utf8.encode_injective h

/-- What is kept of a blob: the last one of the image with its digest. -/
def Tools.stored (tools : Tools) (image : Image) (blob : Bytes) : Bytes :=
  ((tools.blobFiles image).lookup (tools.blobNames blob)).getD blob

theorem stored_spec {blob : Bytes} (h : blob ∈ image.config :: image.layers) :
    (tools.blobNames blob, tools.stored image blob) ∈ tools.blobFiles image ∧
      tools.digest (tools.stored image blob) = tools.digest blob ∧
      tools.stored image blob ∈ image.config :: image.layers := by
  have hkey : tools.blobNames blob ∈ (tools.blobFiles image).map Prod.fst := by
    rw [Tools.blobFiles, Table.mem_inserts, Tools.blobs, List.map_map]
    exact .inr (List.mem_map.mpr ⟨blob, h, rfl⟩)
  obtain ⟨⟨names, kept⟩, hmem, hnames⟩ := List.mem_map.mp hkey
  obtain rfl : names = tools.blobNames blob := hnames
  have hstored : tools.stored image blob = kept := by
    rw [Tools.stored, Lookup.lookup_of_mem (nodup_blobFiles tools image) hmem]
    rfl
  obtain ⟨other, hother, hfile⟩ := mem_blobFiles hmem
  obtain ⟨hsame, rfl⟩ := Prod.mk.inj hfile
  rw [hstored]
  exact ⟨hmem, digest_of_blobNames hsame.symm, hother⟩

/-- The image that an image's own archive holds. -/
def Tools.own (tools : Tools) (image : Image) : Image :=
  ⟨tools.stored image image.config, image.layers.map (tools.stored image), sortedTags image.tags⟩

theorem blobNames_congr {blob other : Bytes} (h : tools.digest blob = tools.digest other) :
    tools.blobNames blob = tools.blobNames other := by
  rw [Tools.blobNames, Tools.blobNames, h]

theorem blobPath_congr {blob other : Bytes} (h : tools.digest blob = tools.digest other) :
    tools.blobPath blob = tools.blobPath other := by
  rw [Tools.blobPath, Tools.blobPath, h]

/-- Normalising what is normalised changes nothing. -/
theorem normalized_own (tools : Tools) (image : Image) :
    tools.normalized (tools.own image) = tools.normalized image := by
  have hall : ∀ blob ∈ image.config :: image.layers,
      tools.digest (tools.stored image blob) = tools.digest blob := fun blob h => (stored_spec h).2.1
  have hcontents : (tools.own image).config :: (tools.own image).layers
      = (image.config :: image.layers).map (tools.stored image) := rfl
  have hfiles : tools.blobFiles (tools.own image) = tools.blobFiles image := by
    rw [Tools.blobFiles, hcontents, Tools.blobFiles]
    refine Table.inserts_again ?_ fun file hfile => ?_
    · simp only [Tools.blobs, List.map_map]
      exact List.map_congr_left fun blob hblob => blobNames_congr (hall blob hblob)
    · simp only [Tools.blobs, List.map_map, List.mem_map, Function.comp_apply] at hfile
      obtain ⟨blob, hblob, rfl⟩ := hfile
      rw [blobNames_congr (hall blob hblob)]
      exact (stored_spec hblob).1
  have hconfig := hall image.config List.mem_cons_self
  have hmanifest : tools.normalizedManifest (tools.own image) = tools.normalizedManifest image := by
    simp only [Tools.normalizedManifest, Tools.own, blobPath_congr hconfig, sortedTags_sortedTags,
      List.map_map, DockerManifest.mk.injEq, true_and]
    exact List.map_congr_left fun blob hblob =>
      blobPath_congr (hall blob (List.mem_cons_of_mem _ hblob))
  have hdigest : tools.digest (tools.own image).config = tools.digest image.config := hconfig
  rw [Tools.normalized, Tools.normalizedEntries, Tools.normalizedFiles, hfiles, hmanifest, hdigest]
  rfl

/-- Members under plain names are read back. -/
theorem holds_canonical {files : Files}
    (h : ∀ file ∈ files, file.1 ≠ [] ∧ ∀ name ∈ file.1, PlainName name) :
    Holds ((files.map canonicalEntry).map .ok) files (files.map fun file => file.2.length).sum := by
  induction files with
  | nil => exact .nil
  | cons file files ih =>
    obtain ⟨hfirst, hrest⟩ := List.forall_mem_cons.mp h
    obtain ⟨hsafe, hnames⟩ := joined_safe hfirst.1 hfirst.2
    have hmember := @Holds.member (canonicalEntry file) _ _ _ _ _ rfl rfl hsafe rfl (ih hrest)
    rwa [hnames] at hmember

theorem manifestNames_ne (tools : Tools) (blob : Bytes) : tools.blobNames blob ≠ manifestNames := by
  intro heq
  have hlength := congrArg List.length heq
  simp [Tools.blobNames, manifestNames] at hlength

theorem holds_own (tools : Tools) (image : Image) :
    Holds ((tools.normalizedEntries image).map .ok) (Table.listing (tools.normalizedFiles image))
      (tools.normalizedSize image) := by
  refine holds_canonical fun file hfile => ?_
  rcases List.mem_cons.mp (Table.mem_listing.mp hfile) with rfl | hblob
  · exact ⟨by simp [manifestNames], by simpa [manifestNames] using plainName_manifest⟩
  · obtain ⟨blob, -, rfl⟩ := mem_blobFiles (List.mem_filter.mp hblob).1
    exact ⟨by simp [Tools.blobNames], plainName_blob tools blob⟩

/-- An image's own archive describes it. -/
theorem describes_own (hcodec : tools.codec.Keeps (.array [(tools.normalizedManifest image).toJson])) :
    Describes tools (Table.listing (tools.normalizedFiles image)) (tools.own image) := by
  have hread : Json.vector DockerManifest.ofJson (.array [(tools.normalizedManifest image).toJson])
      = some [tools.normalizedManifest image] := by
    simp [Json.vector, ofJson_toJson]
  have hmember : ∀ blob ∈ image.config :: image.layers,
      MemberAt (Table.listing (tools.normalizedFiles image)) (tools.blobPath blob)
        (tools.stored image blob) := by
    intro blob hblob
    obtain ⟨hsafe, hnames⟩ := blobPath_safe tools blob
    refine ⟨hsafe, Table.mem_listing.mpr ?_⟩
    rw [hnames]
    refine List.mem_cons_of_mem _ (List.mem_filter.mpr ⟨(stored_spec hblob).1, ?_⟩)
    simpa using manifestNames_ne tools blob
  refine ⟨_, tools.normalizedManifest image, Table.mem_listing.mpr List.mem_cons_self,
    hcodec.read hread, hmember _ List.mem_cons_self, ?_, rfl⟩
  change List.Forall₂ _ (image.layers.map tools.blobPath) (image.layers.map (tools.stored image))
  rw [List.forall₂_map_left_iff, List.forall₂_map_right_iff, List.forall₂_same]
  exact fun blob hblob => hmember blob (List.mem_cons_of_mem _ hblob)

end Own
section
variable {tools : Tools} {image : Image} {entries : List (Except String Entry)} {archive : Bytes}

/-- The crates read back what is written for the image. -/
structure Faithful (tools : Tools) (image : Image) : Prop where
  tar : tools.tar.Keeps (tools.normalizedEntries image)
  codec : tools.codec.Keeps (.array [(tools.normalizedManifest image).toJson])

/-- No two different blobs of the image have one digest. -/
def Apart (tools : Tools) (image : Image) : Prop :=
  ∀ blob ∈ image.config :: image.layers, ∀ other ∈ image.config :: image.layers,
    tools.digest blob = tools.digest other → blob = other

/-- What is not taken: a member that is neither a file nor a directory, a file on a path that
leads elsewhere, and two files on one path. -/
def Refused (entries : List (Except String Entry)) : Prop :=
  (∃ entry : Entry, .ok entry ∈ entries ∧ entry.entryType = .other) ∨
  (∃ entry : Entry, ∃ path, .ok entry ∈ entries ∧ entry.entryType = .regular ∧
    entry.path = .ok path ∧ ¬ SafePath path) ∨
  ∃ front, ∃ entry : Entry, ∃ middle, ∃ other : Entry, ∃ back path path',
    entries = front ++ Except.ok entry :: (middle ++ Except.ok other :: back) ∧
    entry.entryType = .regular ∧ other.entryType = .regular ∧ entry.path = .ok path ∧
    other.path = .ok path' ∧ names path = names path'

theorem holds_entry {members : Files} {total : Nat} (h : Holds entries members total) {entry : Entry}
    (hmem : .ok entry ∈ entries) : entry.entryType = .directory ∨
      entry.entryType = .regular ∧ ∃ path contents, entry.path = .ok path ∧ SafePath path ∧
        (names path, contents) ∈ members := by
  induction h with
  | nil => cases hmem
  | directory htype hrest ih =>
    rcases List.mem_cons.mp hmem with hsame | hmem
    · obtain rfl := Except.ok.inj hsame
      exact .inl htype
    · exact ih hmem
  | member htype hpath hsafe hcontents hrest ih =>
    rcases List.mem_cons.mp hmem with hsame | hmem
    · obtain rfl := Except.ok.inj hsame
      exact .inr ⟨htype, _, _, hpath, hsafe, List.mem_cons_self⟩
    · rcases ih hmem with hdirectory | ⟨htype, path, contents, hpath, hsafe, hmember⟩
      · exact .inl hdirectory
      · exact .inr ⟨htype, path, contents, hpath, hsafe, List.mem_cons_of_mem _ hmember⟩

/-- The members of the entries that follow are among those of all. -/
theorem holds_append {front back : List (Except String Entry)} {members : Files} {total : Nat}
    (h : Holds (front ++ back) members total) :
    ∃ before after size, members = before ++ after ∧ Holds back after size := by
  induction front generalizing members total with
  | nil => exact ⟨[], members, total, rfl, h⟩
  | cons entry front ih =>
    obtain ⟨found, -, hcases⟩ := holds_cons.mp h
    rcases hcases with ⟨-, hrest⟩ | ⟨-, path, contents, rest, size, -, -, -, hrest, rfl, -⟩
    · exact ih hrest
    · obtain ⟨before, after, size, rfl, hback⟩ := ih hrest
      exact ⟨_ :: before, after, size, rfl, hback⟩

theorem refused_not_held (h : Refused entries) {members : Files} {total : Nat}
    (hholds : Holds entries members total) : ¬ (members.map Prod.fst).Nodup := by
  intro hnodup
  rcases h with ⟨entry, hmem, hother⟩ | ⟨entry, path, hmem, hregular, hpath, hunsafe⟩ |
    ⟨front, entry, middle, other, back, path, path', rfl, hregular, hregular', hpath, hpath', hsame⟩
  · rcases holds_entry hholds hmem with htype | ⟨htype, -⟩
    · rw [hother] at htype
      cases htype
    · rw [hother] at htype
      cases htype
  · rcases holds_entry hholds hmem with htype | ⟨-, found, contents, hfound, hsafe, -⟩
    · rw [hregular] at htype
      cases htype
    · obtain rfl := Except.ok.inj (hpath.symm.trans hfound)
      exact hunsafe hsafe
  · obtain ⟨before, after, size, rfl, hback⟩ := holds_append hholds
    obtain ⟨found, hfound, hcases⟩ := holds_cons.mp hback
    obtain rfl := Except.ok.inj hfound
    rcases hcases with ⟨htype, -⟩ | ⟨-, first, contents, rest, more, hfirst, -, -, hrest, rfl, -⟩
    · rw [hregular] at htype
      cases htype
    · obtain rfl := Except.ok.inj (hpath.symm.trans hfirst)
      rcases holds_entry hrest (List.mem_append_right _ List.mem_cons_self) with
        htype | ⟨-, second, others, hsecond, -, hmember⟩
      · rw [hregular'] at htype
        cases htype
      · obtain rfl := Except.ok.inj (hpath'.symm.trans hsecond)
        rw [List.map_append, List.map_cons] at hnodup
        refine (List.nodup_cons.mp hnodup.of_append_right).1 ?_
        rw [hsame]
        exact List.mem_map.mpr ⟨_, hmember, rfl⟩

/-- The archive that comes out holds the image with its tags in order. -/
theorem normalized_holds (hfaithful : Faithful tools image) :
    ∃ entries members, tools.tar.entries (tools.normalized image).bytes = .ok entries ∧
      Holds entries members (tools.normalizedSize image) ∧ (members.map Prod.fst).Nodup ∧
      Describes tools members (tools.own image) :=
  ⟨_, _, hfaithful.tar, holds_own tools image, Table.nodup_listing (nodup_normalizedFiles tools image),
    describes_own hfaithful.codec⟩

theorem own_of_apart (h : Apart tools image) :
    tools.own image = ⟨image.config, image.layers, sortedTags image.tags⟩ := by
  have hstored : ∀ blob ∈ image.config :: image.layers, tools.stored image blob = blob :=
    fun blob hblob => h _ (stored_spec hblob).2.2 _ hblob (stored_spec hblob).2.1
  rw [Tools.own, hstored _ List.mem_cons_self,
    List.map_congr_left fun blob hblob => hstored blob (List.mem_cons_of_mem _ hblob), List.map_id']

/-- Archives of one content come to one archive, which holds that content and comes to itself
as long as it is within the limit; and what is not an archive of files is refused. -/
theorem normalize_canonical (tools : Tools) :
    (∀ archive other image image' tag, DockerArchive tools archive image →
      DockerArchive tools other image' → SameContent image image' → tag ∈ image.tags →
      ∃ result, normalize tools archive tag = .ok result ∧ normalize tools other tag = .ok result ∧
        result.imageId = "sha256:" ++ tools.digest image.config) ∧
    (∀ archive tag result, normalize tools archive tag = .ok result →
      ∃ image, DockerArchive tools archive image ∧ (Faithful tools image →
        (tools.normalizedSize image ≤ maxArchiveBytes →
          normalize tools result.bytes tag = .ok result) ∧
        (Apart tools image → ∃ entries members total, tools.tar.entries result.bytes = .ok entries ∧
          Holds entries members total ∧ (members.map Prod.fst).Nodup ∧
          Describes tools members ⟨image.config, image.layers, sortedTags image.tags⟩))) ∧
    ∀ archive entries, tools.tar.entries archive = .ok entries → Refused entries →
      ∀ tag result, normalize tools archive tag ≠ .ok result := by
  refine ⟨?_, ?_, ?_⟩
  · intro archive other image image' tag harchive hother hsame htag
    have hother' := normalize_ok.mpr ⟨image', hother, (hsame.tags tag).mp htag, rfl⟩
    rw [← normalized_congr hsame] at hother'
    exact ⟨_, normalize_ok.mpr ⟨image, harchive, htag, rfl⟩, hother', rfl⟩
  · intro archive tag result hresult
    obtain ⟨image, harchive, htag, rfl⟩ := normalize_ok.mp hresult
    refine ⟨image, harchive, fun hfaithful => ?_⟩
    obtain ⟨entries, members, hentries, hholds, hnodup, hdescribes⟩ := normalized_holds hfaithful
    refine ⟨fun hsize => ?_, fun hapart => ?_⟩
    · refine normalize_ok.mpr ⟨tools.own image, ?_, mem_sortedTags.mpr htag,
        (normalized_own tools image).symm⟩
      exact ⟨entries, members, _, hentries, hholds, hnodup, hsize, hdescribes⟩
    · rw [own_of_apart hapart] at hdescribes
      exact ⟨entries, members, _, hentries, hholds, hnodup, hdescribes⟩
  · intro archive entries hentries hrefused tag result hresult
    obtain ⟨image, ⟨found, members, total, hfound, hholds, hnodup, -, -⟩, -, -⟩ :=
      normalize_ok.mp hresult
    obtain rfl := Except.ok.inj (hentries.symm.trans hfound)
    exact refused_not_held hrefused hholds hnodup

end

/-! An image of one layer that is as large as an archive may be. -/

section Largest

def manifestText (config tag layer : String) : Bytes :=
  Utf8.encode <| "[\x7b\"Config\":\"" ++ config ++ "\",\"RepoTags\":[\"" ++ tag ++
    "\"],\"Layers\":[\"" ++ layer ++ "\"]\x7d]"

def givenManifest : DockerManifest := ⟨"config.json", ["app:local"], ["layer.tar"]⟩

def givenText : Bytes := manifestText "config.json" "app:local" "layer.tar"

def largestLayer : Bytes := List.replicate (maxArchiveBytes - (givenText.length + 1)) 0

def largestImage : Image := ⟨[7], [largestLayer], ["app:local"]⟩

def member (path : String) (contents : Bytes) : Entry where
  entryType := .regular
  mode := 0o600
  uid := 501
  gid := 501
  mtime := 123
  size := contents.length
  path := .ok (Utf8.encode path)
  contents := .ok contents

def givenEntries : List Entry :=
  [member "layer.tar" largestLayer, member "manifest.json" givenText, member "config.json" [7]]

/-- A directory beside the files, on a path that leads out of the archive. -/
def strayEntries : List Entry :=
  { member "../outside" [] with entryType := .directory } :: givenEntries

/-- A digest that is so many times one byte. -/
def sampleDigest (byte : UInt8) : String := hex (List.replicate 32 byte)

def ownManifest : DockerManifest :=
  ⟨"blobs/sha256/" ++ sampleDigest 7, ["app:local"], ["blobs/sha256/" ++ sampleDigest 0]⟩

def ownText : Bytes :=
  manifestText ("blobs/sha256/" ++ sampleDigest 7) "app:local" ("blobs/sha256/" ++ sampleDigest 0)

def blobOf (byte : UInt8) : List Bytes :=
  [Utf8.encode "blobs", Utf8.encode "sha256", Utf8.encode (sampleDigest byte)]

def ownFiles : Files := [(manifestNames, ownText), (blobOf 0, largestLayer), (blobOf 7, [7])]

/-- Crates that read and write as they should the archives of this one image. The digest of a
blob goes by its first byte. -/
def sampleTools : Tools where
  tar :=
    { entries := fun archive =>
        if archive = [0] then .ok (givenEntries.map .ok)
        else if archive = [2] then .ok (strayEntries.map .ok)
        else .ok ((Table.listing ownFiles).map fun file => .ok (canonicalEntry file))
      build := fun _ => [1] }
  codec :=
    { toVec := fun _ => ownText
      fromSlice := fun bytes =>
        .ok (.array [(if bytes = givenText then givenManifest else ownManifest).toJson]) }
  refusal _ := "invalid type"
  sha256 contents := Vector.replicate 32 (contents.headD 0)

theorem digest_sample (contents : Bytes) :
    sampleTools.digest contents = sampleDigest (contents.headD 0) := by
  rw [Tools.digest, sampleTools, Vector.toList_replicate]
  rfl

theorem digest_layer : sampleTools.digest largestLayer = sampleDigest 0 := by
  rw [digest_sample, largestLayer]
  cases maxArchiveBytes - (givenText.length + 1) with
  | zero => rfl
  | succ count => rfl

theorem blobNames_layer : sampleTools.blobNames largestLayer = blobOf 0 := by
  rw [Tools.blobNames, digest_layer, blobOf]

theorem blobNames_config : sampleTools.blobNames [7] = blobOf 7 := by
  rw [Tools.blobNames, digest_sample, blobOf]
  rfl

theorem ownFiles_eq : sampleTools.normalizedFiles largestImage = ownFiles := by
  have hblobs : blobOf 0 ≠ blobOf 7 := by decide
  have hmanifest : ∀ byte, blobOf byte ≠ manifestNames := fun byte heq => by
    simpa [blobOf, manifestNames] using congrArg List.length heq
  have hfiles : sampleTools.blobFiles largestImage = [(blobOf 0, largestLayer), (blobOf 7, [7])] := by
    simp [Tools.blobFiles, Tools.blobs, largestImage, blobNames_layer, blobNames_config, Table.insert,
      Table.erase, hblobs.symm]
  rw [Tools.normalizedFiles, hfiles]
  simp [Table.insert, Table.erase, hmanifest, ownFiles, sampleTools]

theorem ownManifest_eq : sampleTools.normalizedManifest largestImage = ownManifest := by
  rw [Tools.normalizedManifest, largestImage, ownManifest, Tools.blobPath, List.map_singleton,
    Tools.blobPath, digest_layer, digest_sample]
  rfl

theorem sampleTools_faithful : Faithful sampleTools largestImage := by
  have htext : ownText ≠ givenText := by decide
  constructor
  · rw [Tar.Keeps, Tools.normalizedEntries, ownFiles_eq]
    simp [sampleTools]
  · rw [JsonCodec.Keeps, ownManifest_eq]
    simp [sampleTools, htext]

theorem length_largestLayer : largestLayer.length + (givenText.length + 1) = maxArchiveBytes := by
  have hlength : givenText.length + 1 ≤ maxArchiveBytes := by decide
  rw [largestLayer, List.length_replicate]
  omega

def givenMembers : Files :=
  [(names (Utf8.encode "layer.tar"), largestLayer), (manifestNames, givenText),
    (names (Utf8.encode "config.json"), [7])]

theorem member_safe {path : String} (h : path ∈ ["layer.tar", "manifest.json", "config.json"]) :
    SafePath (Utf8.encode path) := by
  have hall : ∀ path ∈ ["layer.tar", "manifest.json", "config.json"],
      Utf8.encode path ≠ [] ∧
        ∀ component ∈ components (Utf8.encode path), component.name?.isSome := by decide
  exact hall path h

theorem member_size (path : String) (contents : Bytes) :
    (member path contents).size = contents.length := rfl

/-- The files reach the limit and do not pass it. -/
theorem givenEntries_hold : Holds (givenEntries.map .ok) givenMembers maxArchiveBytes := by
  have hconfig := @Holds.member (member "config.json" [7]) _ _ _ _ _ rfl rfl
    (member_safe (by simp)) rfl .nil
  have hmanifest := @Holds.member (member "manifest.json" givenText) _ _ _ _ _ rfl rfl
    (member_safe (by simp)) rfl hconfig
  have hlayer := @Holds.member (member "layer.tar" largestLayer) _ _ _ _ _ rfl rfl
    (member_safe (by simp)) rfl hmanifest
  have hnames : names (Utf8.encode "manifest.json") = manifestNames := by decide
  rw [hnames, member_size, member_size, member_size, Nat.add_zero, List.length_singleton,
    length_largestLayer] at hlayer
  exact hlayer

theorem givenMembers_describe : Describes sampleTools givenMembers largestImage := by
  have hread : sampleTools.codec.read sampleTools.refusal (Json.vector DockerManifest.ofJson) givenText
      = .ok [givenManifest] := by
    simp [JsonCodec.read, sampleTools, Json.vector, ofJson_toJson]
  refine ⟨givenText, givenManifest, by simp [givenMembers], hread, ?_, ?_, rfl⟩
  · exact ⟨member_safe (by simp [givenManifest]), by simp [givenMembers, givenManifest, largestImage]⟩
  · refine .cons ⟨member_safe (by simp), ?_⟩ .nil
    simp [givenMembers]

theorem given_archives : ∀ archive ∈ [[0], [2]], DockerArchive sampleTools archive largestImage := by
  have hnodup : (givenMembers.map Prod.fst).Nodup := by
    have hnames : givenMembers.map Prod.fst = [names (Utf8.encode "layer.tar"), manifestNames,
      names (Utf8.encode "config.json")] := rfl
    rw [hnames]
    decide
  intro archive harchive
  rcases List.mem_cons.mp harchive with rfl | harchive
  · exact ⟨_, givenMembers, maxArchiveBytes, rfl, givenEntries_hold, hnodup, le_refl _,
      givenMembers_describe⟩
  · obtain rfl := List.mem_singleton.mp harchive
    exact ⟨_, givenMembers, maxArchiveBytes, rfl, .directory rfl givenEntries_hold, hnodup, le_refl _,
      givenMembers_describe⟩

/-- With a stray directory or without, the archive comes to the same. -/
theorem normalize_canonical_sample : ∃ result,
    normalize sampleTools [0] "app:local" = .ok result ∧
      normalize sampleTools [2] "app:local" = .ok result ∧
      result.imageId = "sha256:" ++ sampleTools.digest [7] :=
  (normalize_canonical sampleTools).1 [0] [2] largestImage largestImage "app:local"
    (given_archives _ (by simp)) (given_archives _ (by simp)) ⟨rfl, rfl, fun _ => Iff.rfl⟩
    (by simp [largestImage])

theorem holds_total {entries : List (Except String Entry)} {members others : Files} {total more : Nat}
    (h : Holds entries members total) (h' : Holds entries others more) : total = more := by
  induction h generalizing others more with
  | nil =>
    cases h'
    rfl
  | directory htype hrest ih =>
    cases h' with
    | directory _ hrest' => exact ih hrest'
    | member htype' =>
      rw [htype] at htype'
      cases htype'
  | member htype hpath hsafe hcontents hrest ih =>
    cases h' with
    | directory htype' =>
      rw [htype] at htype'
      cases htype'
    | member _ _ _ _ hrest' => rw [ih hrest']

theorem sum_listing (files : Files) : ((Table.listing files).map fun file => file.2.length).sum =
    (files.map fun file => file.2.length).sum :=
  ((List.perm_insertionSort (fun left right : List Bytes × Bytes => left.1 ≤ right.1)
    files).map fun file => file.2.length).sum_nat

/-- Stated for any layer, since the largest one is not to be evaluated. -/
theorem sum_ownFiles (layer : Bytes) :
    (([(manifestNames, ownText), (blobOf 0, layer), (blobOf 7, [7])] : Files).map
      fun file => file.2.length).sum = ownText.length + (layer.length + 1) := by
  simp

/-- The manifest with the longer paths makes the image's own archive larger than the limit. -/
theorem own_over_limit : maxArchiveBytes < sampleTools.normalizedSize largestImage := by
  have hlonger : givenText.length < ownText.length := by decide +kernel
  have hsize : sampleTools.normalizedSize largestImage =
      ownText.length + (largestLayer.length + 1) := by
    rw [Tools.normalizedSize, sum_listing, ownFiles_eq]
    exact sum_ownFiles largestLayer
  have hlimit := length_largestLayer
  generalize largestLayer.length = layer at hsize hlimit
  omega

/-- A directory on a path that leads out of the archive is passed over, and what an archive at
the limit is normalised to is no longer taken. -/
theorem normalize_limits :
    normalize sampleTools [2] "app:local" = .ok (sampleTools.normalized largestImage) ∧
    (∃ entry path, .ok entry ∈ (strayEntries.map .ok : List (Except String Entry)) ∧ entry.path = .ok path ∧
      Component.parentDir ∈ components path) ∧
    normalize sampleTools [0] "app:local" = .ok (sampleTools.normalized largestImage) ∧
    Faithful sampleTools largestImage ∧
    ∀ result, normalize sampleTools (sampleTools.normalized largestImage).bytes "app:local"
      ≠ .ok result := by
  have htag : "app:local" ∈ largestImage.tags := by simp [largestImage]
  refine ⟨?_, ?_, ?_, sampleTools_faithful, fun result hresult => ?_⟩
  · exact normalize_ok.mpr ⟨largestImage, given_archives _ (by simp), htag, rfl⟩
  · exact ⟨_, _, List.mem_cons_self, rfl, by decide⟩
  · exact normalize_ok.mpr ⟨largestImage, given_archives _ (by simp), htag, rfl⟩
  · obtain ⟨image, ⟨entries, members, total, hentries, hholds, -, htotal, -⟩, -, -⟩ :=
      normalize_ok.mp hresult
    obtain ⟨own, found, hown, hfound, -, -⟩ := normalized_holds sampleTools_faithful
    obtain rfl := Except.ok.inj (hentries.symm.trans hown)
    have hsize := holds_total hholds hfound
    have hover := own_over_limit
    omega

end Largest
end HologramLive.Rootfs
