import HologramLive.ModelHub.ZipRoundTrip
import HologramLive.ModelHub.ZipSw

namespace HologramLive.ModelHub.ZipSw
open Lib ZipWriter

section
variable {sha256 : Bytes → Vector UInt8 32} {met : Circumstances} {tail : Tail → Bytes}
  {zip after : ZipWriter} {entry : Entry} {entries files : List Entry} {i : Nat}

/-- What an entry is added with, where it was added. -/
structure Held (sha256 : Bytes → Vector UInt8 32) (tail : Tail → Bytes) (entry : Entry)
    (input : ZipInput) : Prop where
  exact : input.Exact
  name : input.name = entry.name
  size : input.size = entry.size
  tail : ∀ kind, entry.tail = some kind → input.content = tail kind
  address : entry.tail = none → "sha256:" ++ Store.hex (sha256 input.content).toList = entry.address

/-- The archive after one more member. -/
def extended (zip : ZipWriter) (input : ZipInput) : ZipWriter :=
  { zip.put (memberBytes input) with entries := zip.entries ++ [entryOf zip.offset input] }

theorem bytesStream_content (bytes : Bytes) :
    ((bytesStream bytes).filterMap Except.toOption).flatten = bytes := by
  unfold bytesStream
  split
  · simp [Except.toOption]
  · rename_i hempty
    simp [List.eq_nil_of_length_eq_zero (not_not.mp hempty)]

theorem foldl_append (chunks : List Bytes) (seen : Bytes) :
    chunks.foldl (· ++ ·) seen = seen ++ chunks.flatten := by
  induction chunks generalizing seen with
  | nil => simp
  | cons chunk chunks ih => rw [List.foldl_cons, ih, List.flatten_cons, List.append_assoc]

/-- An entry that is added is one the archive can be trusted for. -/
theorem addEntry_held (h : addEntry sha256 met tail zip entry i = .ok after) :
    ∃ input, Held sha256 tail entry input ∧ after = extended zip input := by
  unfold addEntry at h
  cases htail : entry.tail with
  | some kind =>
    rw [htail] at h
    obtain ⟨⟨zip', seen⟩, hadd, h⟩ := Result.bind_ok.mp h
    dsimp only at h
    obtain rfl := Except.ok.inj h
    have hexact := add_exact hadd
    rw [add_ok hexact] at hadd
    obtain ⟨rfl, -⟩ := Prod.mk.inj (Except.ok.inj hadd)
    refine ⟨_, ⟨hexact, rfl, rfl, ?_, ?_⟩, rfl⟩
    · intro found hfound
      rw [htail] at hfound
      obtain rfl := Option.some.inj hfound
      exact bytesStream_content _
    · intro hnone
      rw [htail] at hnone
      cases hnone
  | none =>
    rw [htail] at h
    dsimp only at h
    obtain ⟨stream, hstream, h⟩ := Result.bind_ok.mp h
    obtain ⟨⟨zip', hashed⟩, hadd, h⟩ := Result.bind_ok.mp h
    dsimp only at h
    obtain ⟨hcheck, h⟩ := Result.check_ok.mp h
    obtain rfl := Except.ok.inj h
    have hexact := add_exact hadd
    rw [add_ok hexact, foldl_append, List.nil_append] at hadd
    obtain ⟨rfl, rfl⟩ := Prod.mk.inj (Except.ok.inj hadd)
    refine ⟨_, ⟨hexact, rfl, rfl, ?_, ?_⟩, rfl⟩
    · intro found hfound
      rw [htail] at hfound
      cases hfound
    · intro _
      obtain ⟨haddress, -⟩ := Result.guard_ok.mp hcheck
      exact not_not.mp haddress

/-- All entries, each in its turn. -/
theorem addEntries_held (h : addEntries sha256 met tail zip i entries = .ok after) :
    ∃ inputs, List.Forall₂ (Held sha256 tail) entries inputs ∧ addAll zip inputs = .ok after := by
  induction entries generalizing zip i with
  | nil => exact ⟨[], .nil, h⟩
  | cons entry entries ih =>
    rw [addEntries] at h
    obtain ⟨zip', hadd, h⟩ := Result.bind_ok.mp h
    obtain ⟨input, hheld, rfl⟩ := addEntry_held hadd
    obtain ⟨inputs, hinputs, hall⟩ := ih h
    refine ⟨input :: inputs, .cons hheld hinputs, ?_⟩
    rw [addAll, add_ok hheld.exact, Result.ok_bind]
    exact hall

/-- The bytes of an archive that holds these names with these contents, in this order. -/
def Carries (bytes : Bytes) (held : List (String × Bytes)) : Prop :=
  ∃ inputs : List ZipInput, (∀ input ∈ inputs, input.Exact) ∧ bytes = archiveBytes inputs ∧
    inputs.map (fun input => (input.name, input.content)) = held

/-- Such an archive reads back as what it holds, as far as the format has fields for it. -/
theorem Carries.read {bytes : Bytes} {held : List (String × Bytes)} (h : Carries bytes held)
    (hnames : ∀ item ∈ held, (Utf8.encode item.1).length ≤ 0xffff) (hsize : bytes.length < 2 ^ 53) :
    ZipFormat.readArchive bytes = some (held.map fun item => (Utf8.encode item.1, item.2)) := by
  obtain ⟨inputs, hexact, rfl, rfl⟩ := h
  rw [archive_contents hexact _ (by omega), List.map_map]
  · rfl
  · intro input hinput
    exact hnames _ (List.mem_map_of_mem hinput)

theorem readBody_error {kind : String} {received : Nat} {chunks : List Bytes}
    (h : (readBody entry kind received chunks).2 = none) :
    ∃ message, .error message ∈ (readBody entry kind received chunks).1 := by
  induction chunks generalizing received with
  | nil => simp [readBody] at h
  | cons chunk chunks ih =>
    rw [readBody] at h ⊢
    dsimp only at h ⊢
    split at h
    · rename_i hmore
      rw [if_pos hmore]
      exact ⟨_, List.mem_singleton.mpr rfl⟩
    · rename_i hmore
      obtain ⟨message, hmem⟩ := ih h
      rw [if_neg hmore]
      exact ⟨message, List.mem_cons_of_mem _ hmem⟩

/-- A file that was delivered whole came from one of its sources. -/
theorem resilient_origin {received place tries origin : Nat} {answers : List Answer}
    (h : ∀ message, .error message ∉ (resilient entry received place tries origin answers).1) :
    (resilient entry received place tries origin answers).2 < entry.urls.length := by
  induction answers generalizing received place tries origin with
  | nil =>
    rw [resilient] at h
    split at h
    · exact absurd (List.mem_singleton.mpr rfl) (h _)
    · exact absurd (List.mem_singleton.mpr rfl) (h _)
  | cons answer rest ih =>
    rw [resilient] at h ⊢
    dsimp only at h ⊢
    cases hurl : entry.urls[(nextTry place tries).1]? with
    | none =>
      rw [hurl] at h
      exact absurd (List.mem_singleton.mpr rfl) (h _)
    | some url =>
      rw [hurl] at h
      have hplace : (nextTry place tries).1 < entry.urls.length :=
        (List.getElem?_eq_some_iff.mp hurl).1
      cases answer with
      | missing => exact ih h
      | refused => exact ih h
      | body ranged chunks cut =>
        dsimp only at h ⊢
        generalize hchunks : (if received ≠ 0 ∧ ranged = false then skipping received chunks
          else chunks) = taken at h ⊢
        have herror := @readBody_error entry url.kind received taken
        cases hread : readBody entry url.kind received taken with
        | mk items stopped =>
          rw [hread] at h herror
          cases stopped with
          | none => exact hplace
          | some now =>
            dsimp only at h ⊢
            split at h
            · rename_i hdone
              rw [if_pos hdone]
              exact hplace
            · rename_i hdone
              rw [if_neg hdone]
              exact ih fun message hmem => h message (List.mem_append_right _ hmem)

theorem opened_whole {delivered stream : List (Except String Bytes)}
    (h : opened entry delivered = .ok stream) (hends : ∀ item ∈ stream, ∃ chunk, item = .ok chunk) :
    ∀ message, .error message ∉ delivered := by
  intro message hmem
  unfold opened at h
  split at h
  · obtain ⟨chunks, hchunks, -⟩ := Result.bind_ok.mp h
    obtain ⟨chunk, -, hchunk⟩ := Result.exists_of_mem_list (Result.mapM_ok hchunks) hmem
    cases hchunk
  · obtain rfl := Except.ok.inj h
    obtain ⟨chunk, hchunk⟩ := hends _ hmem
    cases hchunk

theorem addEntry_origin (h : addEntry sha256 met tail zip entry i = .ok after)
    (htail : entry.tail = none) :
    (resilient entry 0 0 0 0 (met.answers i)).2 < entry.urls.length := by
  unfold addEntry at h
  rw [htail] at h
  dsimp only at h
  obtain ⟨stream, hstream, h⟩ := Result.bind_ok.mp h
  obtain ⟨result, hadd, -⟩ := Result.bind_ok.mp h
  exact resilient_origin (opened_whole hstream (add_exact hadd).ends)

theorem addEntries_origin (h : addEntries sha256 met tail zip i entries = .ok after) :
    ∀ found ∈ entries.zipIdx i, found.1.tail = none →
      (resilient found.1 0 0 0 0 (met.answers found.2)).2 < found.1.urls.length := by
  induction entries generalizing zip i with
  | nil => simp
  | cons entry entries ih =>
    rw [addEntries] at h
    obtain ⟨zip', hadd, h⟩ := Result.bind_ok.mp h
    rw [List.zipIdx_cons]
    exact List.forall_mem_cons.mpr ⟨fun htail => addEntry_origin hadd htail, ih h⟩

/-- A download that closes has carried its entries, as many bytes as were promised. -/
theorem download_closed {bytes : Bytes} (h : (download sha256 met entries tail).stream = .ok bytes) :
    ∃ inputs, List.Forall₂ (Held sha256 tail) entries inputs ∧ bytes = archiveBytes inputs ∧
      bytes.length = (download sha256 met entries tail).contentLength := by
  obtain ⟨zip, hadd, h⟩ := Result.bind_ok.mp h
  obtain ⟨-, h⟩ := Result.guard_ok.mp h
  obtain rfl := Except.ok.inj h
  obtain ⟨inputs, hheld, hall⟩ := addEntries_held hadd
  have hexact : ∀ input ∈ inputs, input.Exact := by
    intro input hinput
    obtain ⟨entry, -, hentry⟩ := Result.exists_of_mem_results hheld hinput
    exact hentry.exact
  obtain ⟨zip', hall', hwritten⟩ := archive_written hexact
  rw [hall] at hall'
  obtain rfl := Except.ok.inj hall'
  have hsizes : entries.map (fun entry => (entry.name, entry.size)) =
      inputs.map fun input => (input.name, input.size) :=
    Result.map_eq_of_pointwise hheld fun entry input hentry => by rw [hentry.name, hentry.size]
  refine ⟨inputs, hheld, hwritten, ?_⟩
  rw [hwritten, archive_length hexact]
  show _ = ZipWriter.sizeOf (entries.map fun entry => (entry.name, entry.size))
  rw [hsizes]

/-- Lines that `sha256sum -c` takes for files with these names and contents. -/
def sumsOf (sha256 : Bytes → Vector UInt8 32) (held : List (String × Bytes)) : Bytes :=
  Utf8.encode (String.join (held.map fun item =>
    Store.hex (sha256 item.2).toList ++ "  " ++ item.1 ++ "\n"))

theorem splitOn_address (digest : Vector UInt8 32) :
    (("sha256:" ++ Store.hex digest.toList).toList.splitOn ':').getD 1 "undefined".toList =
      (Store.hex digest.toList).toList := by
  have hdigits := Store.hex_all (p := fun c => c ≠ ':') (by decide) digest.toList
  have hcolon : ':' ∉ (Store.hex digest.toList).toList := by
    intro hmem
    simpa using List.all_eq_true.mp hdigits _ hmem
  have hmarker : ("sha256:" ++ Store.hex digest.toList).toList =
      "sha256".toList ++ ':' :: (Store.hex digest.toList).toList := by simp
  rw [hmarker, List.splitOn_append_cons_self,
    List.splitOn_eq_singleton (by decide : ':' ∉ "sha256".toList), List.splitOn_eq_singleton hcolon]
  rfl

theorem sums_eq {contents : List Bytes} (h : List.Forall₂ (fun (entry : Entry) content =>
      "sha256:" ++ Store.hex (sha256 content).toList = entry.address) files contents) :
    sums files = sumsOf sha256 ((files.map Entry.name).zip contents) := by
  have hlines : (files.map fun e =>
      String.ofList ((e.address.toList.splitOn ':').getD 1 "undefined".toList) ++ "  " ++ e.name ++
        "\n") = ((files.map Entry.name).zip contents).map fun item =>
      Store.hex (sha256 item.2).toList ++ "  " ++ item.1 ++ "\n" := by
    induction h with
    | nil => rfl
    | cons haddress _ ih =>
      rw [List.map_cons, List.map_cons, List.zip_cons_cons, List.map_cons, ← haddress,
        splitOn_address, String.ofList_toList, ih]
  rw [sums, hlines, sumsOf]

end

section
variable (sha256 : Bytes → Vector UInt8 32) (modelName : String) (doc : IndexDocument)
  (source created : String) (response : Response)

/-- The listed files that some chosen source has. -/
def listed : List IndexFile :=
  doc.files.filter fun file => (urlsOf (chosenSources doc source) file).length ≠ 0

/-- Every listed file with the content its address names, and two files that agree with them. -/
def Agrees (held : List (String × Bytes)) : Prop :=
  ∃ contents origins,
    List.Forall₂ (fun (file : IndexFile) content =>
      "sha256:" ++ Store.hex (sha256 content).toList = file.address ∧
        content.length = file.size.getD 0) (listed doc source) contents ∧
    List.Forall₂ (fun file origin => origin < (urlsOf (chosenSources doc source) file).length)
      (listed doc source) origins ∧
    held = ((listed doc source).map IndexFile.path).zip contents ++
      [("SHA256SUMS", sumsOf sha256 (((listed doc source).map IndexFile.path).zip contents)),
        ("HOLOGRAM.json", record modelName doc created (chosenSources doc source)
          (fileEntries (chosenSources doc source) doc.files) origins)]

/-- What a stream that closes has carried. -/
structure Delivered (bytes : Bytes) (held : List (String × Bytes)) : Prop where
  length : bytes.length = response.contentLength
  carries : Carries bytes held
  reads : (∀ item ∈ held, (Utf8.encode item.1).length ≤ 0xffff) → bytes.length < 2 ^ 53 →
    ZipFormat.readArchive bytes = some (held.map fun item => (Utf8.encode item.1, item.2))
  agrees : Agrees sha256 modelName doc source created held

/-- A stream that closes has carried a verified archive under distinct names. -/
def Verified : Prop :=
  ∀ bytes, response.stream = .ok bytes → ∃ held,
    Delivered sha256 modelName doc source created response bytes held ∧ (held.map Prod.fst).Nodup

/-- No path is listed twice, and none is one of the two names that are added. -/
def Distinct : Prop :=
  ((listed doc source).map IndexFile.path).Nodup ∧
    "SHA256SUMS" ∉ (listed doc source).map IndexFile.path ∧
    "HOLOGRAM.json" ∉ (listed doc source).map IndexFile.path

end

section
variable {sha256 : Bytes → Vector UInt8 32} {doc : IndexDocument} {source : String}

theorem fileEntries_eq (sources : List Source) (files : List IndexFile) :
    fileEntries sources files =
      (files.filter fun file => (urlsOf sources file).length ≠ 0).map fun file =>
        ⟨file.path, file.size.getD 0, file.address, urlsOf sources file, none⟩ := by
  induction files with
  | nil => rfl
  | cons file files ih =>
    rw [fileEntries] at ih ⊢
    rw [List.filterMap_cons, List.filter_cons, ih]
    by_cases hurls : (urlsOf sources file).length ≠ 0
    · rw [if_pos (decide_eq_true hurls), List.map_cons]
      dsimp only
      rw [if_pos hurls]
    · rw [if_neg (mt of_decide_eq_true hurls)]
      dsimp only
      rw [if_neg hurls]

theorem fileEntries_tail {sources : List Source} {files : List IndexFile} {entry : Entry}
    (h : entry ∈ fileEntries sources files) : entry.tail = none := by
  rw [fileEntries_eq] at h
  obtain ⟨file, -, rfl⟩ := List.mem_map.mp h
  rfl

theorem Agrees.names {modelName created : String} {held : List (String × Bytes)}
    (h : Agrees sha256 modelName doc source created held) :
    held.map Prod.fst =
      (listed doc source).map IndexFile.path ++ ["SHA256SUMS", "HOLOGRAM.json"] := by
  obtain ⟨contents, origins, hcontents, -, rfl⟩ := h
  have hlength := hcontents.length_eq
  rw [List.map_append, List.map_fst_zip (by simp [hlength])]
  rfl

theorem names_nodup : ((listed doc source).map IndexFile.path ++
    ["SHA256SUMS", "HOLOGRAM.json"]).Nodup ↔ Distinct doc source := by
  rw [Distinct, List.nodup_append]
  constructor
  · rintro ⟨hpaths, -, hdisjoint⟩
    exact ⟨hpaths, fun hmem => hdisjoint _ hmem _ (by simp) rfl,
      fun hmem => hdisjoint _ hmem _ (by simp) rfl⟩
  · rintro ⟨hpaths, hsums, hrecord⟩
    refine ⟨hpaths, by decide, ?_⟩
    intro path hpath name hname heq
    subst heq
    simp only [List.mem_cons, List.not_mem_nil, or_false] at hname
    obtain rfl | rfl := hname
    · exact hsums hpath
    · exact hrecord hpath

/-- A stream that closes has carried every listed file, verified. -/
theorem model_delivered {org name : String} {met : Circumstances} {response : Response}
    {bytes : Bytes} (h : model sha256 org name source doc met = .ok response)
    (hclosed : response.stream = .ok bytes) :
    ∃ held, Delivered sha256 (org ++ "/" ++ name) doc source met.created response bytes held := by
  obtain ⟨-, h⟩ := Result.guard_ok.mp h
  obtain rfl := Except.ok.inj h
  obtain ⟨inputs, hheld, hbytes, hlength⟩ := download_closed hclosed
  obtain ⟨zip, hadd, -⟩ := Result.bind_ok.mp hclosed
  have horigins := addEntries_origin hadd
  obtain ⟨front, back, rfl, hfront, hback⟩ := Result.exists_append hheld
  obtain ⟨sumsInput, last, hsums, hlast, rfl⟩ := List.forall₂_cons_left_iff.mp hback
  obtain ⟨recordInput, rest, hrecord, hrest, rfl⟩ := List.forall₂_cons_left_iff.mp hlast
  obtain rfl := List.forall₂_nil_left_iff.mp hrest
  have hfiles := hfront
  rw [fileEntries_eq, List.forall₂_map_left_iff] at hfiles
  have hcontents : List.Forall₂ (fun (file : IndexFile) content =>
      "sha256:" ++ Store.hex (sha256 content).toList = file.address ∧
        content.length = file.size.getD 0) (listed doc source) (front.map ZipInput.content) := by
    rw [List.forall₂_map_right_iff]
    refine hfiles.imp fun file input hinput => ⟨hinput.address rfl, ?_⟩
    rw [hinput.exact.size, hinput.size]
  have hnames : front.map ZipInput.name = (listed doc source).map IndexFile.path :=
    (Result.map_eq_of_pointwise hfiles fun file input hinput => hinput.name.symm).symm
  have hexact : ∀ input ∈ front ++ [sumsInput, recordInput], input.Exact := by
    intro input hinput
    obtain ⟨entry, -, hentry⟩ := Result.exists_of_mem_results hheld hinput
    exact hentry.exact
  have haddresses : List.Forall₂ (fun (entry : Entry) content =>
      "sha256:" ++ Store.hex (sha256 content).toList = entry.address)
      (fileEntries (chosenSources doc source) doc.files) (front.map ZipInput.content) := by
    rw [fileEntries_eq, List.forall₂_map_left_iff]
    exact hcontents.imp fun file content hcontent => hcontent.1
  have hbytesSums : sumsInput.content =
      sumsOf sha256 (((listed doc source).map IndexFile.path).zip (front.map ZipInput.content)) := by
    rw [hsums.tail .sums rfl, tailBytes, sums_eq haddresses, fileEntries_eq, List.map_map]
    rfl
  have hfound : List.Forall₂ (fun (entry : Entry) origin => origin < entry.urls.length)
      (fileEntries (chosenSources doc source) doc.files)
      (originsOf met (fileEntries (chosenSources doc source) doc.files)) := by
    refine Result.pointwise_zipIdx fun found hfound => ?_
    have hall := horigins found (by
      rw [entriesOf, List.zipIdx_append]
      exact List.mem_append_left _ hfound)
    exact hall (fileEntries_tail (List.fst_mem_of_mem_zipIdx hfound))
  have hbytesRecord : recordInput.content = record (org ++ "/" ++ name) doc met.created
      (chosenSources doc source) (fileEntries (chosenSources doc source) doc.files)
      (originsOf met (fileEntries (chosenSources doc source) doc.files)) :=
    hrecord.tail .record rfl
  generalize originsOf met (fileEntries (chosenSources doc source) doc.files) = origins
    at hfound hbytesRecord
  rw [fileEntries_eq _ doc.files, List.forall₂_map_left_iff] at hfound
  have hmap : (front ++ [sumsInput, recordInput]).map (fun input => (input.name, input.content)) =
      ((listed doc source).map IndexFile.path).zip (front.map ZipInput.content) ++
        [(sumsInput.name, sumsInput.content), (recordInput.name, recordInput.content)] := by
    rw [← hnames, List.zip_map', List.map_append]
    rfl
  rw [hsums.name, hrecord.name, hbytesSums, hbytesRecord] at hmap
  have hcarries : Carries bytes _ := ⟨_, hexact, hbytes, hmap⟩
  exact ⟨_, hlength, hcarries, hcarries.read, _, origins, hcontents, hfound, rfl⟩

/-- Its names are distinct exactly where the listed paths leave them so. -/
theorem model_verified {org name : String} {met : Circumstances} {response : Response}
    {bytes : Bytes} (h : model sha256 org name source doc met = .ok response)
    (hclosed : response.stream = .ok bytes) :
    (∃ held, Delivered sha256 (org ++ "/" ++ name) doc source met.created response bytes held) ∧
    (Verified sha256 (org ++ "/" ++ name) doc source met.created response ↔ Distinct doc source) := by
  have hdelivered := model_delivered h hclosed
  refine ⟨hdelivered, fun hverified => ?_, fun hdistinct found hfound => ?_⟩
  · obtain ⟨held, hheld, hnodup⟩ := hverified bytes hclosed
    rw [hheld.agrees.names] at hnodup
    exact names_nodup.mp hnodup
  · obtain ⟨held, hheld⟩ := model_delivered h hfound
    refine ⟨held, hheld, ?_⟩
    rw [hheld.agrees.names]
    exact names_nodup.mpr hdistinct

end

/-- The hash of the two bytes the samples deliver. -/
def sampleSha256 (bytes : Bytes) : Vector UInt8 32 :=
  if bytes = [104, 105] then
    #v[143, 67, 67, 70, 100, 143, 107, 150, 223, 137, 221, 169, 1, 197, 23, 107, 16, 166, 216, 57,
      97, 221, 60, 26, 200, 139, 89, 178, 220, 50, 122, 164]
  else Vector.replicate 32 0

/-- A model of one small file. -/
def sampleDocument (path : String) : IndexDocument where
  revision := "0123456789abcdef"
  manifest := none
  sources := [⟨"ipfs", false, false, [], "https://gateway.example/ipfs/root/"⟩]
  files :=
    [⟨path, some 2, "sha256:8f434346648f6b96df89dda901c5176b10a6d83961dd3c1ac88b59b2dc327aa4", none⟩]

/-- The first request is refused, the second answered in two chunks. -/
def sampleCircumstances : Circumstances where
  answers _ := [.refused, .body false [[104], [105]] false]
  time _ := 0
  date _ := 33
  created := "2026-01-01T00:00:00Z"
  cancelled := false

theorem sample_closed (path : String)
    (h : ((model sampleSha256 "o" "m" "auto" (sampleDocument path) sampleCircumstances).toOption.bind
      fun response => response.stream.toOption).isSome = true) :
    ∃ response bytes,
      model sampleSha256 "o" "m" "auto" (sampleDocument path) sampleCircumstances = .ok response ∧
        response.stream = .ok bytes := by
  obtain ⟨bytes, hbytes⟩ := Option.isSome_iff_exists.mp h
  obtain ⟨response, hresponse, hstream⟩ := Option.bind_eq_some_iff.mp hbytes
  exact ⟨response, bytes, Result.toOption_eq_some.mp hresponse, Result.toOption_eq_some.mp hstream⟩

theorem model_verified_sample : ∃ response,
    model sampleSha256 "o" "m" "auto" (sampleDocument "a.txt") sampleCircumstances = .ok response ∧
      Verified sampleSha256 "o/m" (sampleDocument "a.txt") "auto" sampleCircumstances.created
        response := by
  obtain ⟨response, bytes, hmodel, hclosed⟩ := sample_closed "a.txt" (by decide +kernel)
  have hdistinct : Distinct (sampleDocument "a.txt") "auto" := by
    unfold Distinct
    decide
  exact ⟨response, hmodel, (model_verified hmodel hclosed).2.mpr hdistinct⟩

/-- A model that lists a file of its own under an added name. -/
theorem sums_twice : ∃ response,
    model sampleSha256 "o" "m" "auto" (sampleDocument "SHA256SUMS") sampleCircumstances =
        .ok response ∧
      ¬Verified sampleSha256 "o/m" (sampleDocument "SHA256SUMS") "auto" sampleCircumstances.created
        response := by
  obtain ⟨response, bytes, hmodel, hclosed⟩ := sample_closed "SHA256SUMS" (by decide +kernel)
  refine ⟨response, hmodel, fun hverified => ?_⟩
  obtain ⟨held, hheld, hnodup⟩ := hverified bytes hclosed
  have hnames : (listed (sampleDocument "SHA256SUMS") "auto").map IndexFile.path =
      ["SHA256SUMS"] := by decide
  rw [hheld.agrees.names, hnames] at hnodup
  exact absurd hnodup (by decide)

end HologramLive.ModelHub.ZipSw
