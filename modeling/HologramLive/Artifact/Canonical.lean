import HologramLive.Artifact.Reference
import HologramLive.Lib.Strip

namespace HologramLive.Artifact
open Lib Lib.Result Lib.Pieces Lib.Strip

/-- The segments of an input before its name. -/
def namespaceSegments (input : String) : List (List Char) :=
  (repositorySegments (splitTag (Store.trim input).toList).1).dropLast

/-- The host an input names, and the namespace it names. -/
def givenHost (input : String) : Option (List Char) :=
  match namespaceSegments input with
  | [] => none
  | first :: _ => if isHost first then some first else none

def givenNamespace (input : String) : List (List Char) :=
  match namespaceSegments input with
  | [] => []
  | first :: rest => if isHost first then rest else first :: rest

def StartsClean (text : List Char) : Prop :=
  ∀ c, text.head? = some c → Store.isWhitespace c = false

def ValidSegment (segment : List Char) : Prop :=
  segment ≠ [] ∧ segment.all segmentCharacter = true

/-- Where the printed form names what the input names: the host is recognised as one, and
a namespace that comes from the configuration is made of segments as references are. -/
structure Portable (config : RegistryConfig) (input : String) : Prop where
  host : ∀ host, givenHost input = some host → StartsClean host
  endpoint : givenHost input = none → ∀ host, defaultHost config = .ok host →
    isHost host = true ∧ '/' ∉ host ∧ StartsClean host
  space : givenNamespace input = [] →
    ∀ segment ∈ (trimSlashes config.namespace.toList).splitOn '/', ValidSegment segment

section
variable {debug : String → String} {config : RegistryConfig} {input : String}
  {reference : ArtifactRef} {host space name tag : List Char}

theorem validateSegment_ok {label : String} {segment : List Char} :
    validateSegment debug segment label = .ok () ↔ ValidSegment segment := by
  unfold validateSegment ValidSegment
  by_cases hempty : segment = []
  · simp [hempty]
  · by_cases hall : segment.all segmentCharacter = true <;> simp [hempty, hall]

theorem validateSegments_ok {label : String} {segments : List (List Char)} :
    (forM segments fun segment => validateSegment debug segment label) = .ok () ↔
      ∀ segment ∈ segments, ValidSegment segment := by
  induction segments with
  | nil => simp [List.forM_nil]
  | cons first rest ih =>
    rw [List.forM_cons, check_ok, validateSegment_ok, ih]
    simp

theorem tag_characters (h : validateTag debug tag = .ok ()) :
    tag ≠ [] ∧ ∀ c ∈ tag, tagCharacter c = true := by
  cases tag with
  | nil => cases h
  | cons first rest =>
    simp only [validateTag, guard_ok] at h
    obtain ⟨_, hfirst, hrest, _⟩ := h
    refine ⟨List.cons_ne_nil _ _, ?_⟩
    intro c hc
    rcases List.mem_cons.mp hc with rfl | hc
    · simp at hfirst
      by_cases halpha : View.isAsciiAlphanumeric c = true
      · simp [tagCharacter, halpha]
      · simp [tagCharacter, hfirst (by simpa using halpha)]
    · simp at hrest
      exact hrest c hc

theorem chooseHost_eq : chooseHost config (namespaceSegments input) =
    match givenHost input with
    | some host => .ok (host, givenNamespace input)
    | none => defaultHost config >>= fun host => .ok (host, givenNamespace input) := by
  unfold givenHost givenNamespace
  cases namespaceSegments input with
  | nil => rfl
  | cons first rest => by_cases h : isHost first = true <;> simp [chooseHost, h]

/-- What an accepted input was read as. -/
structure Read (debug : String → String) (config : RegistryConfig) (input : String)
    (host space name tag : List Char) : Prop where
  nonempty : Store.trim input ≠ ""
  tagged : (splitTag (Store.trim input).toList).2 = tag
  validTag : validateTag debug tag = .ok ()
  named : (repositorySegments (splitTag (Store.trim input).toList).1).getLast? = some name
  validName : ValidSegment name
  hosted : (givenHost input = some host) ∨
    (givenHost input = none ∧ defaultHost config = .ok host)
  spaced : (givenNamespace input = [] ∧ space = trimSlashes config.namespace.toList) ∨
    (givenNamespace input ≠ [] ∧ (∀ segment ∈ givenNamespace input, ValidSegment segment) ∧
      space = ['/'].intercalate (givenNamespace input))
  spaceNonempty : space ≠ []

theorem hosted_iff : chooseHost config (namespaceSegments input) = .ok (host, segments) ↔
    (givenHost input = some host ∨ (givenHost input = none ∧ defaultHost config = .ok host)) ∧
      segments = givenNamespace input := by
  rw [chooseHost_eq]
  cases hgiven : givenHost input with
  | some given => simp [eq_comm]
  | none => cases hdefault : defaultHost config <;> simp [eq_comm]

theorem spaced_iff {segments : List (List Char)} :
    chooseNamespace debug config segments = .ok space ↔
      (segments = [] ∧ space = trimSlashes config.namespace.toList) ∨
        (segments ≠ [] ∧ (∀ segment ∈ segments, ValidSegment segment) ∧
          space = ['/'].intercalate segments) := by
  unfold chooseNamespace
  by_cases hempty : segments = []
  · simp [hempty, eq_comm]
  · simp only [hempty, ↓reduceIte, check_ok, validateSegments_ok, false_and, false_or, ne_eq,
      not_false_eq_true, true_and, Except.ok.injEq]
    rw [eq_comm]

theorem parse_ok : ArtifactRef.parse debug config input = .ok reference ↔
    ∃ host space name tag, Read debug config input host space name tag ∧
      reference = ⟨String.ofList host, String.ofList space, String.ofList name,
        String.ofList tag⟩ := by
  unfold ArtifactRef.parse
  dsimp only
  by_cases hempty : Store.trim input = ""
  · simp only [hempty, ↓reduceIte, reduceCtorEq, false_iff]
    rintro ⟨_, _, _, _, hread, _⟩
    exact hread.nonempty hempty
  · rw [if_neg hempty, check_ok]
    constructor
    · rintro ⟨htag, h⟩
      split at h
      · cases h
      · rename_i name hname
        obtain ⟨hvalid, h⟩ := check_ok.mp h
        obtain ⟨⟨host, segments⟩, hhost, h⟩ := bind_ok.mp h
        dsimp only at h
        obtain ⟨space, hspace, h⟩ := bind_ok.mp h
        obtain ⟨hne, h⟩ := guard_ok.mp h
        have hchosen : chooseHost config (namespaceSegments input) = .ok (host, segments) := hhost
        obtain ⟨hhosted, hsegments⟩ := hosted_iff.mp hchosen
        rw [hsegments] at hspace
        exact ⟨host, space, name, _, ⟨hempty, rfl, htag, hname, validateSegment_ok.mp hvalid,
          hhosted, spaced_iff.mp hspace, hne⟩, (Except.ok.inj h).symm⟩
    · rintro ⟨host, space, name, tag, hread, rfl⟩
      have htag : validateTag debug (splitTag (Store.trim input).toList).2 = .ok () := by
        rw [hread.tagged]
        exact hread.validTag
      refine ⟨htag, ?_⟩
      have hhost := hosted_iff.mpr ⟨hread.hosted, rfl⟩
      have hspace : chooseNamespace debug config (givenNamespace input) = .ok space :=
        spaced_iff.mpr hread.spaced
      simp only [namespaceSegments] at hhost
      simp only [hread.named, validateSegment_ok.mpr hread.validName, hhost, ok_bind, hspace,
        hread.spaceNonempty, ↓reduceIte, hread.tagged]

/-- The characters of a printed reference. -/
def printed (host space name tag : List Char) : List Char :=
  host ++ '/' :: (space ++ '/' :: name) ++ ':' :: tag

theorem display_printed : (ArtifactRef.display ⟨String.ofList host, String.ofList space,
    String.ofList name, String.ofList tag⟩).toList = printed host space name tag := by
  simp [ArtifactRef.display, printed, toString]

theorem tagCharacter_plain {c : Char} (h : tagCharacter c = true) :
    c ≠ ':' ∧ c ≠ '/' ∧ Store.isWhitespace c = false := by
  refine ⟨?_, ?_, ?_⟩
  · rintro rfl
    revert h
    decide
  · rintro rfl
    revert h
    decide
  · simp [tagCharacter, View.isAsciiAlphanumeric, Store.char_le, or_assoc] at h
    rcases h with h | h | h | rfl | rfl | rfl
    · simp [Store.isWhitespace]
      omega
    · simp [Store.isWhitespace]
      omega
    · simp [Store.isWhitespace]
      omega
    · decide
    · decide
    · decide

theorem segmentCharacter_plain {c : Char} (h : segmentCharacter c = true) : c ≠ ':' ∧ c ≠ '/' := by
  refine ⟨?_, ?_⟩
  · rintro rfl
    revert h
    decide
  · rintro rfl
    revert h
    decide

theorem ValidSegment.plain {segment : List Char} (h : ValidSegment segment) :
    segment ≠ [] ∧ '/' ∉ segment := by
  refine ⟨h.1, fun hmem => ?_⟩
  have hall := List.all_eq_true.mp h.2 '/' hmem
  exact (segmentCharacter_plain hall).2 rfl

theorem splitTag_tagged {front : List Char} (h : ∀ c ∈ tag, tagCharacter c = true) :
    splitTag (front ++ ':' :: tag) = (front, tag) := by
  have hpasses : ∀ c ∈ tag.reverse, (!decide (c = ':') && !decide (c = '/')) = true := by
    intro c hc
    obtain ⟨hcolon, hslash, _⟩ := tagCharacter_plain (h c (by simpa using hc))
    simp [hcolon, hslash]
  simp [splitTag, List.span_eq_takeWhile_dropWhile, List.takeWhile_append_of_pos hpasses,
    List.dropWhile_append_of_pos hpasses]

/-- Trimming a printed reference can only shorten its host. -/
theorem trim_printed {text : String} (htext : text.toList = printed host space name tag)
    (hhost : host.dropWhile Store.isWhitespace ≠ []) (hne : tag ≠ [])
    (htag : ∀ c ∈ tag, tagCharacter c = true) :
    (Store.trim text).toList = printed (host.dropWhile Store.isWhitespace) space name tag := by
  have hsplit : printed host space name tag = host.takeWhile Store.isWhitespace ++
      printed (host.dropWhile Store.isWhitespace) space name tag := by
    simp [printed, ← List.append_assoc, List.takeWhile_append_dropWhile]
  have hpadding : ∀ c ∈ host.takeWhile Store.isWhitespace, Store.isWhitespace c = true :=
    fun c hc => List.mem_takeWhile_imp hc
  rw [Store.trim_toList, htext, hsplit, strip_left hpadding]
  apply strip_eq_self
  · intro c hc
    obtain ⟨first, rest, hcons⟩ := List.exists_cons_of_ne_nil hhost
    have hclean := List.head_dropWhile_not Store.isWhitespace hhost
    simp [printed, hcons] at hc
    simp [hcons] at hclean
    rw [← hc]
    exact hclean
  · intro c hc
    have hmem : c ∈ tag := by
      have hlast : (printed (host.dropWhile Store.isWhitespace) space name tag).getLast? =
          tag.getLast? := by
        have hfront : printed (host.dropWhile Store.isWhitespace) space name tag =
            (host.dropWhile Store.isWhitespace ++ '/' :: (space ++ '/' :: name) ++ [':']) ++ tag := by
          simp [printed]
        rw [hfront, List.getLast?_append_of_ne_nil _ hne]
      rw [hlast] at hc
      exact List.mem_of_getLast? hc
    exact (tagCharacter_plain (htag c hmem)).2.2

theorem segments_printed (hname : ValidSegment name) :
    repositorySegments (host ++ '/' :: (space ++ '/' :: name)) =
      repositorySegments host ++ repositorySegments space ++ [name] := by
  obtain ⟨hne, hslash⟩ := hname.plain
  simp [repositorySegments, pieces_append, pieces_of_not_mem hne hslash]

theorem isHost_dropWhile (h : isHost host = true) :
    host.dropWhile Store.isWhitespace ≠ [] := by
  have hsome : ∃ c ∈ host, Store.isWhitespace c = false := by
    rw [isHost, Bool.or_eq_true, Bool.or_eq_true] at h
    rcases h with (hcolon | hdot) | hlocal
    · exact ⟨':', List.contains_iff_mem.mp hcolon, by decide⟩
    · exact ⟨'.', List.contains_iff_mem.mp hdot, by decide⟩
    · refine ⟨'l', ?_, by decide⟩
      rw [of_decide_eq_true hlocal]
      decide
  obtain ⟨c, hc, hclean⟩ := hsome
  intro hempty
  have hall := List.dropWhile_eq_nil_iff.mp hempty c hc
  rw [hclean] at hall
  cases hall

theorem StartsClean.dropWhile (h : StartsClean host) : host.dropWhile Store.isWhitespace = host :=
  dropWhile_eq_self h

/-- What reading a printed reference starts from. -/
theorem namespaceSegments_printed {text : String}
    (htrim : (Store.trim text).toList = printed host space name tag)
    (htag : ∀ c ∈ tag, tagCharacter c = true) (hname : ValidSegment name)
    (hne : host ≠ []) (hslash : '/' ∉ host) :
    namespaceSegments text = host :: repositorySegments space := by
  have hsegments := @segments_printed host space _ hname
  rw [namespaceSegments, htrim, printed, splitTag_tagged htag, hsegments, List.dropLast_concat,
    repositorySegments, pieces_of_not_mem hne hslash]
  rfl

/-- Where the printed parts are what parsing asks for, any configuration reads them back. -/
theorem printed_reads {segments : List (List Char)} (hhost : isHost host = true)
    (hslash : '/' ∉ host) (hclean : StartsClean host) (hne : segments ≠ [])
    (hsegments : ∀ segment ∈ segments, ValidSegment segment) (hname : ValidSegment name)
    (htag : validateTag debug tag = .ok ()) (other : RegistryConfig) :
    ArtifactRef.parse debug other (ArtifactRef.display ⟨String.ofList host,
      String.ofList (['/'].intercalate segments), String.ofList name, String.ofList tag⟩) =
      .ok ⟨String.ofList host, String.ofList (['/'].intercalate segments), String.ofList name,
        String.ofList tag⟩ := by
  obtain ⟨htagged, hcharacters⟩ := tag_characters htag
  have hwhole := isHost_dropWhile hhost
  have htrim : (Store.trim (ArtifactRef.display ⟨String.ofList host,
      String.ofList (['/'].intercalate segments), String.ofList name, String.ofList tag⟩)).toList =
      printed (host.dropWhile Store.isWhitespace) (['/'].intercalate segments) name tag :=
    trim_printed display_printed hwhole htagged hcharacters
  rw [hclean.dropWhile] at hwhole htrim
  have hparts := namespaceSegments_printed htrim hcharacters hname hwhole hslash
  have hpieces : repositorySegments (['/'].intercalate segments) = segments :=
    pieces_join fun segment hmem => (hsegments segment hmem).plain
  rw [hpieces] at hparts
  refine parse_ok.mpr ⟨host, _, name, tag, ⟨?_, ?_, htag, ?_, hname, .inl ?_, .inr ⟨?_, ?_, ?_⟩, ?_⟩,
    rfl⟩
  · intro hempty
    rw [hempty] at htrim
    simp [printed] at htrim
  · rw [htrim, printed, splitTag_tagged hcharacters]
  · rw [htrim, printed, splitTag_tagged hcharacters, segments_printed hname, List.getLast?_concat]
  · simp [givenHost, hparts, hhost]
  · simp [givenNamespace, hparts, hhost, hne]
  · simpa [givenNamespace, hparts, hhost] using hsegments
  · simp [givenNamespace, hparts, hhost]
  · obtain ⟨first, rest, rfl⟩ := List.exists_cons_of_ne_nil hne
    intro hempty
    rw [hempty] at hpieces
    simp [repositorySegments] at hpieces

/-- A configuration that completes nothing. -/
def bare : RegistryConfig := ⟨"", ""⟩

/-- What is read back without any configuration had a host and a namespace of its own. -/
theorem reads_bare (hread : Read debug bare input host space name tag) :
    givenHost input = some host ∧ givenNamespace input ≠ [] ∧
      (∀ segment ∈ givenNamespace input, ValidSegment segment) ∧
      space = ['/'].intercalate (givenNamespace input) := by
  have hdefault : ∀ host, defaultHost bare ≠ .ok host := by
    intro host h
    revert h
    simp [defaultHost, bare, Store.trim, stripPrefix, trimEndSlashes]
  have hspaces : trimSlashes bare.namespace.toList = [] := by
    simp [bare, trimSlashes, trimEndSlashes]
  refine ⟨?_, ?_⟩
  · rcases hread.hosted with hgiven | ⟨_, hconfigured⟩
    · exact hgiven
    · exact absurd hconfigured (hdefault host)
  · rcases hread.spaced with ⟨_, hspace⟩ | hgiven
    · exact absurd (hspace.trans hspaces) hread.spaceNonempty
    · exact hgiven

theorem givenHost_some (h : givenHost input = some host) :
    isHost host = true ∧ host ≠ [] ∧ '/' ∉ host := by
  unfold givenHost at h
  cases hsegments : namespaceSegments input with
  | nil => simp [hsegments] at h
  | cons first rest =>
    have hmem : first ∈ namespaceSegments input := by simp [hsegments]
    have hpiece := mem_pieces (List.mem_of_mem_dropLast hmem)
    rw [hsegments] at h
    dsimp only at h
    split at h
    · rename_i hfirst
      obtain rfl := Option.some.inj h
      exact ⟨hfirst, hpiece⟩
    · cases h

/-- A printed reference that gives its whole host back begins with it. -/
theorem startsClean_of_printed {text : String} (htext : text.toList = printed host space name tag)
    (htag : validateTag debug tag = .ok ()) (hname : ValidSegment name)
    (hgiven : givenHost text = some host) : StartsClean host := by
  obtain ⟨hhost, _, hslash⟩ := givenHost_some hgiven
  obtain ⟨htagged, hcharacters⟩ := tag_characters htag
  have hwhole := isHost_dropWhile hhost
  have htrim := trim_printed htext hwhole htagged hcharacters
  have hrest : '/' ∉ host.dropWhile Store.isWhitespace :=
    fun hmem => hslash ((List.dropWhile_suffix _).subset hmem)
  have hparts := namespaceSegments_printed htrim hcharacters hname hwhole hrest
  have hsame : host.dropWhile Store.isWhitespace = host := by
    unfold givenHost at hgiven
    rw [hparts] at hgiven
    dsimp only at hgiven
    split at hgiven
    · exact Option.some.inj hgiven
    · cases hgiven
  intro c hc
  have hclean := List.head_dropWhile_not Store.isWhitespace hwhole
  obtain ⟨first, rest, hcons⟩ := List.exists_cons_of_ne_nil hwhole
  simp [hcons] at hclean
  rw [← hsame, hcons, List.head?_cons, Option.some.injEq] at hc
  rw [← hc]
  exact hclean

theorem Read.portable (hread : Read debug config input host space name tag)
    (hback : ∀ other, ArtifactRef.parse debug other (ArtifactRef.display ⟨String.ofList host,
      String.ofList space, String.ofList name, String.ofList tag⟩) =
      .ok ⟨String.ofList host, String.ofList space, String.ofList name, String.ofList tag⟩) :
    Portable config input := by
  obtain ⟨host', space', name', tag', hagain, hsame⟩ := parse_ok.mp (hback bare)
  simp only [ArtifactRef.mk.injEq, String.ofList_inj] at hsame
  obtain ⟨rfl, rfl, rfl, rfl⟩ := hsame
  obtain ⟨hgiven, hne, hvalid, hspace⟩ := reads_bare hagain
  obtain ⟨hhost, _, hslash⟩ := givenHost_some hgiven
  have hclean := startsClean_of_printed display_printed hread.validTag hread.validName hgiven
  refine ⟨?_, ?_, ?_⟩
  · intro own hown
    rcases hread.hosted with hnamed | ⟨hnone, _⟩
    · obtain rfl := Option.some.inj (hown.symm.trans hnamed)
      exact hclean
    · rw [hnone] at hown
      cases hown
  · intro hnone own hown
    rcases hread.hosted with hnamed | ⟨_, hconfigured⟩
    · rw [hnone] at hnamed
      cases hnamed
    · obtain rfl := Except.ok.inj (hown.symm.trans hconfigured)
      exact ⟨hhost, hslash, hclean⟩
  · intro hempty
    rcases hread.spaced with ⟨_, hconfigured⟩ | ⟨hnamed, _⟩
    · rw [← hconfigured, hspace, splitOn_join hne fun part hmem => (hvalid part hmem).plain.2]
      exact hvalid
    · exact absurd hempty hnamed

theorem Read.reads_back (hread : Read debug config input host space name tag)
    (h : Portable config input) (other : RegistryConfig) :
    ArtifactRef.parse debug other (ArtifactRef.display ⟨String.ofList host, String.ofList space,
      String.ofList name, String.ofList tag⟩) =
      .ok ⟨String.ofList host, String.ofList space, String.ofList name, String.ofList tag⟩ := by
  have hhost : isHost host = true ∧ '/' ∉ host ∧ StartsClean host := by
    rcases hread.hosted with hgiven | ⟨hnone, hconfigured⟩
    · obtain ⟨hknown, _, hslash⟩ := givenHost_some hgiven
      exact ⟨hknown, hslash, h.host _ hgiven⟩
    · exact h.endpoint hnone _ hconfigured
  obtain ⟨hknown, hslash, hclean⟩ := hhost
  rcases hread.spaced with ⟨hempty, hconfigured⟩ | ⟨hne, hvalid, hnamed⟩
  · have hjoin : ['/'].intercalate (space.splitOn '/') = space := List.intercalate_splitOn '/'
    have hsegments : ∀ segment ∈ space.splitOn '/', ValidSegment segment := by
      rw [hconfigured]
      exact h.space hempty
    have hback := printed_reads hknown hslash hclean (List.splitOn_ne_nil '/' space) hsegments
      hread.validName hread.validTag other
    rwa [hjoin] at hback
  · have hback := printed_reads hknown hslash hclean hne hvalid hread.validName hread.validTag other
    rwa [← hnamed] at hback

/-- Padding is not part of a reference. -/
theorem parse_padded (config : RegistryConfig) (left input right : String)
    (hleft : ∀ c ∈ left.toList, Store.isWhitespace c = true)
    (hright : ∀ c ∈ right.toList, Store.isWhitespace c = true) :
    ArtifactRef.parse debug config (left ++ input ++ right) =
      ArtifactRef.parse debug config input := by
  have htrim : Store.trim (left ++ input ++ right) = Store.trim input := by
    rw [← String.toList_inj, Store.trim_toList, Store.trim_toList, String.toList_append, String.toList_append,
      strip_padded hleft hright]
  simp only [ArtifactRef.parse, htrim]

/-- The printed form of a reference is read back, by every configuration, exactly where the
input is portable; and padding changes nothing. -/
theorem display_reads_back (h : ArtifactRef.parse debug config input = .ok reference) :
    ((∀ other, ArtifactRef.parse debug other reference.display = .ok reference) ↔
      Portable config input) ∧
    ∀ (other : RegistryConfig) (left text right : String),
      (∀ c ∈ left.toList, Store.isWhitespace c = true) →
      (∀ c ∈ right.toList, Store.isWhitespace c = true) →
      ArtifactRef.parse debug other (left ++ text ++ right) =
        ArtifactRef.parse debug other text := by
  obtain ⟨host, space, name, tag, hread, rfl⟩ := parse_ok.mp h
  refine ⟨⟨hread.portable, hread.reads_back⟩, ?_⟩
  intro other left text right hleft hright
  exact parse_padded other left text right hleft hright

end

def sampleConfig : RegistryConfig := ⟨"http://registry.example:5000/", "models"⟩

def shownReference : ArtifactRef := ⟨"registry.example:5000", "models", "qwen3.5", "4b"⟩

theorem display_reads_back_sample :
    ((∀ other, ArtifactRef.parse id other shownReference.display = .ok shownReference) ↔
      Portable sampleConfig "qwen3.5:4b") ∧
    ∀ (other : RegistryConfig) (left text right : String),
      (∀ c ∈ left.toList, Store.isWhitespace c = true) →
      (∀ c ∈ right.toList, Store.isWhitespace c = true) →
      ArtifactRef.parse id other (left ++ text ++ right) = ArtifactRef.parse id other text :=
  display_reads_back (toOption_eq_some.mp (by decide :
    (ArtifactRef.parse id sampleConfig "qwen3.5:4b").toOption = some shownReference))

/-- A registry known by a plain host name. Under its own configuration the printed form of
a reference names another repository of it. -/
theorem display_shifts :
    let config : RegistryConfig := ⟨"http://registry", "models"⟩
    ((ArtifactRef.parse id config "app").toOption = some ⟨"registry", "models", "app", "latest"⟩ ∧
      (ArtifactRef.parse id config
        (ArtifactRef.display ⟨"registry", "models", "app", "latest"⟩)).toOption =
        some ⟨"registry", "registry/models", "app", "latest"⟩) := by
  decide

end HologramLive.Artifact
