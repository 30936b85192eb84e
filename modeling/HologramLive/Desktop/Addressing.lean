import HologramLive.Desktop.Assets
import HologramLive.Lib.Pieces
import HologramLive.View.Normal
import HologramLive.View.RoundTrip

namespace HologramLive.Desktop
open Lib Lib.Result Lib.Pieces View

def viewScheme : String := "hologram-view"

/-- What a window asks the asset store for. -/
structure AssetRequest where
  method : String
  scheme : Option String
  query : Option String
  host : Option String
  path : String

inductive StatusCode where
  | badRequest
  | forbidden
  | notFound
  | methodNotAllowed

abbrev AssetLookup := Except (StatusCode × String) (String × Bytes)

def ViewAssetState.lookup (state : ViewAssetState) (debug : String → String)
    (webviewLabel : String) (request : AssetRequest) : AssetLookup :=
  if request.method ≠ "GET" ∧ request.method ≠ "HEAD" then
    .error (.methodNotAllowed, "method not allowed")
  else if request.scheme ≠ some viewScheme ∨ request.query.isSome then
    .error (.badRequest, "invalid portable View URL")
  else
    match state.attachments.lookup webviewLabel with
    | none => .error (.forbidden, "portable View attachment is unavailable")
    | some attachment =>
      if request.host ≠ some attachment.token then
        .error (.forbidden, "portable View origin does not match its attachment")
      else
        let path :=
          if request.path = "/" then attachment.entry
          else if request.path.toList.head? = some '/' then
            String.ofList (request.path.toList.drop 1)
          else request.path
        match validateAssetPath debug path with
        | .error error => .error (.badRequest, error)
        | .ok () =>
          match attachment.assets.lookup path with
          | none => .error (.notFound, s!"portable View asset {debug path} was not found")
          | some bytes => .ok (path, bytes)

/-- The attachment a bundle becomes. -/
def attachmentOf (id : ViewAttachmentId) (bundle : ViewBundle) : PortableViewAttachment where
  id
  entry := bundle.entry
  assets := bundle.files.map fun file => ⟨file.path, file.bytes⟩

/-- How a window that shows an attachment asks for a path. -/
def requestFor (id : ViewAttachmentId) (path : String) : AssetRequest where
  method := "GET"
  scheme := some viewScheme
  query := none
  host := some id.token
  path := "/" ++ path

/-- What the stored paths of a bundle are to be: each its own portable form, no two one
location, and each accepted by a host that checks paths segment by segment and found there
under that path. -/
structure PathsUnique (bundle : ViewBundle) : Prop where
  own : ∀ file ∈ bundle.files, portablePath file.path = .ok file.path
  distinct : bundle.files.Pairwise fun left right => ∀ here there,
    portablePath left.path = .ok here → portablePath right.path = .ok there →
      folded here ≠ folded there
  hosted : ∀ (debug : String → String) (state : ViewAssetState) (call : Nat)
    (id : ViewAttachmentId), validateToken id.token = .ok () →
    ∃ stored staged state', state.stage debug call (attachmentOf id bundle) =
        .ok (stored, staged, state') ∧
      ∀ file ∈ bundle.files, state'.lookup debug (windowLabel id.token)
        (requestFor id file.path) = .ok (file.path, file.bytes)

section
variable {debug : String → String} {path logical : String} {bundle : ViewBundle}

theorem assetCharacter_plain {c : Char} (h : assetCharacter c = true) :
    c ≠ '%' ∧ c ≠ '\\' ∧ c ≠ '/' ∧
      (isAsciiAlphanumeric c || c = '.' || c = '_' || c = '-' || c = '/') = true := by
  refine ⟨?_, ?_, ?_, ?_⟩
  · rintro rfl
    revert h
    decide
  · rintro rfl
    revert h
    decide
  · rintro rfl
    revert h
    decide
  · simp [assetCharacter] at h ⊢
    tauto

theorem mem_of_splitOn {list : List Char} {c : Char} (hc : c ∈ list) (hne : c ≠ '/') :
    ∃ segment ∈ list.splitOn '/', c ∈ segment := by
  induction list with
  | nil => cases hc
  | cons first rest ih =>
    rw [List.splitOn_cons_eq_if_modifyHead]
    rcases List.mem_cons.mp hc with rfl | hrest
    · rw [if_neg (by simpa using hne)]
      cases hsplit : rest.splitOn '/' with
      | nil => exact absurd hsplit (List.splitOn_ne_nil '/' rest)
      | cons segment others => exact ⟨c :: segment, by simp⟩
    · obtain ⟨segment, hsegment, hmem⟩ := ih hrest
      split
      · exact ⟨segment, by simp [hsegment], hmem⟩
      · cases hsplit : rest.splitOn '/' with
        | nil => exact absurd hsplit (List.splitOn_ne_nil '/' rest)
        | cons head others =>
          rw [hsplit] at hsegment
          rcases List.mem_cons.mp hsegment with rfl | hother
          · exact ⟨first :: segment, by simp, by simp [hmem]⟩
          · exact ⟨segment, by simp [hother], hmem⟩

/-- A host takes every normal path the archive format takes. -/
theorem validateAssetPath_normal (hnormal : View.Normal path)
    (hportable : portablePath path = .ok logical) : validateAssetPath debug path = .ok () := by
  have hparts := hnormal.portable hportable
  have hchars : ∀ c ∈ path.toList, c ≠ '/' → assetCharacter c = true := by
    intro c hc hne
    obtain ⟨segment, hsegment, hmem⟩ := mem_of_splitOn hc hne
    exact (hparts segment hsegment).characters c hmem
  have hempty : path ≠ "" := by
    rintro rfl
    exact (hnormal [] (by simp)).1 rfl
  have hfirst : path.toList.head? ≠ some '/' := by
    intro hhead
    obtain ⟨rest, hrest⟩ := List.head?_eq_some_iff.mp hhead
    have hsegment : ([] : List Char) ∈ path.toList.splitOn '/' := by
      rw [hrest]
      exact List.mem_of_mem_head? (by
        rw [← List.nil_append ('/' :: rest), List.splitOn_append_cons_self]
        simp)
    exact (hnormal [] hsegment).1 rfl
  have hlast : path.toList.getLast? ≠ some '/' := by
    intro htail
    obtain ⟨rest, hrest⟩ := List.getLast?_eq_some_iff.mp htail
    have hsegment : ([] : List Char) ∈ path.toList.splitOn '/' := by
      rw [hrest, List.splitOn_append_cons_self]
      simp
    exact (hnormal [] hsegment).1 rfl
  have hpercent : '%' ∉ path.toList := fun hmem =>
    (assetCharacter_plain (hchars '%' hmem (by decide))).1 rfl
  have hbackslash : '\\' ∉ path.toList := fun hmem =>
    (assetCharacter_plain (hchars '\\' hmem (by decide))).2.1 rfl
  have hsegments : (path.toList.splitOn '/').any
      (fun part => part.isEmpty || part = ['.'] || part = ['.', '.']) = false := by
    rw [List.any_eq_false]
    intro segment hsegment
    have hpart := hparts segment hsegment
    simp [hpart.nonempty, hpart.noDot, hpart.noParent]
  have hall : path.toList.all (fun c =>
      isAsciiAlphanumeric c || c = '.' || c = '_' || c = '-' || c = '/') = true := by
    rw [List.all_eq_true]
    intro c hc
    by_cases hslash : c = '/'
    · simp [hslash]
    · exact (assetCharacter_plain (hchars c hc hslash)).2.2.2
  have hrejected : ¬ (path = "" ∨ path.toList.head? = some '/' ∨ path.toList.getLast? = some '/' ∨
      '%' ∈ path.toList ∨ '\\' ∈ path.toList ∨
      (path.toList.splitOn '/').any
        (fun part => part.isEmpty || part = ['.'] || part = ['.', '.']) = true) := by
    rw [hsegments]
    simp [hempty, hfirst, hlast, hpercent, hbackslash]
  rw [validateAssetPath, if_neg hrejected, if_neg (not_not.mpr hall)]

theorem collectAssets_ok {assets : List PortableViewAsset} {collected : List (String × Bytes)}
    (hvalid : ∀ asset ∈ assets, validateAssetPath debug asset.path = .ok ())
    (hnodup : (assets.map PortableViewAsset.path).Nodup)
    (hfresh : ∀ asset ∈ assets, collected.lookup asset.path = none) :
    ∃ all, collectAssets debug collected assets = .ok all ∧
      (∀ asset ∈ assets, all.lookup asset.path = some asset.bytes) ∧
      ∀ path, path ∉ assets.map PortableViewAsset.path → all.lookup path = collected.lookup path := by
  induction assets generalizing collected with
  | nil => exact ⟨collected, rfl, by simp, by simp⟩
  | cons asset rest ih =>
    obtain ⟨hunique, hrest⟩ := List.nodup_cons.mp hnodup
    have hfresh' : ∀ other ∈ rest,
        (Table.insert collected asset.path asset.bytes).lookup other.path = none := by
      intro other hother
      have hne : other.path ≠ asset.path := by
        intro heq
        exact hunique (heq ▸ List.mem_map_of_mem hother)
      rw [Table.lookup_insert, if_neg hne]
      exact hfresh other (by simp [hother])
    obtain ⟨all, hall, hfound, hkept⟩ :=
      ih (fun other hother => hvalid other (by simp [hother])) hrest hfresh'
    refine ⟨all, ?_, ?_, ?_⟩
    · simp [collectAssets, hvalid asset (by simp), hfresh asset (by simp), hall]
    · intro other hother
      rcases List.mem_cons.mp hother with rfl | hother
      · rw [hkept _ hunique, Table.lookup_insert, if_pos rfl]
      · exact hfound other hother
    · intro path hpath
      simp only [List.map_cons, List.mem_cons, not_or] at hpath
      rw [hkept path hpath.2, Table.lookup_insert, if_neg hpath.1]

theorem stage_bundle {state : ViewAssetState} {id : ViewAttachmentId} {call : Nat}
    (htoken : validateToken id.token = .ok ())
    (hvalid : ∀ file ∈ bundle.files, validateAssetPath debug file.path = .ok ())
    (hnodup : (bundle.files.map ViewFile.path).Nodup)
    (hentry : ∃ file ∈ bundle.files, file.path = bundle.entry) :
    ∃ stored staged state', state.stage debug call (attachmentOf id bundle) =
        .ok (stored, staged, state') ∧
      state'.attachments.lookup (windowLabel id.token) = some stored ∧
      stored.token = id.token ∧
      ∀ file ∈ bundle.files, stored.assets.lookup file.path = some file.bytes := by
  have hvalid' : ∀ asset ∈ (attachmentOf id bundle).assets,
      validateAssetPath debug asset.path = .ok () := by
    intro asset hasset
    obtain ⟨file, hfile, rfl⟩ := List.mem_map.mp hasset
    exact hvalid file hfile
  have hnodup' : ((attachmentOf id bundle).assets.map PortableViewAsset.path).Nodup := by
    rw [attachmentOf, List.map_map]
    exact hnodup
  obtain ⟨all, hall, hfound, _⟩ := @collectAssets_ok debug _ [] hvalid' hnodup' (by simp)
  have hfiles : ∀ file ∈ bundle.files, all.lookup file.path = some file.bytes := by
    intro file hfile
    exact hfound ⟨file.path, file.bytes⟩ (List.mem_map.mpr ⟨file, hfile, rfl⟩)
  obtain ⟨file, hfile, hpath⟩ := hentry
  have hpresent : (all.lookup (attachmentOf id bundle).entry).isNone = false := by
    have hlookup := hfiles file hfile
    rw [hpath] at hlookup
    simp [attachmentOf, hlookup]
  have htoken' : validateToken (attachmentOf id bundle).id.token = .ok () := htoken
  let stored : StoredAttachment := ⟨state.bumped, id, id.token, bundle.entry, all, call⟩
  refine ⟨stored, ⟨state.bumped, id.token, windowLabel id.token, bundle.entry,
    state.attachments.lookup (windowLabel id.token)⟩,
    ⟨state.bumped, Table.insert state.attachments (windowLabel id.token) stored⟩,
    ?_, ?_, rfl, hfiles⟩
  · rw [ViewAssetState.stage, htoken', ok_bind, hall, ok_bind, hpresent]
    rfl
  · exact (Table.lookup_insert ..).trans (if_pos rfl)

/-- The stored paths of an accepted bundle are unique locations, found under their own
names, exactly where none of them has anything to normalize away. -/
theorem paths_unique {bytes : Bytes} (h : encode bundle = .ok bytes ∨ decode bytes = .ok bundle) :
    PathsUnique bundle ↔ ∀ file ∈ bundle.files, View.Normal file.path := by
  have hwell : WellFormed bundle := by
    rcases h with hencode | hdecode
    · exact (encode_ok.mp hencode).1
    · exact (decode_ok.mp hdecode).1
  constructor
  · intro hunique file hfile
    exact (portablePath_self (hunique.own file hfile)).mp rfl
  · intro hnormal
    have hown : ∀ file ∈ bundle.files, portablePath file.path = .ok file.path := by
      intro file hfile
      obtain ⟨logical, hlogical⟩ := hwell.portable file hfile
      rw [(portablePath_self hlogical).mpr (hnormal file hfile)] at hlogical
      exact hlogical
    have hvalid : ∀ debug, ∀ file ∈ bundle.files, validateAssetPath debug file.path = .ok () :=
      fun debug file hfile => validateAssetPath_normal (hnormal file hfile) (hown file hfile)
    have hnodup : (bundle.files.map ViewFile.path).Nodup := by
      rw [List.Nodup, List.pairwise_map]
      exact hwell.ordered.imp fun hlt => hlt.ne
    refine ⟨hown, ?_, ?_⟩
    · have hfolded := List.pairwise_map.mp hwell.distinct
      rw [List.pairwise_iff_forall_sublist] at hfolded ⊢
      intro left right hsublist here there hhere hthere
      have hleft := hown left (hsublist.subset (by simp))
      have hright := hown right (hsublist.subset (by simp))
      rw [Except.ok.inj (hhere.symm.trans hleft), Except.ok.inj (hthere.symm.trans hright)]
      exact hfolded hsublist
    · intro debug state call id htoken
      obtain ⟨stored, staged, state', hstage, hlabel, htokens, hfound⟩ :=
        @stage_bundle debug bundle state id call htoken (hvalid debug) hnodup hwell.hasEntry
      refine ⟨stored, staged, state', hstage, ?_⟩
      intro file hfile
      have hpath : ¬ (requestFor id file.path).path = "/" := by
        intro hsame
        have hempty : file.path = "" := by
          rw [← String.toList_inj] at hsame ⊢
          simpa [requestFor] using hsame
        exact (hnormal file hfile [] (by simp [hempty])).1 rfl
      have hdrop : String.ofList ((requestFor id file.path).path.toList.drop 1) = file.path := by
        simp [requestFor]
      have hhead : (requestFor id file.path).path.toList.head? = some '/' := by
        simp [requestFor]
      have hhost : ¬ (requestFor id file.path).host ≠ some stored.token := by
        simp [requestFor, htokens]
      simp only [ViewAssetState.lookup, hlabel, hhost, hpath, hhead, hdrop, hvalid debug file hfile,
        hfound file hfile, ↓reduceIte]
      simp [requestFor]

end

/-- A bundle of nothing but its entry. -/
def entryBundle : ViewBundle where
  version := viewBundleVersion
  entry := portableEntry
  files := [⟨portableEntry, []⟩]

theorem paths_unique_entry : PathsUnique entryBundle := by
  have hsome : ((encode entryBundle).toOption).isSome = true := by decide
  obtain ⟨bytes, hbytes⟩ := Option.isSome_iff_exists.mp hsome
  refine (paths_unique (.inl (toOption_eq_some.mp hbytes))).mpr ?_
  unfold View.Normal
  decide

/-- One location under two names, of which a host knows one. -/
def repeatedBundle : ViewBundle where
  version := viewBundleVersion
  entry := portableEntry
  files := [⟨"a//b", [1]⟩, ⟨"a/b", [2]⟩, ⟨portableEntry, []⟩]

theorem paths_repeated :
    ((encode repeatedBundle).toOption).isSome = true ∧
      (portablePath "a//b").toOption = some "a/b" ∧ (portablePath "a/b").toOption = some "a/b" ∧
      ¬PathsUnique repeatedBundle := by
  refine ⟨by decide, by decide, by decide, fun hunique => ?_⟩
  have hown := hunique.own ⟨"a//b", [1]⟩ (by simp [repeatedBundle])
  have hlogical : (portablePath "a//b").toOption = some "a/b" := by decide
  rw [hown] at hlogical
  revert hlogical
  decide

end HologramLive.Desktop
