import HologramLive.Registry.KappaScan
import HologramLive.Registry.KappaSteps

/-! What a call makes of replies that are all recent enough. -/

namespace HologramLive.Registry.KappaSteps
open Lib KappaClient Kappa KappaScan Store

/-- The tags up to a position, as far as a listing has come. -/
def Passed (position : Option String) (tag : String) : Prop :=
  ∃ last, position = some last ∧ tag ≤ last

theorem kappaFor_address (blake3 : Blake3) (bytes : Bytes) :
    kappaFor (tagFor (address blake3 bytes)) = some (address blake3 bytes) := by
  have hlower : (hexDigest blake3 bytes).toList.all isLowerHex = true := hex_all rfl _
  have hlist : (address blake3 bytes).toList =
      "blake3:".toList ++ (hexDigest blake3 bytes).toList := String.toList_append ..
  have htag : (tagFor (address blake3 bytes)).toList =
      "blake3_".toList ++ (hexDigest blake3 bytes).toList := by
    rw [tagFor, String.toList_ofList, hlist, List.map_append]
    congr 1
    refine (List.map_congr_left fun c hc => ?_).trans (List.map_id _)
    have hhex := List.all_eq_true.mp hlower c hc
    split
    · rename_i hcolon
      subst hcolon
      exact absurd hhex (by decide)
    · rfl
  have hdigest : digestOf (tagFor (address blake3 bytes)).toList =
      some (hexDigest blake3 bytes).toList := by
    rw [htag, digestOf, if_pos (List.prefix_append ..)]
    rfl
  have hlength := (hexDigest_valid blake3 bytes).1
  simp only [kappaFor, hdigest, hlength, hlower, ne_eq, not_true_eq_false, Bool.not_true,
    Bool.false_eq_true, ↓reduceIte, Option.some.injEq]
  exact String.toList_inj.mp (by rw [String.toList_ofList, hlist])

/-- The tags beyond a position, as one page lists them: no known tag before the position
the page leads to is missing. -/
structure Window (known : String → Prop) (position : Option String) (page : TagPage) : Prop where
  ascending : page.tags.Pairwise (· < ·)
  ahead : ∀ tag ∈ page.tags, ¬ Passed position tag
  complete : ∀ tag, known tag → ¬ Passed position tag →
    tag ∈ page.tags ∨ ∃ next, page.next = some next ∧ next < tag
  bound : ∀ next, page.next = some next →
    (∀ tag ∈ page.tags, tag ≤ next) ∧ ∀ last, position = some last → last ≤ next

theorem not_passed {position : Option String} {tag : String} (h : ¬ Passed position tag)
    (hposition : position = some last) : last < tag :=
  lt_of_not_ge fun hle => h ⟨last, hposition, hle⟩

/-- Past the last tag of a page, what is known lies beyond the position it leads to. -/
theorem Window.ended {known : String → Prop} {position : Option String}
    (h : Window known position ⟨[], none⟩) (tag : String) (hknown : known tag) :
    Passed position tag := by
  by_contra hahead
  rcases h.complete tag hknown hahead with hmem | ⟨next, hnext, _⟩
  · cases hmem
  · cases hnext

theorem Window.tail {known : String → Prop} (h : Window known position ⟨tag :: rest, next⟩) :
    Window known (some tag) ⟨rest, next⟩ := by
  obtain ⟨hfirst, hrest⟩ := List.pairwise_cons.mp h.ascending
  have htag := h.ahead tag List.mem_cons_self
  constructor
  · exact hrest
  · rintro other hother ⟨last, ⟨⟩, hle⟩
    exact absurd (hfirst other hother) (not_lt_of_ge hle)
  · intro other hknown hahead
    have hlt := not_passed hahead rfl
    have hbeyond : ¬ Passed position other := by
      rintro ⟨last, hlast, hle⟩
      exact htag ⟨last, hlast, (le_of_lt hlt).trans hle⟩
    rcases h.complete other hknown hbeyond with hmem | hnext
    · rcases List.mem_cons.mp hmem with rfl | hmem
      · exact absurd hlt (lt_irrefl _)
      · exact .inl hmem
    · exact .inr hnext
  · intro next hnext
    obtain ⟨hbelow, _⟩ := h.bound next hnext
    refine ⟨fun other hother => hbelow other (List.mem_cons_of_mem _ hother), ?_⟩
    rintro last ⟨⟩
    exact hbelow tag List.mem_cons_self

section Follows
variable (setting : Setting) (sees : String → ObjectMetadata → Prop) (known : String → Prop)

/-- A reply that shows only records that count as recent, and misses no known one. -/
def Fresh : ∀ {β : Type}, ProviderCall β → β → Prop
  | _, .cached tag, reply => ∀ metadata, reply = some metadata → sees tag metadata
  | _, .getManifest tag, reply =>
    (∀ body, reply = .ok (some body) →
      ∃ metadata, decodeManifest setting.provider.codec body = .ok metadata ∧ sees tag metadata) ∧
    (reply = .ok none → ¬ known tag) ∧ ∀ message, reply ≠ .error (.notFound message)
  | _, .putManifest tag _, reply => ∀ message, reply = .error (.notFound message) →
      ∃ rest, message = s!"put manifest {tag}" ++ rest
  | _, .getBlob kappa, reply => ∀ message, reply = .error (.notFound message) →
      ∃ rest, message = s!"get blob {kappa}" ++ rest
  | _, .listTags _ last, reply => ∀ page, reply = .ok page →
    Window known last page ∧ (page.tags = [] → page.next = none)
  | _, _, _ => True

/-- The manifest a call has obtained or put, after one more reply. -/
def obtains : ∀ {β : Type}, ProviderCall β → β → Option (String × Bytes) → Option (String × Bytes)
  | _, .getManifest tag, .ok (some body), _ => some (tag, body)
  | _, .getManifest _, _, _ => none
  | _, .putManifest tag body, .ok (), _ => some (tag, body)
  | _, .putManifest _ _, _, _ => none
  | _, _, _, before => before

/-- A record is remembered as its manifest shows it, a manifest is put under the tag of the
object it describes, and tags are listed by full pages. -/
def Owed : ∀ {β : Type}, ProviderCall β → Option (String × Bytes) → Prop
  | _, .remember tag metadata, obtained =>
    ∃ body, obtained = some (tag, body) ∧
      decodeManifest setting.provider.codec body = .ok metadata
  | _, .getManifest tag, _ => setting.addressed tag = tag
  | _, .putManifest tag body, _ => setting.addressed tag = tag ∧
    ∃ metadata, decodeManifest setting.provider.codec body = .ok metadata ∧
      tagFor metadata.id = tag
  | _, .listTags limit _, _ => limit = ObjectQuery.maxLimit
  | _, _, _ => True

/-- What a program owes and comes to, as long as its replies are fresh. -/
def Follows (post : Except LiveError α → Prop) :
    ProviderProgram α → Option (String × Bytes) → Prop
  | .done value, _ => post (.ok value)
  | .fail error, _ => post (.error error)
  | .call operation next, obtained => Owed setting operation obtained ∧
    ∀ reply, Fresh setting sees known operation reply →
      Follows post (next reply) (obtains operation reply obtained)

variable {setting sees known} {post : Except LiveError α → Prop}
  {program : ProviderProgram α} {obtained : Option (String × Bytes)}

theorem Fresh.mono {sees' : String → ObjectMetadata → Prop} {operation : ProviderCall β} {reply : β}
    (h : Fresh setting sees known operation reply)
    (hsees : ∀ tag metadata, sees tag metadata → sees' tag metadata) :
    Fresh setting sees' known operation reply := by
  cases operation with
  | cached tag => exact fun metadata hfound => hsees _ _ (h metadata hfound)
  | getManifest tag =>
    refine ⟨fun body hbody => ?_, h.2⟩
    obtain ⟨metadata, hdecode, hseen⟩ := h.1 body hbody
    exact ⟨metadata, hdecode, hsees _ _ hseen⟩
  | remember _ _ | putManifest _ _ | getBlob _ | putBlob _ _ _ | listTags _ _ | nowMillis => exact h

variable (post) in
theorem Follows.bind {rest : α → ProviderProgram γ} {after : Except LiveError γ → Prop}
    (h : Follows setting sees known post program obtained)
    (hdone : ∀ value obtained, post (.ok value) →
      Follows setting sees known after (rest value) obtained)
    (hfail : ∀ error, post (.error error) → after (.error error)) :
    Follows setting sees known after (program >>= rest) obtained := by
  induction program generalizing obtained with
  | done value => exact hdone value obtained h
  | fail error => exact hfail error h
  | call operation next ih => exact ⟨h.1, fun reply hreply => ih reply (h.2 reply hreply)⟩

theorem Follows.attempt (h : Follows setting sees known post program obtained) :
    Follows setting sees known (fun result => ∃ value, result = .ok value ∧ post value)
      program.attempt obtained := by
  induction program generalizing obtained with
  | done value => exact ⟨_, rfl, h⟩
  | fail error => exact ⟨_, rfl, h⟩
  | call operation next ih => exact ⟨h.1, fun reply hreply => ih reply (h.2 reply hreply)⟩

theorem Follows.mono {post' : Except LiveError α → Prop}
    (h : Follows setting sees known post program obtained)
    (hpost : ∀ result, post result → post' result) :
    Follows setting sees known post' program obtained := by
  induction program generalizing obtained with
  | done value => exact hpost _ h
  | fail error => exact hpost _ h
  | call operation next ih => exact ⟨h.1, fun reply hreply => ih reply (h.2 reply hreply)⟩

theorem heads_differ {left right middle middle' rest rest' : String} {c c' : Char}
    (h : left.toList.head? = some c) (h' : right.toList.head? = some c') (hne : c ≠ c') :
    left ++ middle ++ rest ≠ right ++ middle' ++ rest' := by
  intro heq
  have hheads := congrArg (fun text : String => text.toList.head?) heq
  simp only [String.toList_append, List.head?_append, h, h', Option.some_or, Option.some.injEq]
    at hheads
  exact hne hheads

/-- What looking a tag up comes to. -/
def LookedUp (sees : String → ObjectMetadata → Prop) (known : String → Prop) (tag : String) :
    Except LiveError (Option ObjectMetadata) → Prop
  | .ok (some metadata) => sees tag metadata
  | .ok none => ¬ known tag
  | .error error => ∀ message, error ≠ .notFound message

theorem metadataByTag_follows (haddressed : setting.addressed tag = tag) :
    Follows setting sees known (LookedUp sees known tag)
      (metadataByTag setting.provider.codec tag) obtained := by
  refine ⟨trivial, fun found hfound => ?_⟩
  cases found with
  | some metadata => exact hfound metadata rfl
  | none =>
    refine ⟨haddressed, fun reply hreply => ?_⟩
    cases reply with
    | error error =>
      intro message hmessage
      exact hreply.2.2 message (congrArg Except.error hmessage)
    | ok found =>
      cases found with
      | none => exact hreply.2.1 rfl
      | some body =>
        obtain ⟨metadata, hdecode, hsees⟩ := hreply.1 body rfl
        simp only [hdecode]
        exact ⟨⟨body, rfl, hdecode⟩, fun _ _ => hsees⟩

/-- The records that are seen belong to their tag, and their numbers fit. -/
def Proper (sees : String → ObjectMetadata → Prop) : Prop :=
  ∀ tag metadata, sees tag metadata → tagFor metadata.id = tag ∧ metadata.size < 2 ^ 64 ∧
    metadata.createdAtMillis < 2 ^ 64

/-- The serializer keeps the manifests whose numbers fit. -/
def KeepsManifests (codec : JsonCodec) : Prop :=
  ∀ metadata : ObjectMetadata, metadata.size < 2 ^ 64 → metadata.createdAtMillis < 2 ^ 64 →
    codec.Keeps (manifestDocument metadata)

variable (hcodec : KeepsManifests setting.provider.codec)
include hcodec

theorem publish_follows (haddressed : setting.addressed tag = tag) (htag : tagFor metadata.id = tag)
    (hsize : metadata.size < 2 ^ 64) (hcreated : metadata.createdAtMillis < 2 ^ 64) :
    Follows setting sees known
      (fun result => match result with
        | .ok written => written = metadata
        | .error error => ∀ message, error = .notFound message →
          ∃ rest, message = s!"put manifest {tag}" ++ rest)
      (publish setting.provider.codec tag metadata) obtained := by
  have hdecode := decodeManifest_encodeManifest (hcodec metadata hsize hcreated) hsize hcreated
  refine ⟨⟨haddressed, metadata, hdecode, htag⟩, fun reply hreply => ?_⟩
  cases reply with
  | error error =>
    intro message hmessage
    exact hreply message (congrArg Except.error hmessage)
  | ok _ => exact ⟨⟨_, rfl, hdecode⟩, fun _ _ => rfl⟩

theorem putObject_follows (hproper : Proper sees) (kind mediaType : String)
    (filename : Option String) (bytes : Bytes) :
    Follows setting sees known (fun _ => True)
      (putObject setting.provider.codec setting.blake3 kind mediaType filename bytes) obtained := by
  have haddressed : setting.addressed (tagFor (address setting.blake3 bytes)) =
      tagFor (address setting.blake3 bytes) :=
    setting.legal _ (by rw [kappaFor_address]; rfl)
  refine Follows.bind _ (metadataByTag_follows haddressed).attempt ?_ (fun _ _ => trivial)
  intro existing obtained hexisting
  obtain ⟨looked, hlooked, hfound⟩ := hexisting
  obtain rfl := Except.ok.inj hlooked
  have hcreated : Follows setting sees known
      (fun result => ∃ createdAtMillis, result = .ok createdAtMillis ∧ createdAtMillis < 2 ^ 64)
      (createdAt existing) obtained := by
    have hnow : Follows setting sees known
        (fun result => ∃ createdAtMillis, result = .ok createdAtMillis ∧ createdAtMillis < 2 ^ 64)
        (.call .nowMillis fun now => .done now.toNat : ProviderProgram Nat) obtained :=
      ⟨trivial, fun now _ => ⟨_, rfl, now.toNat_lt⟩⟩
    cases existing with
    | error error => exact hnow
    | ok found =>
      cases found with
      | none => exact hnow
      | some metadata => exact ⟨_, rfl, (hproper _ _ hfound).2.2⟩
  refine Follows.bind _ hcreated ?_ (fun _ _ => trivial)
  intro value obtained hvalue
  obtain ⟨createdAtMillis, hok, hfits⟩ := hvalue
  obtain rfl := Except.ok.inj hok
  refine ⟨trivial, fun reply _ => ?_⟩
  cases reply with
  | error error => trivial
  | ok _ =>
    have hsize : min bytes.length (2 ^ 64 - 1) < 2 ^ 64 := by omega
    refine Follows.mono (publish_follows hcodec haddressed ?_ ?_ ?_) fun _ _ => trivial
    · rfl
    · exact hsize
    · exact hfits

theorem renameFile_follows (hproper : Proper sees) (id filename : String)
    (haddressed : setting.addressed (tagFor id) = tagFor id) :
    Follows setting sees known
      (fun result => match result with
        | .ok metadata => ∃ before, sees (tagFor id) before ∧ before.kind = "file" ∧
          metadata = { before with filename := some filename }
        | .error error => known (tagFor id) → error = .notFound s!"file {id} not found" →
          ∃ metadata, sees (tagFor id) metadata ∧ metadata.kind ≠ "file")
      (renameFile setting.provider.codec id filename) obtained := by
  refine Follows.bind _ (metadataByTag_follows haddressed) ?_ ?_
  · intro found obtained hfound
    cases found with
    | none => exact fun hknown => absurd hknown hfound
    | some metadata =>
      dsimp only
      split
      · rename_i hkind
        exact fun _ _ => ⟨metadata, hfound, hkind⟩
      · rename_i hkind
        obtain ⟨htag, hsize, hcreated⟩ := hproper _ _ hfound
        refine Follows.mono (publish_follows hcodec haddressed ?_ ?_ ?_) fun result hresult => ?_
        · exact htag
        · exact hsize
        · exact hcreated
        cases result with
        | ok written => exact ⟨metadata, hfound, not_not.mp hkind, hresult⟩
        | error error =>
          intro _ hmessage
          obtain ⟨rest, hrest⟩ := hresult _ hmessage
          exact absurd hrest (heads_differ rfl rfl (by decide))
  · intro error herror _ hmessage
    exact absurd hmessage (herror _)

omit hcodec

theorem getObject_follows (id : String) (haddressed : setting.addressed (tagFor id) = tagFor id) :
    Follows setting sees known
      (fun result => match result with
        | .ok content => sees (tagFor id) content.metadata
        | .error error => known (tagFor id) → error ≠ .notFound s!"object {id} not found")
      (getObject setting.provider.codec setting.blake3 id) obtained := by
  refine Follows.bind _ (metadataByTag_follows haddressed) ?_ ?_
  · intro found obtained hfound
    cases found with
    | none => exact fun hknown => absurd hknown hfound
    | some metadata =>
      refine ⟨trivial, fun reply hreply => ?_⟩
      cases reply with
      | error error =>
        intro _ hmessage
        obtain ⟨rest, hrest⟩ := hreply _ (congrArg Except.error hmessage)
        exact heads_differ rfl rfl (by decide) hrest
      | ok bytes =>
        dsimp only [verifyContent]
        split
        · rename_i hverify
          split at hverify
          · cases hverify
          · cases hverify
            exact fun _ h => nomatch h
        · exact hfound
  · intro error herror _ hmessage
    exact absurd hmessage (herror _)

end Follows

section Search
open KappaRegistryProvider (Progress lastId)

variable (sees : String → ObjectMetadata → Prop) (known : String → Prop)

/-- A search has come to a position: what it holds matches, and of every known object on
the way it holds the record it has seen, if that one matches. -/
structure Scanned (query : ObjectQuery) (position : Option String)
    (objects : List ObjectMetadata) : Prop where
  shown : ∀ metadata ∈ objects, query.matches metadata = true ∧
    sees (tagFor metadata.id) metadata ∧ Passed position (tagFor metadata.id)
  covered : ∀ tag, known tag → (kappaFor tag).isSome → ¬ Passed (query.cursor.map tagFor) tag →
    Passed position tag →
      ∃ metadata, sees tag metadata ∧ (query.matches metadata = true → metadata ∈ objects)

/-- Whether a page of results is about a tag: it is not beyond the page's cursor, or the
page has none because the search went to the end. -/
def Reached (page : ObjectPage) (tag : String) : Prop :=
  match page.nextCursor with
  | some next => tag ≤ tagFor next
  | none => page.truncated = false

/-- What a search owes: recent records that match, and every known object that its page
is about, unless a recent record of it does not match. -/
structure SearchSees (query : ObjectQuery) (page : ObjectPage) : Prop where
  shown : ∀ metadata ∈ page.objects,
    query.matches metadata = true ∧ sees (tagFor metadata.id) metadata
  covered : ∀ tag, known tag → (kappaFor tag).isSome → ¬ Passed (query.cursor.map tagFor) tag →
    Reached page tag →
      ∃ metadata, sees tag metadata ∧ (query.matches metadata = true → metadata ∈ page.objects)

variable {sees known} {query : ObjectQuery} {position : Option String}
  {objects : List ObjectMetadata}

theorem Scanned.start : Scanned sees known query (query.cursor.map tagFor) [] :=
  ⟨fun _ h => absurd h List.not_mem_nil, fun _ _ _ hstart hpassed => absurd hpassed hstart⟩

/-- One more tag is passed, and with it whatever its object adds. -/
theorem Scanned.pass (h : Scanned sees known query position objects)
    (hwindow : Window known position ⟨tag :: rest, next⟩) (added : List ObjectMetadata)
    (hadded : ∀ metadata ∈ added, query.matches metadata = true ∧ sees tag metadata ∧
      tagFor metadata.id = tag)
    (htag : known tag → (kappaFor tag).isSome → ∃ metadata, sees tag metadata ∧
      (query.matches metadata = true → metadata ∈ objects ++ added)) :
    Scanned sees known query (some tag) (objects ++ added) := by
  have hahead := hwindow.ahead tag List.mem_cons_self
  constructor
  · intro metadata hmetadata
    rcases List.mem_append.mp hmetadata with hbefore | hnew
    · obtain ⟨hmatch, hsees, last, hlast, hle⟩ := h.shown metadata hbefore
      exact ⟨hmatch, hsees, tag, rfl, hle.trans (le_of_lt (not_passed hahead hlast))⟩
    · obtain ⟨hmatch, hsees, hid⟩ := hadded metadata hnew
      exact ⟨hmatch, hid ▸ hsees, tag, rfl, le_of_eq hid⟩
  · intro other hknown hours hstart hpassed
    obtain ⟨_, ⟨⟩, hle⟩ := hpassed
    by_cases hbefore : Passed position other
    · obtain ⟨metadata, hsees, hmem⟩ := h.covered other hknown hours hstart hbefore
      exact ⟨metadata, hsees, fun hmatch => List.mem_append_left _ (hmem hmatch)⟩
    · rcases hwindow.complete other hknown hbefore with hmem | ⟨next, hnext, hlt⟩
      · rcases List.mem_cons.mp hmem with rfl | hmem
        · exact htag hknown hours
        · have hlt := (List.pairwise_cons.mp hwindow.ascending).1 other hmem
          exact absurd hlt (not_lt_of_ge hle)
      · have := (hwindow.bound next hnext).1 tag List.mem_cons_self
        exact absurd (hlt.trans_le (hle.trans this)) (lt_irrefl _)

theorem Scanned.skip (h : Scanned sees known query position objects)
    (hwindow : Window known position ⟨tag :: rest, next⟩)
    (htag : known tag → (kappaFor tag).isSome → ∃ metadata, sees tag metadata ∧
      (query.matches metadata = true → metadata ∈ objects)) :
    Scanned sees known query (some tag) objects := by
  have hpass := h.pass hwindow [] (fun _ hmem => absurd hmem List.not_mem_nil)
  rw [List.append_nil] at hpass
  exact hpass htag

/-- At the end of a page the search has come to where the page leads. -/
theorem Scanned.advance (h : Scanned sees known query position objects)
    (hwindow : Window known position ⟨[], some next⟩) :
    Scanned sees known query (some next) objects := by
  obtain ⟨_, hbound⟩ := hwindow.bound next rfl
  constructor
  · intro metadata hmetadata
    obtain ⟨hmatch, hsees, last, hlast, hle⟩ := h.shown metadata hmetadata
    exact ⟨hmatch, hsees, next, rfl, hle.trans (hbound last hlast)⟩
  · intro tag hknown hours hstart hpassed
    apply h.covered tag hknown hours hstart
    by_contra hahead
    obtain ⟨_, ⟨⟩, hle⟩ := hpassed
    rcases hwindow.complete tag hknown hahead with hmem | ⟨_, ⟨⟩, hlt⟩
    · cases hmem
    · exact absurd hlt (not_lt_of_ge hle)

/-- A page that ends at its last object is about nothing that was not passed. -/
theorem Scanned.upto (h : Scanned sees known query position objects) (truncated : Bool)
    (hnone : lastId objects = none → truncated = true) :
    SearchSees sees known query ⟨objects, lastId objects, truncated⟩ := by
  constructor
  · intro metadata hmetadata
    exact ⟨(h.shown metadata hmetadata).1, (h.shown metadata hmetadata).2.1⟩
  · intro tag hknown hours hstart hreached
    cases hlast : lastId objects with
    | none => simp [Reached, hlast, hnone hlast] at hreached
    | some next =>
      simp only [Reached, hlast] at hreached
      obtain ⟨final, hfinal, hid⟩ := Option.map_eq_some_iff.mp hlast
      obtain ⟨_, _, last, hposition, hle⟩ := h.shown final (List.mem_of_getLast? hfinal)
      exact h.covered tag hknown hours hstart ⟨last, hposition, hreached.trans (hid ▸ hle)⟩

/-- A page without a cursor is about everything: nothing known lies beyond. -/
theorem Scanned.whole (h : Scanned sees known query position objects)
    (hend : ∀ tag, known tag → Passed position tag) :
    SearchSees sees known query ⟨objects, none, false⟩ := by
  constructor
  · intro metadata hmetadata
    exact ⟨(h.shown metadata hmetadata).1, (h.shown metadata hmetadata).2.1⟩
  · intro tag hknown hours hstart _
    exact h.covered tag hknown hours hstart (hend tag hknown)

variable (sees known query) in
/-- How a page of tags leaves the search: full, or at the end of the page. -/
def ScannedTo (next : Option String) : Except LiveError Progress → Prop
  | .ok (.full objects) => ∃ position, Scanned sees known query position objects ∧
    objects.length = query.effectiveLimit
  | .ok (.through objects) => ∃ position, Scanned sees known query position objects ∧
    Window known position ⟨[], next⟩
  | .error _ => True

variable {setting : Setting} {obtained : Option (String × Bytes)} (hproper : Proper sees)
include hproper

theorem scanTags_follows {tags : List String} {next : Option String}
    (hwindow : Window known position ⟨tags, next⟩)
    (h : Scanned sees known query position objects) :
    Follows setting sees known (ScannedTo sees known query next)
      (scanTags setting.provider.codec query tags objects) obtained := by
  induction tags generalizing position objects obtained with
  | nil => exact ⟨position, h, hwindow⟩
  | cons tag rest ih =>
    rw [scanTags]
    split
    · rename_i hnone
      refine ih hwindow.tail (h.skip hwindow fun _ hours => ?_)
      rw [Option.isNone_iff_eq_none.mp hnone] at hours
      cases hours
    · rename_i hsome
      have haddressed := setting.legal tag (by simpa [Option.isSome_iff_ne_none] using hsome)
      refine Follows.bind _ (metadataByTag_follows haddressed) ?_ (fun _ _ => trivial)
      intro found obtained hfound
      cases found with
      | none => exact ih hwindow.tail (h.skip hwindow fun hknown _ => absurd hknown hfound)
      | some metadata =>
        have htag := (hproper _ _ hfound).1
        dsimp only
        split
        · rename_i hother
          refine ih hwindow.tail (h.skip hwindow fun _ _ => ⟨metadata, hfound, fun hmatch => ?_⟩)
          simp [hmatch] at hother
        · rename_i hmatch
          split
          · rename_i hfull
            exact ⟨position, h, hfull⟩
          · apply ih hwindow.tail
            refine h.pass hwindow [metadata] ?_ fun _ _ => ⟨metadata, hfound, fun _ => by simp⟩
            intro other hother
            obtain rfl := List.mem_singleton.mp hother
            exact ⟨by simpa using hmatch, hfound, htag⟩

theorem scanPages_follows (left : Nat) (h : Scanned sees known query position objects) :
    Follows setting sees known (fun result => ∀ page, result = .ok page →
        SearchSees sees known query page)
      (scanPages setting.provider.codec query left position objects) obtained := by
  induction left generalizing position objects obtained with
  | zero =>
    rintro page ⟨⟩
    exact h.upto true fun _ => rfl
  | succ left ih =>
    refine ⟨rfl, fun reply hreply => ?_⟩
    cases reply with
    | error error => exact fun _ hok => nomatch hok
    | ok page =>
      obtain ⟨hwindow, hempty⟩ := hreply page rfl
      obtain ⟨tags, next⟩ := page
      dsimp only at hempty ⊢
      split
      · rename_i hnil
        rintro page ⟨⟩
        subst hnil
        rw [hempty rfl] at hwindow
        exact h.whole hwindow.ended
      · refine Follows.bind _ (scanTags_follows hproper hwindow h) ?_
          (fun _ _ _ hok => nomatch hok)
        intro progress obtained hprogress
        cases progress with
        | full objects =>
          obtain ⟨position, hscanned, hlength⟩ := hprogress
          rintro page ⟨⟩
          refine hscanned.upto false fun hnone => ?_
          have hpos := query.effectiveLimit_pos
          have hnil : objects = [] := by simpa [lastId] using hnone
          rw [hnil, List.length_nil] at hlength
          omega
        | through objects =>
          obtain ⟨position, hscanned, hleft⟩ := hprogress
          dsimp only
          cases next with
          | none =>
            rintro page ⟨⟩
            exact hscanned.whole hleft.ended
          | some next => exact ih (hscanned.advance hleft)

end Search

section Answered
variable (sees : String → ObjectMetadata → Prop) (known : String → Prop)

/-- What a call's result owes to the records that count as recent: it shows one of them,
and a known object is only reported missing where a recent record explains it. -/
def Answered : Call → Except LiveError Outcome → Prop
  | .get id, .ok (.got content) => sees (tagFor id) content.metadata
  | .get id, .error error => known (tagFor id) → error ≠ .notFound s!"object {id} not found"
  | .rename id filename, .ok (.wrote metadata) => ∃ before, sees (tagFor id) before ∧
    before.kind = "file" ∧ metadata = { before with filename := some filename }
  | .rename id _, .error error => known (tagFor id) →
    error = .notFound s!"file {id} not found" →
      ∃ metadata, sees (tagFor id) metadata ∧ metadata.kind ≠ "file"
  | .search query, .ok (.found page) => SearchSees sees known query page
  | .search _, .error _ => True
  | .put .., .ok (.wrote _) => True
  | .put .., .error _ => True
  | _, .ok _ => False

variable {sees known} {setting : Setting}

theorem program_follows (hcodec : KeepsManifests setting.provider.codec) (hproper : Proper sees)
    (call : Call) (hplain : Plain setting call) :
    Follows setting sees known (Answered sees known call) (call.program setting) none := by
  cases call with
  | put kind mediaType filename bytes =>
    exact Follows.bind _ (putObject_follows hcodec hproper ..) (fun _ _ _ => trivial)
      (fun _ _ => trivial)
  | rename id filename =>
    exact Follows.bind _ (renameFile_follows hcodec hproper id filename hplain)
      (fun _ _ hvalue => hvalue) (fun _ herror => herror)
  | get id =>
    exact Follows.bind _ (getObject_follows id hplain) (fun _ _ hvalue => hvalue)
      (fun _ herror => herror)
  | search query =>
    exact Follows.bind _ (scanPages_follows hproper _ Scanned.start)
      (fun page _ hpage => hpage page rfl) (fun _ _ => trivial)

end Answered

end HologramLive.Registry.KappaSteps
