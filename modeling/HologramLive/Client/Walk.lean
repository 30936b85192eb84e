import HologramLive.Lib.Paging
import HologramLive.Protocol

namespace HologramLive
open Lib.Paging

namespace HologramClient

/-- A typed error from the daemon, or a failure reaching it. -/
inductive Error where
  | api (code message : String)
  | transport (detail : String)
  | decode (detail : String)

structure Request where
  url : String
  query : List (String × String)
  bearer : Option String

structure Response where
  status : Nat
  body : Except String String

/-- What one sent request comes to: an answer, or no answer at all. -/
inductive Answer where
  | unreachable (detail : String)
  | response (response : Response)

/-- The daemon, by the number of the request: it may answer the same request differently
from one time to the next. -/
abbrev Daemon := Nat → Request → Answer

end HologramClient

/-- The client, with the parser of the documents it receives. -/
structure HologramClient where
  base : String
  token : Option String
  parsePage : String → Except String ObjectPage
  parseApiError : String → Option (String × String)

namespace HologramClient

/-- Query-string pairs, omitting anything unset. -/
def toPairs (query : ObjectQuery) : List (String × String) :=
  [("kind", query.kind), ("media_type", query.mediaType),
    ("filename_contains", query.filenameContains), ("cursor", query.cursor)].filterMap
      (fun (key, value) => value.map fun text => (key, text)) ++
  [("min_size", query.minSize), ("max_size", query.maxSize),
    ("created_after_millis", query.createdAfterMillis),
    ("created_before_millis", query.createdBeforeMillis)].filterMap
      (fun (key, value) => value.map fun number => (key, toString number)) ++
  if query.limit ≠ 0 then [("limit", toString query.limit)] else []

variable (client : HologramClient)

def send (answer : Answer) : Except Error Response :=
  match answer with
  | .unreachable detail => .error (.transport detail)
  | .response response =>
    if 200 ≤ response.status ∧ response.status < 300 then .ok response
    else
      -- A body that cannot be read counts as an empty one.
      let body := response.body.toOption.getD ""
      match client.parseApiError body with
      | some (code, message) => .error (.api code message)
      | none => .error (.api s!"HTTP_{response.status}" body)

def searchObjects (daemon : Daemon) (number : Nat) (query : ObjectQuery) :
    Except Error ObjectPage :=
  let request := ⟨client.base ++ "/api/v1/objects/search", toPairs query, client.token⟩
  match client.send (daemon number request) with
  | .error error => .error error
  | .ok response =>
    match response.body.bind client.parsePage with
    | .error detail => .error (.decode detail)
    | .ok page => .ok page

/-- How a walk ends: what it returns, and the page it stops at. -/
structure Walk where
  result : Except Error (List ObjectMetadata)
  stoppedAt : Option ObjectPage

/-- The loop of `search_objects_all` from its `number`th request on. The fuel bounds the
number of requests; running out of it is a visible outcome. -/
def searchFrom (daemon : Daemon) : Nat → Nat → ObjectQuery → List ObjectMetadata → Option Walk
  | 0, _, _, _ => none
  | fuel + 1, number, query, collected =>
    match client.searchObjects daemon number query with
    | .error error => some ⟨.error error, none⟩
    | .ok page =>
      let collected := collected ++ page.objects
      match page.nextCursor with
      | none => some ⟨.ok collected, some page⟩
      | some cursor =>
        if page.truncated then some ⟨.ok collected, some page⟩
        else searchFrom daemon fuel (number + 1) { query with cursor := some cursor } collected

def searchObjectsAll (daemon : Daemon) (fuel : Nat) (query : ObjectQuery) : Option Walk :=
  client.searchFrom daemon fuel 0 query []

/-- The objects a query still has ahead of its cursor, in the order of their ids. -/
def remaining (objects : List ObjectMetadata) (query : ObjectQuery) : List ObjectMetadata :=
  beyond (·.id) query.cursor (objects.filter query.matches)

/-- What the search contract promises of one page: it holds the next matches beyond the
cursor, its own cursor is the last id it returns, and without one it reached the end of the
result set unless it says that it was stopped early. -/
structure Honest (rest : List ObjectMetadata) (page : ObjectPage) : Prop where
  next : page.objects <+: rest
  cursor : ∀ cursor, page.nextCursor = some cursor → page.objects.getLast?.map (·.id) = some cursor
  last : page.nextCursor = none → page.truncated = false → page.objects = rest

/-- The daemon answers the search for `query`, at whatever cursor and however often it is
asked, by a failure or an honest page. -/
structure Obeys (daemon : Daemon) (objects : List ObjectMetadata) (query : ObjectQuery) : Prop where
  ascending : Ascending (·.id) objects
  honest : ∀ number cursor page,
    client.searchObjects daemon number { query with cursor := cursor } = .ok page →
      Honest (remaining objects { query with cursor := cursor }) page

/-- The pages the daemon's cursors chain together from one request on. -/
inductive Chained (daemon : Daemon) (query : ObjectQuery) :
    Nat → Option String → ObjectPage → Prop where
  | first : client.searchObjects daemon number { query with cursor := cursor } = .ok page →
      Chained daemon query number cursor page
  | later : client.searchObjects daemon number { query with cursor := cursor } = .ok page →
      page.nextCursor = some next → Chained daemon query (number + 1) (some next) page' →
      Chained daemon query number cursor page'

variable {client} {daemon : Daemon} {objects : List ObjectMetadata} {query : ObjectQuery}

/-- A page with a cursor leaves exactly the matches it does not hold. -/
theorem remaining_next (hobeys : client.Obeys daemon objects query)
    (hpage : Honest (remaining objects { query with cursor := cursor }) page)
    (hnext : page.nextCursor = some next) :
    remaining objects { query with cursor := cursor } =
        page.objects ++ remaining objects { query with cursor := some next } ∧
      0 < page.objects.length := by
  obtain ⟨rest, hrest⟩ := hpage.next
  obtain ⟨last, hlast, hid⟩ := Option.map_eq_some_iff.mp (hpage.cursor next hnext)
  have hresume : remaining objects { query with cursor := some next } = rest := by
    rw [← hid]
    exact beyond_resume (hobeys.ascending.filter query.matches) hrest.symm hlast
  constructor
  · rw [hresume, hrest]
  · exact List.length_pos_of_mem (List.mem_of_getLast? hlast)

/-- A result is not read off a page that says it was stopped early. -/
def Unstopped (walk : Walk) : Prop :=
  ∀ found, walk.result = .ok found → ∀ page, walk.stoppedAt = some page → page.truncated = false

/-- The induction is on the fuel: every turn of the loop uses up matches. -/
theorem searchFrom_delivers (hobeys : client.Obeys daemon objects query) (fuel number : Nat)
    (cursor : Option String) (collected : List ObjectMetadata)
    (hfuel : (remaining objects { query with cursor := cursor }).length < fuel) :
    ∃ walk, client.searchFrom daemon fuel number { query with cursor := cursor } collected =
        some walk ∧
      (Unstopped walk ↔
        ∀ page, client.Chained daemon query number cursor page → page.truncated = false) ∧
      (Unstopped walk → ∀ found, walk.result = .ok found →
        found = collected ++ remaining objects { query with cursor := cursor }) := by
  induction fuel generalizing number cursor collected with
  | zero => omega
  | succ fuel ih =>
    cases hsearch : client.searchObjects daemon number { query with cursor := cursor } with
    | error error =>
      refine ⟨⟨.error error, none⟩, by simp [searchFrom, hsearch], iff_of_true ?_ ?_, ?_⟩
      · intro found hok
        cases hok
      · intro page hchained
        cases hchained with
        | first hfirst => simp [hsearch] at hfirst
        | later hfirst => simp [hsearch] at hfirst
      · intro _ found hok
        cases hok
    | ok page =>
      have hpage := hobeys.honest number cursor page hsearch
      cases hnext : page.nextCursor with
      | none =>
        refine ⟨⟨.ok (collected ++ page.objects), some page⟩, by simp [searchFrom, hsearch, hnext],
          ⟨?_, ?_⟩, ?_⟩
        · intro hunstopped page' hchained
          cases hchained with
          | first hfirst =>
            obtain rfl : page = page' := Except.ok.inj (hsearch.symm.trans hfirst)
            exact hunstopped _ rfl page rfl
          | later hfirst hmore =>
            obtain rfl := Except.ok.inj (hsearch.symm.trans hfirst)
            simp [hnext] at hmore
        · intro hwhole found hok last hlast
          obtain rfl := Option.some.inj hlast
          exact hwhole _ (.first hsearch)
        · intro hunstopped found hok
          obtain rfl := Except.ok.inj hok
          rw [hpage.last hnext (hunstopped _ rfl page rfl)]
      | some next =>
        by_cases htruncated : page.truncated = true
        · have hstopped : ¬ Unstopped ⟨.ok (collected ++ page.objects), some page⟩ := by
            intro hunstopped
            simp [hunstopped _ rfl page rfl] at htruncated
          refine ⟨⟨.ok (collected ++ page.objects), some page⟩,
            by simp [searchFrom, hsearch, hnext, htruncated], iff_of_false hstopped ?_,
            fun hunstopped => absurd hunstopped hstopped⟩
          intro hwhole
          simp [hwhole page (.first hsearch)] at htruncated
        · obtain ⟨hsplit, hpos⟩ := remaining_next hobeys hpage hnext
          have hshorter : (remaining objects { query with cursor := some next }).length < fuel := by
            have := congrArg List.length hsplit
            simp only [List.length_append] at this
            omega
          obtain ⟨walk, hwalk, hiff, hfound⟩ := ih (number + 1) (some next)
            (collected ++ page.objects) hshorter
          refine ⟨walk, by simpa [searchFrom, hsearch, hnext, htruncated] using hwalk, ?_, ?_⟩
          · rw [hiff]
            constructor
            · intro hrest page' hchained
              cases hchained with
              | first hfirst =>
                obtain rfl : page = page' := Except.ok.inj (hsearch.symm.trans hfirst)
                simpa using htruncated
              | later hfirst hmore hlater =>
                obtain rfl := Except.ok.inj (hsearch.symm.trans hfirst)
                obtain rfl := Option.some.inj (hnext.symm.trans hmore)
                exact hrest page' hlater
            · intro hwhole page' hchained
              exact hwhole page' (.later hsearch hnext hchained)
          · intro hunstopped found hok
            rw [hfound hunstopped found hok, hsplit, List.append_assoc]

/-- Every object the query matches beyond its cursor, each of them once. -/
structure Complete (objects : List ObjectMetadata) (query : ObjectQuery)
    (found : List ObjectMetadata) : Prop where
  once : found.Nodup
  every : ∀ metadata, metadata ∈ found ↔ metadata ∈ objects ∧ query.matches metadata = true ∧
    ∀ cursor, query.cursor = some cursor → cursor < metadata.id

theorem remaining_complete (h : Ascending (·.id) objects) (query : ObjectQuery) :
    Complete objects query (remaining objects query) := by
  constructor
  · have hascending := (h.filter query.matches).beyond query.cursor
    exact hascending.imp fun hlt heq => ne_of_lt hlt (congrArg ObjectMetadata.id heq)
  · intro metadata
    rw [remaining, mem_beyond, List.mem_filter, and_assoc]

/-- A walk always ends, and its result is complete and not read off a truncated page
exactly where none of the pages the daemon chains together is truncated. -/
theorem searchObjectsAll_complete (hobeys : client.Obeys daemon objects query) (fuel : Nat)
    (hfuel : (remaining objects query).length < fuel) :
    ∃ walk, client.searchObjectsAll daemon fuel query = some walk ∧
      ((∀ found, walk.result = .ok found → Complete objects query found ∧
          ∀ page, walk.stoppedAt = some page → page.truncated = false) ↔
        ∀ page, client.Chained daemon query 0 query.cursor page → page.truncated = false) := by
  obtain ⟨walk, hwalk, hiff, hfound⟩ := searchFrom_delivers hobeys fuel 0 query.cursor [] hfuel
  refine ⟨walk, hwalk, ?_⟩
  rw [← hiff]
  constructor
  · intro h found hok
    exact (h found hok).2
  · intro hunstopped found hok
    refine ⟨?_, hunstopped found hok⟩
    rw [hfound hunstopped found hok]
    exact remaining_complete hobeys.ascending query

/-- Two files behind a daemon that stops its first page early, at the first of them. -/
def earlier : ObjectMetadata := ⟨"blake3:0a", "file", "text/plain", some "a.txt", 5, 1000⟩

def later : ObjectMetadata := ⟨"blake3:0b", "file", "text/plain", some "b.txt", 5, 2000⟩

def cutPage : ObjectPage := ⟨[earlier], some earlier.id, true⟩

def lastPage : ObjectPage := ⟨[later], none, false⟩

def cutDaemon : Daemon := fun _ request =>
  match request.query.lookup "cursor" with
  | none => .response ⟨200, .ok "cut"⟩
  | some cursor =>
    if cursor = earlier.id then .response ⟨200, .ok "last"⟩ else .response ⟨400, .ok ""⟩

def plainClient : HologramClient where
  base := "http://127.0.0.1:11435"
  token := none
  parsePage body := .ok (if body = "cut" then cutPage else lastPage)
  parseApiError _ := none

theorem cutDaemon_answers (number : Nat) (cursor : Option String) :
    plainClient.searchObjects cutDaemon number { cursor := cursor } =
      match cursor with
      | none => .ok cutPage
      | some cursor =>
        if cursor = earlier.id then .ok lastPage else .error (.api "HTTP_400" "") := by
  cases cursor with
  | none => rfl
  | some cursor =>
    by_cases hcursor : cursor = earlier.id
    · subst hcursor
      rfl
    · have hrefused : cutDaemon number ⟨plainClient.base ++ "/api/v1/objects/search",
          toPairs { cursor := some cursor }, none⟩ = .response ⟨400, .ok ""⟩ := by
        simp [cutDaemon, toPairs, hcursor]
      have hsent : plainClient.send (.response ⟨400, .ok ""⟩) =
          .error (.api "HTTP_400" "") := by rfl
      dsimp only [searchObjects]
      rw [show plainClient.token = none from rfl, hrefused, hsent, if_neg hcursor]

theorem cutDaemon_obeys : plainClient.Obeys cutDaemon [earlier, later] {} := by
  refine ⟨List.pairwise_pair.mpr (by decide), fun number cursor page hpage => ?_⟩
  rw [cutDaemon_answers] at hpage
  cases cursor with
  | none =>
    obtain rfl := Except.ok.inj hpage
    exact ⟨by decide, by decide, by decide⟩
  | some cursor =>
    by_cases hcursor : cursor = earlier.id
    · subst hcursor
      obtain rfl := Except.ok.inj ((if_pos rfl).symm.trans hpage)
      exact ⟨by decide, by decide, by decide⟩
    · simp [hcursor] at hpage

/-- The result of a walk that stopped at the truncated page misses the second file. -/
theorem truncated_page_ends_the_walk :
    plainClient.Obeys cutDaemon [earlier, later] {} ∧
      plainClient.searchObjectsAll cutDaemon 3 {} = some ⟨.ok [earlier], some cutPage⟩ ∧
      cutPage.truncated = true ∧ ¬ Complete [earlier, later] {} [earlier] := by
  refine ⟨cutDaemon_obeys, ?_, rfl, fun hcomplete => ?_⟩
  · simp only [searchObjectsAll, searchFrom, cutDaemon_answers]
    rfl
  · have hlater := (hcomplete.every later).mpr (by decide)
    exact absurd hlater (by decide)

theorem searchObjectsAll_complete_cut :
    ∃ walk, plainClient.searchObjectsAll cutDaemon 3 {} = some walk ∧
      ((∀ found, walk.result = .ok found → Complete [earlier, later] {} found ∧
          ∀ page, walk.stoppedAt = some page → page.truncated = false) ↔
        ∀ page, plainClient.Chained cutDaemon {} 0 none page → page.truncated = false) :=
  searchObjectsAll_complete cutDaemon_obeys 3 (by decide)

end HologramClient

end HologramLive
