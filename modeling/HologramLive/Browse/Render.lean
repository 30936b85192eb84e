import HologramLive.Lib.Pieces
import HologramLive.Lib.Sorting
import HologramLive.Lib.Urlencoded
import Mathlib.Algebra.GroupWithZero.Nat
import Mathlib.Data.List.Infix
import Mathlib.Data.String.Basic
import Mathlib.Order.Defs.LinearOrder

/-! Browsing a catalog of models: the facets, the state of the page, and what a query finds. -/

namespace HologramLive.Browse
open Lib Lib.Urlencoded

def pageSize : Nat := 42

inductive SortKey where
  | trending
  | downloads
  | likes
  | newest
  | size
  deriving DecidableEq

def sorts : List (String × SortKey) :=
  [("trending", .trending), ("downloads", .downloads), ("likes", .likes), ("newest", .newest),
    ("size", .size)]

inductive Tab where
  | main
  | arch
  | language
  | format
  | library
  | license
  deriving DecidableEq

def tabs : List (String × Tab) :=
  [("main", .main), ("arch", .arch), ("language", .language), ("format", .format),
    ("library", .library), ("license", .license)]

/-- A facet, by the field of a model that it is about. -/
inductive Facet where
  | modality
  | bucket
  | family
  | stateLabel
  | sources
  | recency
  | arch
  | languages
  | format
  | library
  | license
  deriving DecidableEq

def recencies : List (String × Nat) :=
  [("Last 30 days", 30), ("90 days", 90), ("6 months", 183), ("1 year", 365)]

namespace Facet

def all : List Facet :=
  [modality, bucket, family, stateLabel, sources, recency, arch, languages, format, library, license]

def param : Facet → String
  | modality => "modality"
  | bucket => "size"
  | family => "family"
  | stateLabel => "status"
  | sources => "source"
  | recency => "released"
  | arch => "arch"
  | languages => "language"
  | format => "format"
  | library => "library"
  | license => "license"

def fixed : Facet → Option (List String)
  | bucket => some ["Under 1B", "1 to 3B", "4 to 9B", "10 to 20B", "21 to 40B", "41 to 100B",
      "101 to 300B", "Over 300B"]
  | stateLabel => some ["Verified", "Queued", "Unverified"]
  | recency => some (recencies.map Prod.fst)
  | _ => none

theorem mem_all (facet : Facet) : facet ∈ all := by
  cases facet <;> decide

end Facet

/-- A field of a model: none, a value that is no array, as its text, or an array. -/
inductive Field where
  | missing
  | scalar (text : String) (truthy : Bool)
  | many (values : List String)

namespace Field

/-- `valuesOf`. -/
def values : Field → List String
  | missing => []
  | scalar text _ => [text]
  | many values => values

/-- `m.arch || ""`, as it is put into a text. -/
def orEmpty : Field → String
  | missing => ""
  | scalar text truthy => if truthy then text else ""
  | many values => ",".intercalate values

end Field

structure Model (ν : Type) where
  id : String
  state : Option String
  fields : Facet → Field
  rank : Option ν
  downloads : Option ν
  likes : Option ν
  params : Option ν
  created : Option String

/-- The page counts in whatever the numbers are. -/
structure State (π : Type) where
  q : String
  sort : SortKey
  page : π
  tab : Tab
  f : Facet → List String

/-- A facet's selection is replaced. -/
def select {π : Type} (state : State π) (facet : Facet) (values : List String) : State π :=
  { state with f := fun other => if other = facet then values else state.f other }

/-- What the page takes from the language. Texts are compared in an order. -/
structure Engine where
  toLowerCase : String → String
  splitBlanks : String → List String
  localeCompare : String → String → Ordering
  /-- Whether a day is at most so many days before another. -/
  within : String → String → Nat → Bool
  locale : ∀ texts, Sorting.Consistent localeCompare texts

/-- An engine that compares texts by their code points, and takes no day for a near one. -/
def Engine.codePoints : Engine where
  toLowerCase := String.toLower
  splitBlanks text := (Pieces.pieces ' ' text.toList).map String.ofList
  localeCompare := compare
  within _ _ _ := false
  locale texts := .of_key id texts

section Query
variable {ν π : Type} [LinearOrder ν] [Zero ν] (engine : Engine) (sorter : Sorting.Sorter)

def stateLabel : String → Option String
  | "addressed" => some "Verified"
  | "pending" => some "Queued"
  | "skipped" => some "Unverified"
  | _ => none

def prepare (snapshot : String) (models : List (Model ν)) : List (Model ν) :=
  models.map fun m =>
    let label := match m.state.bind stateLabel with
      | some text => .scalar text true
      | none => .missing
    let recency := .many <| (recencies.filter fun recency =>
      m.created.any fun created => created ≠ "" && engine.within snapshot created recency.2).map Prod.fst
    { m with fields := fun facet => match facet with
        | .stateLabel => label
        | .recency => recency
        | other => m.fields other }

def includes (text part : String) : Bool := part.toList <:+: text.toList

def matchesText (m : Model ν) (q : String) : Bool :=
  q = "" || (engine.splitBlanks (engine.toLowerCase q)).all (includes (engine.toLowerCase
    s!"{m.id} {(m.fields .arch).orEmpty} {(m.fields .family).orEmpty}"))

def selects (m : Model ν) (f : Facet → List String) (facet : Facet) : Bool :=
  (f facet).isEmpty || (m.fields facet).values.any fun value => (f facet).contains value

/-- `matches`. -/
def matchesState (m : Model ν) (state : State π) (skip : Option Facet) : Bool :=
  matchesText engine m state.q &&
    Facet.all.all fun facet => skip = some facet || selects m state.f facet

/-- The sign of a difference. With a number missing it is none, which sorting takes for zero. -/
def difference (left right : Option ν) : Ordering :=
  match left, right with
  | some left, some right => compare left right
  | _, _ => .eq

def compareBy (sort : SortKey) (left right : Model ν) : Ordering :=
  match sort with
  | .trending => difference left.rank right.rank
  | .downloads => difference right.downloads left.downloads
  | .likes => difference right.likes left.likes
  | .newest => engine.localeCompare (right.created.getD "") (left.created.getD "")
  | .size => difference (some (right.params.getD 0)) (some (left.params.getD 0))

/-- `counts.set(v, (counts.get(v) || 0) + …)`. -/
def bump (counts : List (String × Nat)) (value : String) (more : Nat) : List (String × Nat) :=
  if counts.any (·.1 = value) then
    counts.map fun entry => if entry.1 = value then (value, entry.2 + more) else entry
  else counts ++ [(value, more)]

def countModel (state : State π) (facet : Facet) (counts : List (String × Nat)) (m : Model ν) :
    List (String × Nat) :=
  let hit := matchesState engine m state (some facet)
  (m.fields facet).values.foldl (fun counts value =>
    if facet = .modality && value = "Other" then counts
    else bump counts value (if hit then 1 else 0)) counts

def facetCounts (models : List (Model ν)) (state : State π) (facet : Facet) : List (String × Nat) :=
  models.foldl (countModel engine state facet) ((facet.fixed.getD []).map fun value => (value, 0))

/-- How the values of a facet are listed: in their fixed order, by name, or by number and name. -/
def compareEntries (facet : Facet) (az : Bool) (left right : String × Nat) : Ordering :=
  match facet.fixed with
  | some fixed => compare (fixed.idxOf? left.1) (fixed.idxOf? right.1)
  | none =>
    if az then engine.localeCompare left.1 right.1
    else (compare right.2 left.2).then (engine.localeCompare left.1 right.1)

def facetValues (models : List (Model ν)) (state : State π) (order : Facet → Bool) (facet : Facet) :
    List (String × Nat) :=
  sorter.sort (compareEntries engine facet (order facet))
    ((facetCounts engine models state facet).filter fun entry =>
      0 < entry.2 || (state.f facet).contains entry.1)

def results (models : List (Model ν)) (state : State π) : List (Model ν) :=
  sorter.sort (compareBy engine state.sort) (models.filter fun m => matchesState engine m state none)

def pagesOf (count : Nat) : Nat := max 1 ((count + pageSize - 1) / pageSize)

structure Result (ν : Type) where
  results : List (Model ν)
  facets : List (Facet × List (String × Nat))
  pages : Nat
  page : Nat
  slice : List (Model ν)

def query (models : List (Model ν)) (state : State Nat) (order : Facet → Bool) : Result ν :=
  let results := results engine sorter models state
  let pages := pagesOf results.length
  let page := min state.page pages
  { results
    facets := Facet.all.map fun facet => (facet, facetValues engine sorter models state order facet)
    pages
    page
    slice := (results.take (page * pageSize)).drop ((page - 1) * pageSize) }

end Query

/-- The numbers that pages are counted in, from one on. Their texts are read as what they were. -/
structure Numbers where
  Number : Type
  one : Number
  ofNat : Nat → Number
  beyondOne : Number → Bool
  /-- `Math.max(1, Number(text) || 1)`. -/
  parse : String → Number
  print : Number → String
  one_of_not_beyond : ∀ number, beyondOne number = false → number = one
  parse_print : ∀ number, parse (print number) = number

section Address
variable (numbers : Numbers)

def get (pairs : List (String × String)) (name : String) : String := (pairs.lookup name).getD ""

/-- `v.split(",").filter(Boolean)`. -/
def splitValues (text : String) : List String := (Pieces.pieces ',' text.toList).map String.ofList

/-- `join(",")`. -/
def joinValues (values : List String) : String :=
  String.ofList ([','].intercalate (values.map String.toList))

/-- Search strings are taken as the bytes they are in UTF-8. -/
def parseState (search : Bytes) : State numbers.Number :=
  let p := Urlencoded.parse (if search.head? = some 0x3f then search.drop 1 else search)
  { q := get p "q"
    sort := (sorts.lookup (get p "sort")).getD .trending
    page := match p.lookup "page" with
      | some text => numbers.parse text
      | none => numbers.one
    tab := (tabs.lookup (get p "tab")).getD .main
    f := fun facet => splitValues (get p facet.param) }

def sortName (sort : SortKey) : String := ((sorts.find? (·.2 = sort)).map Prod.fst).getD ""

def tabName (tab : Tab) : String := ((tabs.find? (·.2 = tab)).map Prod.fst).getD ""

def pairs (state : State numbers.Number) : List (String × String) :=
  (if state.q = "" then [] else [("q", state.q)]) ++
  (if state.sort = .trending then [] else [("sort", sortName state.sort)]) ++
  (Facet.all.filterMap fun facet =>
    if (state.f facet).isEmpty then none else some (facet.param, joinValues (state.f facet))) ++
  (if state.tab = .main then [] else [("tab", tabName state.tab)]) ++
  (if numbers.beyondOne state.page then [("page", numbers.print state.page)] else [])

/-- `replace(/%2C/g, ",")`. -/
def plainCommas : Bytes → Bytes
  | 0x25 :: 0x32 :: 0x43 :: rest => 0x2c :: plainCommas rest
  | byte :: rest => byte :: plainCommas rest
  | [] => []

/-- `replace(/\+/g, "%20")`. -/
def percentSpaces (bytes : Bytes) : Bytes :=
  bytes.flatMap fun byte => if byte = 0x2b then [0x25, 0x32, 0x30] else [byte]

def stateToSearch (state : State numbers.Number) : Bytes :=
  let s := percentSpaces (plainCommas (serialize (pairs numbers state)))
  if s.isEmpty then [] else 0x3f :: s

end Address
end HologramLive.Browse
