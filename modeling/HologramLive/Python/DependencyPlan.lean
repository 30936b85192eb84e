import HologramLive.Artifact.Reference
import HologramLive.Lib.Result
import HologramLive.Lib.Sorting
import HologramLive.Lib.Toml
import HologramLive.Lib.Worklist
import Mathlib.Data.List.FinRange

/-! The packages that a locked Python project depends on, each with the wheel it is installed from. -/

namespace HologramLive.Python.DependencyPlan
open Lib Lib.Toml Lib.Toml.Value Lib.Result

structure PortableDependency where
  name : String
  version : String
  wheelUrl : String
  sha256 : String

def malformedPackage (lockPath detail : String) : LiveError :=
  .config s!"Python lock file {lockPath} contains an invalid package record: {detail}"

def unsupportedDependency (name detail : String) : LiveError :=
  .capability (s!"Python wasi-component dependency {name} {detail}." ++
    " Use profile rootfs for native or source-only dependencies")

/-! ### Wheels -/

def stripSuffix (ending text : List Char) : Option (List Char) :=
  if ending <:+ text then some (text.take (text.length - ending.length)) else none

/-- The rank of a wheel for any platform, by its file name. -/
def portableWheelRank (filename : List Char) : Option Nat := do
  let stem ← stripSuffix ".whl".toList filename
  match (stem.splitOn '-').reverse with
  | platform :: abi :: python :: _ =>
    if platform ≠ "any".toList ∨ abi ≠ "none".toList then none
    else if (python.splitOn '.').any (· = "py3".toList) then
      some (if python = "py3".toList then 2 else 1)
    else none
  | _ => none

/-- The last part of an address before its query. -/
def filename (url : String) : List Char :=
  ((url.toList.takeWhile (· ≠ '?')).reverse.takeWhile (· ≠ '/')).reverse

structure Candidate where
  rank : Nat
  url : String
  sha256 : String

/-- A wheel that can be installed anywhere and is fetched and checked as it is pinned. -/
def candidate (wheel : Value) : Option Candidate := do
  let url ← (find ["url"] wheel).bind asStr
  let rank ← portableWheelRank (filename url)
  let hash ← (find ["hash"] wheel).bind asStr
  let sha256 ← Artifact.stripPrefix "sha256:".toList hash.toList
  if ¬ "https://".toList <+: url.toList ∨ url.toList.any Store.isWhitespace = true ∨
      sha256.length ≠ 64 ∨ ¬ sha256.all Store.isAsciiHexDigit = true then none
  else some ⟨rank, url, String.ofList sha256⟩

/-- Higher ranks first, and addresses in order among equals. -/
def Candidate.before (left right : Candidate) : Prop :=
  right.rank < left.rank ∨ left.rank = right.rank ∧ left.url ≤ right.url

instance : DecidableRel Candidate.before := fun _ _ => inferInstanceAs (Decidable (_ ∨ _))

/-- A wheel from a pinned address, whose file name fits any platform. -/
structure Pinned (wheel : Value) (pinned : Candidate) : Prop where
  url : (find ["url"] wheel).bind asStr = some pinned.url
  rank : portableWheelRank (filename pinned.url) = some pinned.rank
  hash : (find ["hash"] wheel).bind asStr = some ("sha256:" ++ pinned.sha256)
  https : "https://".toList <+: pinned.url.toList
  unbroken : pinned.url.toList.any Store.isWhitespace = false
  digest : Store.ValidDigest pinned.sha256

theorem stripPrefix_eq_some {start text rest : List Char} :
    Artifact.stripPrefix start text = some rest ↔ text = start ++ rest := by
  rw [Artifact.stripPrefix]
  constructor
  · intro h
    split at h
    · rename_i hstart
      obtain ⟨tail, rfl⟩ := hstart
      rw [List.drop_left] at h
      rw [Option.some.inj h]
    · cases h
  · rintro rfl
    rw [if_pos (List.prefix_append _ _), List.drop_left]

theorem candidate_eq_some {wheel : Value} {pinned : Candidate} :
    candidate wheel = some pinned ↔ Pinned wheel pinned := by
  constructor
  · intro h
    simp only [candidate, Option.bind_eq_bind, Option.bind_eq_some_iff] at h
    obtain ⟨url, hurl, rank, hrank, hash, hhash, sha256, hsha256, hrest⟩ := h
    split at hrest
    · cases hrest
    · rename_i hchecks
      obtain rfl := Option.some.inj hrest
      simp only [not_or, not_not] at hchecks
      obtain ⟨hhttps, hunbroken, hlength, hhex⟩ := hchecks
      refine ⟨Option.bind_eq_some_iff.mpr hurl, hrank, ?_, hhttps, by simpa using hunbroken, ?_⟩
      · rw [Option.bind_eq_some_iff]
        have htext : hash = "sha256:" ++ String.ofList sha256 := by
          refine String.toList_inj.mp ((stripPrefix_eq_some.mp hsha256).trans ?_)
          rw [String.toList_append]
          exact congrArg ("sha256:".toList ++ ·) String.toList_ofList.symm
        exact htext ▸ hhash
      · rw [Store.ValidDigest, String.toList_ofList]
        exact ⟨hlength, hhex⟩
  · intro h
    have hsha256 : Artifact.stripPrefix "sha256:".toList ("sha256:" ++ pinned.sha256).toList =
        some pinned.sha256.toList := by
      rw [stripPrefix_eq_some, String.toList_append]
    obtain ⟨hlength, hhex⟩ := h.digest
    have hchecks : ¬ (¬ "https://".toList <+: pinned.url.toList ∨
        pinned.url.toList.any Store.isWhitespace = true ∨ pinned.sha256.toList.length ≠ 64 ∨
        ¬ pinned.sha256.toList.all Store.isAsciiHexDigit = true) := by
      simp only [h.https, h.unbroken, hlength, hhex, not_true_eq_false, ne_eq, or_self,
        Bool.false_eq_true, not_false_eq_true]
    simp only [candidate, h.url, h.rank, h.hash, hsha256, Option.bind_eq_bind, Option.bind_some]
    rw [if_neg hchecks, String.ofList_toList]

theorem before_total (left right : Candidate) : left.before right ∨ right.before left := by
  unfold Candidate.before
  rcases lt_trichotomy left.rank right.rank with hlt | heq | hgt
  · exact .inr (.inl hlt)
  · rcases le_total left.url right.url with hle | hge
    · exact .inl (.inr ⟨heq, hle⟩)
    · exact .inr (.inr ⟨heq.symm, hge⟩)
  · exact .inl (.inl hgt)

theorem before_trans {first second third : Candidate} (h : first.before second)
    (hafter : second.before third) : first.before third := by
  unfold Candidate.before at *
  rcases h with hlt | ⟨heq, hle⟩
  · rcases hafter with hlt' | ⟨heq', -⟩
    · exact .inl (hlt'.trans hlt)
    · exact .inl (heq' ▸ hlt)
  · rcases hafter with hlt' | ⟨heq', hle'⟩
    · exact .inl (heq ▸ hlt')
    · exact .inr ⟨heq.trans heq', hle.trans hle'⟩

/-- The candidate that is chosen is one of the highest rank. -/
theorem best_spec {candidates : List Candidate} {best : Candidate}
    (h : (candidates.insertionSort Candidate.before).head? = some best) :
    best ∈ candidates ∧ ∀ other ∈ candidates, other.rank ≤ best.rank := by
  have : Std.Total Candidate.before := ⟨before_total⟩
  have : IsTrans Candidate Candidate.before := ⟨fun _ _ _ => before_trans⟩
  have hsorted := List.pairwise_insertionSort Candidate.before candidates
  have hmem : ∀ other, other ∈ candidates.insertionSort Candidate.before ↔ other ∈ candidates :=
    fun _ => (List.perm_insertionSort _ candidates).mem_iff
  cases hlist : candidates.insertionSort Candidate.before with
  | nil =>
    rw [hlist] at h
    cases h
  | cons first rest =>
    rw [hlist] at h hsorted hmem
    obtain rfl := Option.some.inj h
    refine ⟨(hmem first).mp List.mem_cons_self, fun other hother => ?_⟩
    rcases List.mem_cons.mp ((hmem other).mpr hother) with rfl | hrest
    · exact le_rfl
    · rcases (List.pairwise_cons.mp hsorted).1 other hrest with hlt | ⟨heq, -⟩
      · exact hlt.le
      · exact heq.symm.le

/-! ### Packages -/

def isAsciiAlphanumeric (c : Char) : Bool :=
  ('0' ≤ c && c ≤ '9') || ('a' ≤ c && c ≤ 'z') || ('A' ≤ c && c ≤ 'Z')

def validPackageName (name : String) : Bool :=
  name.toList ≠ [] &&
    name.toList.all (fun c => isAsciiAlphanumeric c || c = '-' || c = '_' || c = '.') &&
    name.toList.head?.any isAsciiAlphanumeric && name.toList.getLast?.any isAsciiAlphanumeric

def portableDependency (lockPath : String) (package : Value) : Except LiveError PortableDependency :=
  match (find ["name"] package).bind asStr with
  | none => .error (malformedPackage lockPath "package has no name")
  | some name =>
    match (find ["version"] package).bind asStr with
    | none => .error (malformedPackage lockPath s!"package {name} has no version")
    | some version =>
      if ¬ validPackageName name ∨ version = "" ∨ version.toList.any Store.isWhitespace then
        .error (malformedPackage lockPath s!"package {name} has an unsafe name or version")
      else if ((find ["source", "registry"] package).bind asStr).isNone then
        .error (unsupportedDependency name "is not pinned to a package registry")
      else
        match (find ["wheels"] package).bind asArray with
        | none => .error (unsupportedDependency name "has no locked wheel artifacts")
        | some wheels =>
          match ((wheels.filterMap candidate).insertionSort Candidate.before).head? with
          | none => .error (unsupportedDependency name <|
              "has no HTTPS, SHA-256-pinned Python 3 platform-independent wheel (*-none-any.whl)")
          | some best => .ok ⟨name, version, best.url, best.sha256⟩

/-- A package of a registry with a name and a version to be installed under, and the wheels
that are locked for it. -/
structure Released (package : Value) (name version : String) (wheels : List Value) : Prop where
  named : (find ["name"] package).bind asStr = some name
  versioned : (find ["version"] package).bind asStr = some version
  safeName : validPackageName name = true
  safeVersion : version ≠ "" ∧ version.toList.any Store.isWhitespace = false
  pinned : ((find ["source", "registry"] package).bind asStr).isNone = false
  locked : (find ["wheels"] package).bind asArray = some wheels

/-- The package has a wheel to be installed from. -/
def Portable (package : Value) : Prop :=
  ∃ name version wheels, Released package name version wheels ∧
    ∃ wheel ∈ wheels, ∃ pinned, Pinned wheel pinned

/-- An entry for the package, with a wheel of the highest rank. -/
def Offers (package : Value) (dependency : PortableDependency) : Prop :=
  ∃ wheels, Released package dependency.name dependency.version wheels ∧
    ∃ wheel ∈ wheels, ∃ pinned, Pinned wheel pinned ∧ dependency.wheelUrl = pinned.url ∧
      dependency.sha256 = pinned.sha256 ∧
      ∀ wheel ∈ wheels, ∀ other, Pinned wheel other → other.rank ≤ pinned.rank

theorem Released.dependency_eq {lockPath : String} {package : Value} {name version : String}
    {wheels : List Value} (h : Released package name version wheels) :
    portableDependency lockPath package =
      match ((wheels.filterMap candidate).insertionSort Candidate.before).head? with
      | none => .error (unsupportedDependency name
          "has no HTTPS, SHA-256-pinned Python 3 platform-independent wheel (*-none-any.whl)")
      | some best => .ok ⟨name, version, best.url, best.sha256⟩ := by
  have hunsafe : ¬ (¬ validPackageName name = true ∨ version = "" ∨
      version.toList.any Store.isWhitespace = true) := by
    simp only [h.safeName, h.safeVersion, not_true_eq_false, Bool.false_eq_true, or_self,
      not_false_eq_true]
  have hregistry : ¬ ((find ["source", "registry"] package).bind asStr).isNone = true := by
    simp only [h.pinned, Bool.false_eq_true, not_false_eq_true]
  rw [portableDependency, h.named]
  dsimp only
  rw [h.versioned]
  dsimp only
  rw [if_neg hunsafe, if_neg hregistry, h.locked]

theorem portableDependency_released {lockPath : String} {package : Value}
    {dependency : PortableDependency} (h : portableDependency lockPath package = .ok dependency) :
    ∃ wheels, Released package dependency.name dependency.version wheels := by
  rw [portableDependency] at h
  cases hname : (find ["name"] package).bind asStr with
  | none =>
    rw [hname] at h
    cases h
  | some name =>
    cases hversion : (find ["version"] package).bind asStr with
    | none =>
      rw [hname, hversion] at h
      cases h
    | some version =>
      rw [hname, hversion] at h
      dsimp only at h
      obtain ⟨hsafe, h⟩ := guard_ok.mp h
      obtain ⟨hregistry, h⟩ := guard_ok.mp h
      cases hwheels : (find ["wheels"] package).bind asArray with
      | none =>
        rw [hwheels] at h
        cases h
      | some wheels =>
        rw [hwheels] at h
        dsimp only at h
        simp only [not_or, not_not] at hsafe
        cases hbest : ((wheels.filterMap candidate).insertionSort Candidate.before).head? with
        | none =>
          rw [hbest] at h
          cases h
        | some best =>
          rw [hbest] at h
          obtain rfl := Except.ok.inj h
          exact ⟨wheels, hname, hversion, hsafe.1, ⟨hsafe.2.1, eq_false_of_ne_true hsafe.2.2⟩,
            eq_false_of_ne_true hregistry, hwheels⟩

theorem portableDependency_offers {lockPath : String} {package : Value}
    {dependency : PortableDependency} (h : portableDependency lockPath package = .ok dependency) :
    Offers package dependency := by
  obtain ⟨wheels, hreleased⟩ := portableDependency_released h
  rw [hreleased.dependency_eq] at h
  cases hbest : ((wheels.filterMap candidate).insertionSort Candidate.before).head? with
  | none =>
    rw [hbest] at h
    cases h
  | some best =>
    rw [hbest] at h
    obtain ⟨hmem, hhighest⟩ := best_spec hbest
    obtain ⟨wheel, hwheel, hpinned⟩ := List.mem_filterMap.mp hmem
    have hentry := Except.ok.inj h
    refine ⟨wheels, hreleased, wheel, hwheel, best, candidate_eq_some.mp hpinned, ?_, ?_, ?_⟩
    · rw [← hentry]
    · rw [← hentry]
    · intro other hother pinned hothers
      exact hhighest pinned (List.mem_filterMap.mpr ⟨other, hother, candidate_eq_some.mpr hothers⟩)

theorem portable_iff {lockPath : String} {package : Value} :
    (∃ dependency, portableDependency lockPath package = .ok dependency) ↔ Portable package := by
  constructor
  · rintro ⟨dependency, h⟩
    obtain ⟨wheels, hreleased, wheel, hwheel, pinned, hpinned, -⟩ := portableDependency_offers h
    exact ⟨_, _, wheels, hreleased, wheel, hwheel, pinned, hpinned⟩
  · rintro ⟨name, version, wheels, hreleased, wheel, hwheel, pinned, hpinned⟩
    rw [hreleased.dependency_eq]
    have hmem := List.mem_filterMap.mpr ⟨wheel, hwheel, candidate_eq_some.mpr hpinned⟩
    cases hbest : ((wheels.filterMap candidate).insertionSort Candidate.before).head? with
    | none =>
      have hsorted := (List.perm_insertionSort Candidate.before _).mem_iff.mpr hmem
      rw [List.head?_eq_none_iff.mp hbest] at hsorted
      cases hsorted
    | some best => exact ⟨_, rfl⟩

def packageDependencies (lockPath : String) (package : Value) : Except LiveError (List Value) :=
  match find ["dependencies"] package with
  | none => .ok []
  | some value =>
    match value.asArray with
    | none => .error (malformedPackage lockPath "package dependencies must be an array")
    | some dependencies =>
      if dependencies.any fun dependency => ((find ["name"] dependency).bind asStr).isNone then
        .error (malformedPackage lockPath "dependency reference has no name")
      else .ok dependencies

/-- An order in which the elements of a hash set are gone through. -/
structure Iteration where
  order : ∀ {α : Type}, List α → List α
  perm : ∀ {α : Type} (list : List α), (order list).Perm list

section Plan
-- `equal` compares two values of a document
variable (equal : Value → Value → Bool) (lockPath : String)

/-- The records a reference with this name may mean. -/
def matching (packages : List Value) (project : Fin packages.length) (reference : Value)
    (name : String) : List (Fin packages.length) :=
  (List.finRange packages.length).filter fun index =>
    index ≠ project && (find ["name"] packages[index]).bind asStr = some name &&
      (find ["version"] reference).all (fun value =>
        (find ["version"] packages[index]).any (equal · value)) &&
      (find ["source"] reference).all fun value =>
        (find ["source"] packages[index]).any (equal · value)

def resolveDependency (packages : List Value) (project : Fin packages.length) (reference : Value) :
    Except LiveError (Fin packages.length) :=
  match (find ["name"] reference).bind asStr with
  -- the list that a reference stands in has been checked for names
  | none => .error (.config "package_dependencies validates names")
  | some name =>
    match matching equal packages project reference name with
    | [index] => .ok index
    | [] => .error (.config <|
        s!"Python lock file {lockPath} dependency {name} does not resolve to a package record")
    | _ => .error (.config (s!"Python lock file {lockPath} dependency {name} " ++
        "resolves ambiguously; lock forks must identify version and source"))

/-- The records of a project that is edited where it stands. -/
def projects (packages : List Value) : List (Fin packages.length) :=
  (List.finRange packages.length).filter fun index =>
    (find ["source", "editable"] packages[index]).bind asStr = some "."

def planPackages (iteration : Iteration) (packages : List Value)
    (project : Fin packages.length) : Except LiveError (List PortableDependency) := do
  let queue ← packageDependencies lockPath packages[project]
  let visited ← Worklist.explore (resolveDependency equal lockPath packages project)
    (fun index => packageDependencies lockPath packages[index]) [] queue
  let dependencies ← (iteration.order visited).mapM fun index =>
    portableDependency lockPath packages[index]
  .ok (dependencies.insertionSort fun left right => left.name ≤ right.name)

def dependencyPlan (iteration : Iteration) (lock : Value) :
    Except LiveError (List PortableDependency) :=
  if (find ["version"] lock).bind asInteger ≠ some 1 then
    .error (.config s!"Python lock file {lockPath} must use supported uv.lock format version 1")
  else
    match ((find ["revision"] lock).bind asInteger).filter fun revision =>
      ¬ (1 ≤ revision ∧ revision ≤ 3) with
    | some revision =>
      .error (.config (s!"Python lock file {lockPath} uses unsupported uv.lock revision " ++
        s!"{revision}; supported revisions are 1 through 3"))
    | none =>
      match (find ["package"] lock).bind asArray with
      | none => .error (.config s!"Python lock file {lockPath} has no package records")
      | some packages =>
        match projects packages with
        | [project] => planPackages equal lockPath iteration packages project
        | _ => .error (.config
            s!"Python lock file {lockPath} must contain exactly one editable project")

end Plan

/-! ### What a lock must be for a plan -/

section Spec
variable (equal : Value → Value → Bool) (packages : List Value) (project : Fin packages.length)

/-- The reference means one record and no other. -/
def Means (reference : Value) (index : Fin packages.length) : Prop :=
  ∃ name, (find ["name"] reference).bind asStr = some name ∧
    matching equal packages project reference name = [index]

/-- The references of a package, each with a name. -/
def References (package : Value) (references : List Value) : Prop :=
  find ["dependencies"] package = none ∧ references = [] ∨
    (find ["dependencies"] package).bind asArray = some references ∧
      ∀ reference ∈ references, ((find ["name"] reference).bind asStr).isSome

def Depends (index other : Fin packages.length) : Prop :=
  ∃ references, References packages[index] references ∧
    ∃ reference ∈ references, Means equal packages project reference other

/-- The packages that the project depends on, directly or through others. -/
def Reachable : Fin packages.length → Prop := Relation.TransGen (Depends equal packages project) project

/-- Every reference of the package means one record. -/
def Settled (index : Fin packages.length) : Prop :=
  ∃ references, References packages[index] references ∧
    ∀ reference ∈ references, ∃ other, Means equal packages project reference other

end Spec

/-- A lock of a known format with one project among its packages. -/
structure Locks (lock : Value) (packages : List Value) (project : Fin packages.length) : Prop where
  version : (find ["version"] lock).bind asInteger = some 1
  revision : ∀ revision, (find ["revision"] lock).bind asInteger = some revision →
    1 ≤ revision ∧ revision ≤ 3
  records : (find ["package"] lock).bind asArray = some packages
  single : projects packages = [project]

section Proofs
variable {equal : Value → Value → Bool} {lockPath : String} {packages : List Value}
  {project index : Fin packages.length}

theorem resolveDependency_ok {reference : Value} :
    resolveDependency equal lockPath packages project reference = .ok index ↔
      Means equal packages project reference index := by
  rw [resolveDependency, Means]
  cases (find ["name"] reference).bind asStr with
  | none => simp
  | some name =>
    simp only [Option.some.injEq, exists_eq_left']
    split <;> simp_all

theorem packageDependencies_ok {package : Value} {references : List Value} :
    packageDependencies lockPath package = .ok references ↔ References package references := by
  rw [packageDependencies, References]
  generalize find ["dependencies"] package = found
  cases found with
  | none =>
    refine ⟨fun h => .inl ⟨rfl, (Except.ok.inj h).symm⟩, ?_⟩
    rintro (⟨-, rfl⟩ | ⟨hnone, -⟩)
    · rfl
    · cases hnone
  | some value =>
    dsimp only [Option.bind_some]
    generalize value.asArray = items
    cases items with
    | none =>
      constructor
      · intro h
        cases h
      · rintro (⟨hnone, -⟩ | ⟨hnone, -⟩)
        · cases hnone
        · cases hnone
    | some dependencies =>
      have hnamed : dependencies.any (fun dependency =>
            ((find ["name"] dependency).bind asStr).isNone) = false ↔
          ∀ reference ∈ dependencies, ((find ["name"] reference).bind asStr).isSome := by
        rw [List.any_eq_false]
        refine forall₂_congr fun reference _ => ?_
        rw [← Option.not_isSome, Bool.not_eq_true, Bool.not_eq_false']
      dsimp only
      constructor
      · intro h
        obtain ⟨hall, h⟩ := guard_ok.mp h
        obtain rfl := Except.ok.inj h
        exact .inr ⟨rfl, hnamed.mp (eq_false_of_ne_true hall)⟩
      · rintro (⟨hnone, -⟩ | ⟨hsome, hall⟩)
        · cases hnone
        · obtain rfl := Option.some.inj hsome
          rw [hnamed.mpr hall]
          rfl

theorem depends_iff {other : Fin packages.length} :
    Worklist.Leads (resolveDependency equal lockPath packages project)
      (fun index => packageDependencies lockPath packages[index]) index other ↔
      Depends equal packages project index other := by
  simp only [Worklist.Leads, Depends, packageDependencies_ok, resolveDependency_ok]

theorem References.unique {package : Value} {references others : List Value}
    (h : References package references) (hother : References package others) :
    references = others := by
  have hfirst : packageDependencies "" package = .ok references := packageDependencies_ok.mpr h
  rw [packageDependencies_ok.mpr hother] at hfirst
  exact (Except.ok.inj hfirst).symm

/-- What the search reaches from the project's references is what the project depends on. -/
theorem reached_iff {references : List Value} (h : References packages[project] references) :
    Worklist.Reached (resolveDependency equal lockPath packages project)
      (fun index => packageDependencies lockPath packages[index]) references index ↔
      Reachable equal packages project index := by
  have hleads : Worklist.Leads (resolveDependency equal lockPath packages project)
      (fun index => packageDependencies lockPath packages[index]) =
        Depends equal packages project := by
    funext left right
    exact propext depends_iff
  rw [Worklist.Reached, hleads, Reachable, Relation.TransGen.head'_iff]
  refine exists_congr fun first => and_congr_left fun _ => ?_
  simp only [resolveDependency_ok]
  constructor
  · exact fun hfirst => ⟨references, h, hfirst⟩
  · rintro ⟨others, hothers, hfirst⟩
    exact (h.unique hothers) ▸ hfirst

theorem settled_iff {references : List Value} (h : References packages[index] references) :
    Worklist.Resolved (resolveDependency equal lockPath packages project) references ↔
      Settled equal packages project index := by
  simp only [Worklist.Resolved, resolveDependency_ok, Settled]
  constructor
  · exact fun hall => ⟨references, h, hall⟩
  · rintro ⟨others, hothers, hall⟩
    exact (h.unique hothers) ▸ hall

/-- The search comes to its end where every reference it meets means one record. -/
theorem explore_iff {references : List Value} (h : References packages[project] references) :
    (∃ visited, Worklist.explore (resolveDependency equal lockPath packages project)
        (fun index => packageDependencies lockPath packages[index]) [] references = .ok visited) ↔
      Settled equal packages project project ∧
        ∀ index, Reachable equal packages project index → Settled equal packages project index := by
  rw [Worklist.explore_iff, settled_iff h]
  refine and_congr_right fun _ => forall_congr' fun index => ?_
  rw [reached_iff h]
  refine imp_congr_right fun _ => ?_
  constructor
  · rintro ⟨more, hmore, hresolved⟩
    exact (settled_iff (packageDependencies_ok.mp hmore)).mp hresolved
  · rintro ⟨more, hmore, hall⟩
    exact ⟨more, packageDependencies_ok.mpr hmore,
      (settled_iff hmore).mpr ⟨more, hmore, hall⟩⟩

/-- One entry for each package the project depends on, in the order of their names. -/
structure Planned (equal : Value → Value → Bool) (packages : List Value)
    (project : Fin packages.length) (dependencies : List PortableDependency) : Prop where
  entries : ∃ reached : List (Fin packages.length), reached.Nodup ∧
    (∀ index, index ∈ reached ↔ Reachable equal packages project index) ∧
    List.Forall₂ (fun index => Offers packages[index]) reached dependencies
  sorted : dependencies.Pairwise fun left right => left.name ≤ right.name

theorem sorted_names (dependencies : List PortableDependency) :
    (dependencies.insertionSort fun left right => left.name ≤ right.name).Pairwise
      fun left right => left.name ≤ right.name := by
  have : Std.Total (fun left right : PortableDependency => left.name ≤ right.name) :=
    ⟨fun _ _ => le_total _ _⟩
  have : IsTrans PortableDependency (fun left right => left.name ≤ right.name) :=
    ⟨fun _ _ _ => le_trans⟩
  exact List.pairwise_insertionSort _ dependencies

variable {iteration : Iteration} {dependencies : List PortableDependency}

/-- What a plan is made from: the packages the search has seen, in the order of the hash set. -/
theorem planPackages_ok : planPackages equal lockPath iteration packages project = .ok dependencies ↔
    ∃ references, References packages[project] references ∧ ∃ visited,
      Worklist.explore (resolveDependency equal lockPath packages project)
        (fun index => packageDependencies lockPath packages[index]) [] references = .ok visited ∧
      ∃ found, (iteration.order visited).mapM
          (fun index => portableDependency lockPath packages[index]) = .ok found ∧
        dependencies = found.insertionSort fun left right => left.name ≤ right.name := by
  simp only [planPackages, bind_ok, packageDependencies_ok, Except.ok.injEq]
  exact exists_congr fun _ => and_congr_right fun _ => exists_congr fun _ =>
    and_congr_right fun _ => exists_congr fun _ => and_congr_right fun _ => eq_comm

theorem planPackages_planned
    (h : planPackages equal lockPath iteration packages project = .ok dependencies) :
    Planned equal packages project dependencies := by
  obtain ⟨references, hreferences, visited, hvisited, found, hfound, rfl⟩ := planPackages_ok.mp h
  have hoffers : List.Forall₂ (fun index => Offers packages[index]) (iteration.order visited) found :=
    (mapM_ok hfound).imp fun _ _ => portableDependency_offers
  have hsort := (List.perm_insertionSort
    (fun left right : PortableDependency => left.name ≤ right.name) found).symm
  -- the entries are sorted along with the packages they are for
  obtain ⟨reached, hreached, hentries⟩ :
      (Relation.Comp List.Perm (List.Forall₂ fun index => Offers packages[index]))
        (iteration.order visited) _ := by
    rw [← List.forall₂_comp_perm_eq_perm_comp_forall₂]
    exact ⟨found, hoffers, hsort⟩
  have hperm := hreached.symm.trans (iteration.perm visited)
  refine ⟨⟨reached, ?_, ?_, hentries⟩, sorted_names found⟩
  · exact hperm.nodup_iff.mpr (Worklist.explore_closes List.nodup_nil hvisited).nodup
  · intro index
    rw [hperm.mem_iff, Worklist.mem_explore hvisited, reached_iff hreferences]

theorem planPackages_iff : (∃ dependencies,
      planPackages equal lockPath iteration packages project = .ok dependencies) ↔
    Settled equal packages project project ∧ ∀ index, Reachable equal packages project index →
      Settled equal packages project index ∧ Portable packages[index] := by
  constructor
  · rintro ⟨dependencies, h⟩
    obtain ⟨references, hreferences, visited, hvisited, found, hfound, -⟩ := planPackages_ok.mp h
    obtain ⟨hproject, hall⟩ := (explore_iff hreferences).mp ⟨visited, hvisited⟩
    refine ⟨hproject, fun index hindex => ⟨hall index hindex, ?_⟩⟩
    have hmem : index ∈ iteration.order visited := by
      rw [(iteration.perm visited).mem_iff, Worklist.mem_explore hvisited, reached_iff hreferences]
      exact hindex
    obtain ⟨dependency, -, hdependency⟩ := exists_of_mem_list (mapM_ok hfound) hmem
    exact portable_iff.mp ⟨dependency, hdependency⟩
  · rintro ⟨hproject, hall⟩
    obtain ⟨references, hreferences, -⟩ := id hproject
    obtain ⟨visited, hvisited⟩ : ∃ visited,
        Worklist.explore (resolveDependency equal lockPath packages project)
          (fun index => packageDependencies lockPath packages[index]) [] references = .ok visited :=
      (explore_iff hreferences).mpr ⟨hproject, fun index hindex => (hall index hindex).1⟩
    have hportable : ∀ index ∈ iteration.order visited,
        ∃ dependency, portableDependency lockPath packages[index] = .ok dependency := by
      intro index hindex
      rw [(iteration.perm visited).mem_iff, Worklist.mem_explore hvisited,
        reached_iff hreferences] at hindex
      exact portable_iff.mpr (hall index hindex).2
    obtain ⟨found, hfound⟩ := exists_mapM_ok hportable
    exact ⟨_, planPackages_ok.mpr ⟨references, hreferences, visited, hvisited, found, hfound, rfl⟩⟩

/-- The entries that a traversal gives are those of its elements. -/
theorem mapM_filterMap {α β : Type} {f : α → Except LiveError β} {list : List α} {results : List β}
    (h : list.mapM f = .ok results) : results = list.filterMap fun a => (f a).toOption := by
  have hall := mapM_ok h
  clear h
  induction hall with
  | nil => rfl
  | cons hfirst _ ih => rw [List.filterMap_cons, toOption_eq_some.mpr hfirst, ih]

/-- No revision is refused. -/
theorem revision_none {revision : Option Int} :
    (revision.filter fun revision => decide ¬(1 ≤ revision ∧ revision ≤ 3)) = none ↔
      ∀ given, revision = some given → 1 ≤ given ∧ given ≤ 3 := by
  simp [Option.filter_eq_none_iff]

theorem dependencyPlan_ok {lock : Value} :
    dependencyPlan equal lockPath iteration lock = .ok dependencies ↔
      ∃ packages, ∃ project : Fin packages.length, Locks lock packages project ∧
        planPackages equal lockPath iteration packages project = .ok dependencies := by
  unfold dependencyPlan
  constructor
  · intro h
    obtain ⟨hversion, h⟩ := guard_ok.mp h
    split at h
    · cases h
    rename_i hrevision
    split at h
    · cases h
    rename_i packages hrecords
    split at h
    · rename_i project hsingle
      exact ⟨packages, project,
        ⟨not_not.mp hversion, revision_none.mp hrevision, hrecords, hsingle⟩, h⟩
    · cases h
  · rintro ⟨packages, project, ⟨hversion, hrevision, hrecords, hsingle⟩, h⟩
    rw [if_neg (not_not.mpr hversion), revision_none.mpr hrevision, hrecords]
    dsimp only
    rw [hsingle]
    exact h

/-- A lock has a plan exactly when it has one project and every reference that is met from the
project means one record of which some wheel can be installed. The plan has an entry for each
package the project depends on and no other. -/
theorem dependencyPlan_exact (equal : Value → Value → Bool) (lockPath : String)
    (iteration : Iteration) (lock : Value) :
    ((∃ dependencies, dependencyPlan equal lockPath iteration lock = .ok dependencies) ↔
      ∃ packages, ∃ project : Fin packages.length, Locks lock packages project ∧
        Settled equal packages project project ∧
        ∀ index, Reachable equal packages project index →
          Settled equal packages project index ∧ Portable packages[index]) ∧
    ∀ dependencies, dependencyPlan equal lockPath iteration lock = .ok dependencies →
      ∃ packages, ∃ project : Fin packages.length, Locks lock packages project ∧
        Planned equal packages project dependencies := by
  constructor
  · constructor
    · rintro ⟨dependencies, h⟩
      obtain ⟨packages, project, hlocks, h⟩ := dependencyPlan_ok.mp h
      exact ⟨packages, project, hlocks, planPackages_iff.mp ⟨dependencies, h⟩⟩
    · rintro ⟨packages, project, hlocks, hsettled⟩
      obtain ⟨dependencies, h⟩ : ∃ dependencies,
          planPackages equal lockPath iteration packages project = .ok dependencies :=
        planPackages_iff.mpr hsettled
      exact ⟨dependencies, dependencyPlan_ok.mpr ⟨packages, project, hlocks, h⟩⟩
  · intro dependencies h
    obtain ⟨packages, project, hlocks, h⟩ := dependencyPlan_ok.mp h
    exact ⟨packages, project, hlocks, planPackages_planned h⟩

theorem planPackages_again (h : planPackages equal lockPath iteration packages project =
      .ok dependencies) (other : Iteration) :
    ∃ again, planPackages equal lockPath other packages project = .ok again ∧
      again.Perm dependencies ∧
      ((∀ left ∈ dependencies, ∀ right ∈ dependencies, left.name = right.name → left = right) →
        again = dependencies) := by
  obtain ⟨again, hagain⟩ : ∃ again,
      planPackages equal lockPath other packages project = .ok again :=
    planPackages_iff.mpr (planPackages_iff.mp ⟨dependencies, h⟩)
  obtain ⟨references, hreferences, visited, hvisited, found, hfound, rfl⟩ := planPackages_ok.mp h
  obtain ⟨references', hreferences', visited', hvisited', found', hfound', rfl⟩ :=
    planPackages_ok.mp hagain
  obtain rfl := hreferences.unique hreferences'
  obtain rfl := Except.ok.inj (hvisited.symm.trans hvisited')
  have hperm : found'.Perm found := by
    rw [mapM_filterMap hfound, mapM_filterMap hfound']
    exact ((other.perm visited).trans (iteration.perm visited).symm).filterMap _
  have hsort (list : List PortableDependency) :=
    List.perm_insertionSort (fun left right : PortableDependency => left.name ≤ right.name) list
  refine ⟨_, hagain, ((hsort found').trans hperm).trans (hsort found).symm, fun hnames => ?_⟩
  have hkeys : ∀ left ∈ found, ∀ right ∈ found,
      PortableDependency.name left = PortableDependency.name right → left = right :=
    fun left hleft right hright =>
      hnames left ((hsort found).mem_iff.mpr hleft) right ((hsort found).mem_iff.mpr hright)
  exact (Sorting.sorted_congr hkeys hperm.symm).symm

/-- What a lock is planned to, but for the order among entries of one name, does not depend on the
order of the hash set. -/
theorem dependencyPlan_reproducible {lock : Value}
    (h : dependencyPlan equal lockPath iteration lock = .ok dependencies) (other : Iteration) :
    ∃ again, dependencyPlan equal lockPath other lock = .ok again ∧
      again.Perm dependencies ∧ again.map (·.name) = dependencies.map (·.name) ∧
      ((∀ left ∈ dependencies, ∀ right ∈ dependencies, left.name = right.name → left = right) →
        again = dependencies) := by
  obtain ⟨packages, project, hlocks, hplan⟩ := dependencyPlan_ok.mp h
  obtain ⟨again, hagain, hperm, hsame⟩ := planPackages_again hplan other
  refine ⟨again, dependencyPlan_ok.mpr ⟨packages, project, hlocks, hagain⟩, hperm, ?_, hsame⟩
  refine (hperm.map _).eq_of_pairwise (fun _ _ _ _ => le_antisymm) ?_ ?_
  · exact List.pairwise_map.mpr (planPackages_planned hagain).sorted
  · exact List.pairwise_map.mpr (planPackages_planned hplan).sorted

end Proofs

def sampleUrl (name : String) : String :=
  "https://files.pythonhosted.org/" ++ name ++ "-1.0-py3-none-any.whl"

def sampleDigest : String := String.ofList (List.replicate 64 '0')

def samplePackage (name : String) : Value :=
  .table
    [("name", .string name), ("version", .string "1.0"),
      ("source", .table [("registry", .string "https://pypi.org/simple")]),
      ("wheels", .array
        [.table [("url", .string (sampleUrl name)), ("hash", .string ("sha256:" ++ sampleDigest))]])]

def sampleReference (name : String) : Value := .table [("name", .string name)]

def samplePackages : List Value :=
  [.table
      [("name", .string "app"), ("source", .table [("editable", .string ".")]),
        ("dependencies", .array [sampleReference "six", sampleReference "attrs"])],
    samplePackage "six", samplePackage "attrs"]

def sampleLock : Value := .table [("version", .integer 1), ("package", .array samplePackages)]

def samplePlan : List PortableDependency :=
  [⟨"attrs", "1.0", sampleUrl "attrs", sampleDigest⟩, ⟨"six", "1.0", sampleUrl "six", sampleDigest⟩]

theorem sampleLock_plan :
    dependencyPlan (fun _ _ => false) "uv.lock" ⟨id, .refl⟩ sampleLock = .ok samplePlan := by
  let app : Fin samplePackages.length := ⟨0, by decide⟩
  let six : Fin samplePackages.length := ⟨1, by decide⟩
  let attrs : Fin samplePackages.length := ⟨2, by decide⟩
  have hsix : resolveDependency (fun _ _ => false) "uv.lock" samplePackages app
      (sampleReference "six") = .ok six := rfl
  have hattrs : resolveDependency (fun _ _ => false) "uv.lock" samplePackages app
      (sampleReference "attrs") = .ok attrs := rfl
  have hnone (index : Fin samplePackages.length) (h : index = six ∨ index = attrs) :
      packageDependencies "uv.lock" samplePackages[index] = .ok [] := by
    rcases h with rfl | rfl
    · rfl
    · rfl
  have happ : packageDependencies "uv.lock" samplePackages[app] =
      .ok [sampleReference "six", sampleReference "attrs"] := rfl
  have hlocks : Locks sampleLock samplePackages app :=
    ⟨rfl, fun _ h => (nomatch h), rfl, rfl⟩
  rw [dependencyPlan_ok]
  refine ⟨samplePackages, app, hlocks, planPackages_ok.mpr ?_⟩
  refine ⟨_, packageDependencies_ok.mp happ, [six, attrs], ?_, ?_⟩
  · rw [Worklist.explore, hsix]
    dsimp only
    rw [dif_neg List.not_mem_nil, hnone six (.inl rfl)]
    dsimp only
    rw [List.append_nil, Worklist.explore, hattrs]
    dsimp only
    rw [dif_neg (by decide), hnone attrs (.inr rfl)]
    dsimp only
    rw [List.append_nil, Worklist.explore]
    rfl
  · exact ⟨[⟨"six", "1.0", sampleUrl "six", sampleDigest⟩,
      ⟨"attrs", "1.0", sampleUrl "attrs", sampleDigest⟩], by rfl, by rfl⟩

theorem dependencyPlan_reproducible_sample : ∃ again,
    dependencyPlan (fun _ _ => false) "uv.lock" ⟨List.reverse, List.reverse_perm⟩ sampleLock =
      .ok again ∧ again.Perm samplePlan ∧ again.map (·.name) = samplePlan.map (·.name) ∧
      ((∀ left ∈ samplePlan, ∀ right ∈ samplePlan, left.name = right.name → left = right) →
        again = samplePlan) :=
  dependencyPlan_reproducible sampleLock_plan ⟨List.reverse, List.reverse_perm⟩

end HologramLive.Python.DependencyPlan
