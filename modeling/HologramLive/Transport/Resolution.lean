import HologramLive.Transport.Registry
import Mathlib.Data.List.Perm.Subperm
import Mathlib.Logic.Relation

/-! The resolution of enabled modules over any set of available ones. -/

namespace HologramLive.Transport.Resolution
open Lib Lib.Result Relation

/-- The map of the available modules. A later module takes an earlier one's id. -/
def availableIn (modules : List ModuleDescriptor) (id : String) : Option ModuleDescriptor :=
  modules.reverse.find? fun candidate => candidate.id = id

/-- How far the resolution has come: the two sets and the modules in order. -/
structure Walk where
  visiting : List String := []
  visited : List String := []
  ordered : List ModuleDescriptor := []

/-- A loop that ends with the first error. -/
def each (visit : Walk → String → Option (Except LiveError Walk)) :
    List String → Walk → Option (Except LiveError Walk)
  | [], walk => some (.ok walk)
  | id :: ids, walk =>
    match visit walk id with
    | some (.ok walk) => each visit ids walk
    | other => other

/-- The recursive function has no bound. Here the fuel is one, and `none` is where it runs out. -/
def visit (available : String → Option ModuleDescriptor) (enabled : List String) :
    Nat → Walk → String → Option (Except LiveError Walk)
  | 0, _, _ => none
  | fuel + 1, walk, id =>
    if id ∈ walk.visited then some (.ok walk)
    else if id ∈ walk.visiting then
      some (.error (.conflict s!"module dependency cycle includes {id}"))
    else
      match available id with
      | none => some (.error (.capability s!"unknown module {id}"))
      | some found =>
        match each (fun walk dependency =>
            if dependency ∉ enabled then
              some (.error (.capability s!"module {id} requires disabled module {dependency}"))
            else visit available enabled fuel walk dependency)
          found.dependencies { walk with visiting := id :: walk.visiting } with
        | some (.ok walk) =>
          some (.ok ⟨walk.visiting.erase id, id :: walk.visited, walk.ordered ++ [found]⟩)
        | other => other

/-- A dependency in its turn. -/
def visitDependency (available : String → Option ModuleDescriptor) (enabled : List String)
    (fuel : Nat) (id : String) (walk : Walk) (dependency : String) :
    Option (Except LiveError Walk) :=
  if dependency ∉ enabled then
    some (.error (.capability s!"module {id} requires disabled module {dependency}"))
  else visit available enabled fuel walk dependency

def build (modules : List ModuleDescriptor) (enabled : List String) (fuel : Nat) :
    Option (Except LiveError ModuleRegistry) :=
  let enabled := enabled.dedup.insertionSort (· ≤ ·)
  match each (visit (availableIn modules) enabled fuel) enabled {} with
  | none => none
  | some (.error error) => some (.error error)
  | some (.ok walk) => some do
    let operations ← (walk.ordered.flatMap (·.operations)).foldlM ModuleRegistry.claim []
    .ok ⟨walk.ordered, operations⟩

/-- One enabled module asks for another. -/
def Depends (available : String → Option ModuleDescriptor) (enabled : List String)
    (id dependency : String) : Prop :=
  id ∈ enabled ∧ dependency ∈ enabled ∧
    ∃ found, available id = some found ∧ dependency ∈ found.dependencies

/-- What keeps the enabled modules from being put in order. -/
def Unresolvable (available : String → Option ModuleDescriptor) (enabled : List String) : Prop :=
  (∃ id ∈ enabled, available id = none) ∨
    (∃ id ∈ enabled, ∃ found, available id = some found ∧ ∃ dependency ∈ found.dependencies,
      dependency ∉ enabled) ∨
    ∃ id, TransGen (Depends available enabled) id id

/-- The modules that may be started together. -/
structure Resolvable (modules : List ModuleDescriptor) (enabled : List String) : Prop where
  available : ∀ id ∈ enabled, (availableIn modules id).isSome
  closed : ∀ id ∈ enabled, ∀ found, availableIn modules id = some found →
    ∀ dependency ∈ found.dependencies, dependency ∈ enabled
  acyclic : ∀ id, ¬ TransGen (Depends (availableIn modules) enabled) id id
  once : ((enabled.dedup.filterMap (availableIn modules)).flatMap
    fun found => found.operations.map (·.id)).Nodup

/-- Every module stands after all that it depends on. -/
def DependenciesFirst (ordered : List ModuleDescriptor) : Prop :=
  ∀ before (found : ModuleDescriptor) after, ordered = before ++ found :: after →
    ∀ dependency ∈ found.dependencies, dependency ∈ before.map (·.id)

section
variable {step : Walk → String → Option (Except LiveError Walk)}
  {available : String → Option ModuleDescriptor} {enabled : List String}
  {walk after : Walk} {id : String} {ids : List String} {fuel : Nat}

theorem each_cons_ok (h : each step (id :: ids) walk = some (.ok after)) :
    ∃ between, step walk id = some (.ok between) ∧ each step ids between = some (.ok after) := by
  rw [each] at h
  split at h
  · rename_i between hstep
    exact ⟨between, hstep, h⟩
  · rename_i hother
    exact absurd h (hother after)

/-- What every step keeps, the loop keeps. -/
theorem each_keeps {holds : Walk → Prop}
    (hstep : ∀ id ∈ ids, ∀ walk after, holds walk → step walk id = some (.ok after) → holds after)
    (hstart : holds walk) (h : each step ids walk = some (.ok after)) : holds after := by
  induction ids generalizing walk with
  | nil =>
    obtain rfl := Except.ok.inj (Option.some.inj h)
    exact hstart
  | cons id ids ih =>
    obtain ⟨hfirst, hrest⟩ := List.forall_mem_cons.mp hstep
    obtain ⟨between, hbetween, h⟩ := each_cons_ok h
    exact ih hrest (hfirst _ _ hstart hbetween) h

/-- A loop that fails does so at one of its steps, which begins where what is kept holds. -/
theorem each_error {holds : Walk → Prop} {error : LiveError}
    (hstep : ∀ id ∈ ids, ∀ walk after, holds walk → step walk id = some (.ok after) → holds after)
    (hstart : holds walk) (h : each step ids walk = some (.error error)) :
    ∃ id ∈ ids, ∃ walk, holds walk ∧ step walk id = some (.error error) := by
  induction ids generalizing walk with
  | nil => cases Option.some.inj h
  | cons id ids ih =>
    obtain ⟨hfirst, hrest⟩ := List.forall_mem_cons.mp hstep
    rw [each] at h
    split at h
    · rename_i between hbetween
      obtain ⟨found, hfound, hfails⟩ := ih hrest (hfirst _ _ hstart hbetween) h
      exact ⟨found, List.mem_cons_of_mem _ hfound, hfails⟩
    · exact ⟨id, List.mem_cons_self, walk, hstart, h⟩

/-- A loop over steps that all come to an end does too. -/
theorem each_ends {holds : Walk → Prop}
    (hstep : ∀ id ∈ ids, ∀ walk, holds walk → step walk id ≠ none ∧
      ∀ after, step walk id = some (.ok after) → holds after)
    (hstart : holds walk) : each step ids walk ≠ none := by
  induction ids generalizing walk with
  | nil => simp [each]
  | cons id ids ih =>
    obtain ⟨hfirst, hrest⟩ := List.forall_mem_cons.mp hstep
    rw [each]
    split
    · rename_i between hbetween
      exact ih hrest ((hfirst walk hstart).2 between hbetween)
    · exact (hfirst walk hstart).1

/-- Steps that have an end keep it where there is more fuel. -/
theorem each_more {step' : Walk → String → Option (Except LiveError Walk)}
    {result : Except LiveError Walk}
    (hstep : ∀ walk id result, step walk id = some result → step' walk id = some result)
    (h : each step ids walk = some result) : each step' ids walk = some result := by
  induction ids generalizing walk with
  | nil => exact h
  | cons id ids ih =>
    rw [each] at h ⊢
    cases hfirst : step walk id with
    | none =>
      rw [hfirst] at h
      cases h
    | some found =>
      rw [hfirst] at h
      rw [hstep _ _ _ hfirst]
      cases found with
      | ok between => exact ih h
      | error error => exact h

/-- A module that is resolved, with its dependencies. -/
theorem visit_ok (h : visit available enabled (fuel + 1) walk id = some (.ok after)) :
    (id ∈ walk.visited ∧ after = walk) ∨
    (id ∉ walk.visited ∧ id ∉ walk.visiting ∧ ∃ found between, available id = some found ∧
      each (visitDependency available enabled fuel id) found.dependencies
        { walk with visiting := id :: walk.visiting } = some (.ok between) ∧
      after = ⟨between.visiting.erase id, id :: between.visited, between.ordered ++ [found]⟩) := by
  rw [visit] at h
  split at h
  · rename_i hvisited
    exact .inl ⟨hvisited, (Except.ok.inj (Option.some.inj h)).symm⟩
  · rename_i hvisited
    split at h
    · cases Option.some.inj h
    · rename_i hvisiting
      split at h
      · cases Option.some.inj h
      · rename_i found hfound
        split at h
        · rename_i between hbetween
          obtain rfl := Except.ok.inj (Option.some.inj h)
          exact .inr ⟨hvisited, hvisiting, found, between, hfound, hbetween, rfl⟩
        · rename_i hother
          exact absurd h (hother after)

theorem visitDependency_ok {dependency : String}
    (h : visitDependency available enabled fuel id walk dependency = some (.ok after)) :
    dependency ∈ enabled ∧ visit available enabled fuel walk dependency = some (.ok after) := by
  unfold visitDependency at h
  split at h
  · cases Option.some.inj h
  · rename_i henabled
    exact ⟨not_not.mp henabled, h⟩

/-- The modules that are being resolved are the same after as before. -/
theorem visit_visiting (h : visit available enabled fuel walk id = some (.ok after)) :
    after.visiting = walk.visiting := by
  induction fuel generalizing walk after id with
  | zero => cases h
  | succ fuel ih =>
    rcases visit_ok h with ⟨-, rfl⟩ | ⟨-, -, found, between, -, heach, rfl⟩
    · rfl
    · have hkeep : ∀ dependency ∈ found.dependencies, ∀ other next : Walk,
          other.visiting = id :: walk.visiting →
          visitDependency available enabled fuel id other dependency = some (.ok next) →
          next.visiting = id :: walk.visiting := by
        intro dependency _ other next hother hstep
        exact (ih (visitDependency_ok hstep).2).trans hother
      have hbetween := each_keeps hkeep rfl heach
      show between.visiting.erase id = walk.visiting
      rw [hbetween, List.erase_cons_head]

/-- The two sets and the order belong together. -/
structure Good (available : String → Option ModuleDescriptor) (enabled : List String)
    (walk : Walk) : Prop where
  visited : ∀ id, id ∈ walk.visited ↔ id ∈ walk.ordered.map (·.id)
  nodup : (walk.ordered.map (·.id)).Nodup
  known : ∀ found ∈ walk.ordered, available found.id = some found ∧ found.id ∈ enabled
  first : DependenciesFirst walk.ordered
  apart : ∀ id ∈ walk.visiting, id ∉ walk.visited

theorem DependenciesFirst.snoc {ordered : List ModuleDescriptor} {found : ModuleDescriptor}
    (h : DependenciesFirst ordered)
    (hfound : ∀ dependency ∈ found.dependencies, dependency ∈ ordered.map (·.id)) :
    DependenciesFirst (ordered ++ [found]) := by
  intro before other rest hsplit dependency hdependency
  rcases List.eq_nil_or_concat rest with rfl | ⟨rest, last, rfl⟩
  · obtain ⟨rfl, hlast⟩ := List.append_inj' hsplit rfl
    obtain rfl := List.singleton_inj.mp hlast
    exact hfound dependency hdependency
  · have hlonger : ordered ++ [found] = (before ++ other :: rest) ++ [last] := by
      rw [hsplit, List.concat_eq_append, List.append_assoc, List.cons_append]
    exact h before other rest (List.append_inj' hlonger rfl).1 dependency hdependency

/-- Where each step resolves its own module, the loop resolves all of them. -/
theorem each_resolves {holds : Walk → Prop}
    (hstep : ∀ id ∈ ids, ∀ walk after, holds walk → step walk id = some (.ok after) →
      holds after ∧ walk.visited ⊆ after.visited ∧ id ∈ after.visited)
    (hstart : holds walk) (h : each step ids walk = some (.ok after)) :
    holds after ∧ walk.visited ⊆ after.visited ∧ ∀ id ∈ ids, id ∈ after.visited := by
  induction ids generalizing walk with
  | nil =>
    obtain rfl := Except.ok.inj (Option.some.inj h)
    exact ⟨hstart, List.Subset.refl _, by simp⟩
  | cons id ids ih =>
    obtain ⟨hfirst, hrest⟩ := List.forall_mem_cons.mp hstep
    obtain ⟨between, hbetween, h⟩ := each_cons_ok h
    obtain ⟨hholds, hmore, hid⟩ := hfirst _ _ hstart hbetween
    obtain ⟨hafter, hlast, hids⟩ := ih hrest hholds h
    exact ⟨hafter, List.Subset.trans hmore hlast, List.forall_mem_cons.mpr ⟨hlast hid, hids⟩⟩

theorem Good.push {found : ModuleDescriptor} (h : Good available enabled walk)
    (hvisiting : walk.visiting = found.id :: ids) (hids : found.id ∉ ids)
    (hfound : available found.id = some found) (henabled : found.id ∈ enabled)
    (hdependencies : ∀ dependency ∈ found.dependencies, dependency ∈ walk.visited) :
    Good available enabled
      ⟨walk.visiting.erase found.id, found.id :: walk.visited, walk.ordered ++ [found]⟩ := by
  have hnew : found.id ∉ walk.visited := h.apart _ (by simp [hvisiting])
  refine ⟨?_, ?_, ?_, ?_, ?_⟩
  · intro id
    simp [h.visited id, or_comm]
  · have hfresh : found.id ∉ walk.ordered.map (·.id) := fun hmem => hnew ((h.visited _).mpr hmem)
    rw [List.map_append, List.map_singleton]
    exact h.nodup.append (List.nodup_singleton _) (by simpa using hfresh)
  · intro other hother
    rcases List.mem_append.mp hother with hother | hother
    · exact h.known other hother
    · obtain rfl := List.mem_singleton.mp hother
      exact ⟨hfound, henabled⟩
  · exact h.first.snoc fun dependency hdependency =>
      (h.visited dependency).mp (hdependencies dependency hdependency)
  · intro id hid
    simp only [hvisiting, List.erase_cons_head] at hid
    have hne : id ≠ found.id := fun heq => hids (heq ▸ hid)
    have hold := h.apart id (by simp [hvisiting, hid])
    simp [hne, hold]

/-- One module, and what the sets are after it. -/
theorem visit_good (hid : ∀ id found, available id = some found → found.id = id)
    (h : visit available enabled fuel walk id = some (.ok after)) (hwalk : Good available enabled walk)
    (henabled : id ∈ enabled) :
    Good available enabled after ∧ walk.visited ⊆ after.visited ∧ id ∈ after.visited := by
  induction fuel generalizing walk after id with
  | zero => cases h
  | succ fuel ih =>
    rcases visit_ok h with ⟨hvisited, rfl⟩ | ⟨hvisited, hnew, found, between, hfound, heach, rfl⟩
    · exact ⟨hwalk, List.Subset.refl _, hvisited⟩
    · have hstart : Good available enabled { walk with visiting := id :: walk.visiting } := by
        refine ⟨hwalk.visited, hwalk.nodup, hwalk.known, hwalk.first, ?_⟩
        exact List.forall_mem_cons.mpr ⟨hvisited, hwalk.apart⟩
      have hstep : ∀ dependency ∈ found.dependencies, ∀ other next : Walk,
          Good available enabled other ∧ other.visiting = id :: walk.visiting →
          visitDependency available enabled fuel id other dependency = some (.ok next) →
          (Good available enabled next ∧ next.visiting = id :: walk.visiting) ∧
            other.visited ⊆ next.visited ∧ dependency ∈ next.visited := by
        intro dependency _ other next ⟨hother, hvisiting⟩ hnext
        obtain ⟨hmem, hvisit⟩ := visitDependency_ok hnext
        obtain ⟨hgood, hmore, hdone⟩ := ih hvisit hother hmem
        exact ⟨⟨hgood, (visit_visiting hvisit).trans hvisiting⟩, hmore, hdone⟩
      obtain ⟨⟨hbetween, hvisiting⟩, hmore, hdependencies⟩ := each_resolves hstep ⟨hstart, rfl⟩ heach
      obtain rfl := hid _ _ hfound
      refine ⟨hbetween.push hvisiting hnew hfound henabled hdependencies, ?_, List.mem_cons_self⟩
      exact List.Subset.trans hmore (List.subset_cons_self _ _)

/-- What a module that does not resolve fails on. -/
theorem visit_fails {error : LiveError}
    (h : visit available enabled (fuel + 1) walk id = some (.error error)) :
    id ∈ walk.visiting ∨ available id = none ∨ ∃ found, available id = some found ∧
      each (visitDependency available enabled fuel id) found.dependencies
        { walk with visiting := id :: walk.visiting } = some (.error error) := by
  rw [visit] at h
  split at h
  · cases Option.some.inj h
  · split at h
    · rename_i hvisiting
      exact .inl hvisiting
    · split at h
      · rename_i hmissing
        exact .inr (.inl hmissing)
      · rename_i found hfound
        split at h
        · cases Option.some.inj h
        · exact .inr (.inr ⟨found, hfound, h⟩)

/-- The modules that are being resolved all depend on the one in turn, so that meeting one
of them again closes a cycle. -/
theorem visit_error {error : LiveError}
    (h : visit available enabled fuel walk id = some (.error error)) (henabled : id ∈ enabled)
    (hreach : ∀ other ∈ walk.visiting, TransGen (Depends available enabled) other id) :
    Unresolvable available enabled := by
  induction fuel generalizing walk id with
  | zero => cases h
  | succ fuel ih =>
    rcases visit_fails h with hvisiting | hmissing | ⟨found, hfound, heach⟩
    · exact .inr (.inr ⟨id, hreach id hvisiting⟩)
    · exact .inl ⟨id, henabled, hmissing⟩
    · have hkeep : ∀ dependency ∈ found.dependencies, ∀ other next : Walk,
          other.visiting = id :: walk.visiting →
          visitDependency available enabled fuel id other dependency = some (.ok next) →
          next.visiting = id :: walk.visiting := by
        intro dependency _ other next hother hstep
        exact (visit_visiting (visitDependency_ok hstep).2).trans hother
      obtain ⟨dependency, hdependency, other, hother, hfails⟩ := each_error hkeep rfl heach
      unfold visitDependency at hfails
      split at hfails
      · rename_i hdisabled
        exact .inr (.inl ⟨id, henabled, found, hfound, dependency, hdependency, hdisabled⟩)
      · rename_i hmem
        have hdepends : Depends available enabled id dependency :=
          ⟨henabled, not_not.mp hmem, found, hfound, hdependency⟩
        refine ih hfails hdepends.2.1 ?_
        rw [hother]
        exact List.forall_mem_cons.mpr
          ⟨.single hdepends, fun earlier hearlier => (hreach earlier hearlier).tail hdepends⟩

/-- The modules that are being resolved are different ones out of `bound`, which bounds how
many they are. -/
theorem visit_ends {bound : List String} (hnodup : walk.visiting.Nodup)
    (hvisiting : walk.visiting ⊆ bound)
    (hbound : ∀ id ∈ enabled, ∀ found, available id = some found → id ∈ bound)
    (henabled : id ∈ enabled) (hfuel : bound.length < fuel + walk.visiting.length) :
    visit available enabled fuel walk id ≠ none := by
  induction fuel generalizing walk id with
  | zero =>
    have hlength := (hnodup.subperm hvisiting).length_le
    omega
  | succ fuel ih =>
    rw [visit]
    split
    · simp
    · split
      · simp
      · rename_i hnew
        split
        · simp
        · rename_i found hfound
          have hstep : ∀ dependency ∈ found.dependencies, ∀ other : Walk,
              other.visiting = id :: walk.visiting →
              visitDependency available enabled fuel id other dependency ≠ none ∧
              ∀ next, visitDependency available enabled fuel id other dependency
                = some (.ok next) → next.visiting = id :: walk.visiting := by
            intro dependency _ other hother
            refine ⟨?_, fun next hnext => (visit_visiting (visitDependency_ok hnext).2).trans hother⟩
            unfold visitDependency
            split
            · simp
            · rename_i hmem
              refine ih ?_ ?_ (not_not.mp hmem) ?_
              · rw [hother]
                exact List.nodup_cons.mpr ⟨hnew, hnodup⟩
              · rw [hother]
                exact List.cons_subset.mpr ⟨hbound id henabled found hfound, hvisiting⟩
              · rw [hother, List.length_cons]
                omega
          have hends := @each_ends _ { walk with visiting := id :: walk.visiting } _ _ hstep rfl
          split
          · simp
          · exact hends

theorem visit_found {found : ModuleDescriptor} (hvisited : id ∉ walk.visited)
    (hvisiting : id ∉ walk.visiting) (hfound : available id = some found) :
    visit available enabled (fuel + 1) walk id =
      match each (visitDependency available enabled fuel id) found.dependencies
        { walk with visiting := id :: walk.visiting } with
      | some (.ok walk) =>
        some (.ok ⟨walk.visiting.erase id, id :: walk.visited, walk.ordered ++ [found]⟩)
      | other => other := by
  rw [visit, if_neg hvisited, if_neg hvisiting, hfound]
  rfl

/-- What is resolved does not depend on the fuel. -/
theorem visit_more {more : Nat} {result : Except LiveError Walk} (hfuel : fuel ≤ more)
    (h : visit available enabled fuel walk id = some result) :
    visit available enabled more walk id = some result := by
  induction fuel generalizing more walk id result with
  | zero => cases h
  | succ fuel ih =>
    obtain ⟨more, rfl⟩ := Nat.exists_eq_add_of_lt hfuel
    by_cases hvisited : id ∈ walk.visited
    · rw [visit, if_pos hvisited] at h ⊢
      exact h
    · by_cases hvisiting : id ∈ walk.visiting
      · rw [visit, if_neg hvisited, if_pos hvisiting] at h ⊢
        exact h
      · cases hfound : available id with
        | none =>
          rw [visit, if_neg hvisited, if_neg hvisiting, hfound] at h ⊢
          exact h
        | some found =>
          have hstep : ∀ (other : Walk) (dependency : String) (next : Except LiveError Walk),
              visitDependency available enabled fuel id other dependency = some next →
              visitDependency available enabled (fuel + more) id other dependency = some next := by
            intro other dependency next hnext
            unfold visitDependency at hnext ⊢
            split at hnext
            · rename_i hdisabled
              rw [if_pos hdisabled]
              exact hnext
            · rename_i hmem
              rw [if_neg hmem]
              exact ih (Nat.le_add_right _ _) hnext
          rw [visit_found hvisited hvisiting hfound] at h ⊢
          cases heach : each (visitDependency available enabled fuel id) found.dependencies
            { walk with visiting := id :: walk.visiting } with
          | none =>
            rw [heach] at h
            cases h
          | some next =>
            rw [heach] at h
            rw [each_more hstep heach]
            exact h

/-- Where a dependency stands before every module that has it, no chain of dependencies
comes back to where it began. -/
theorem acyclic_of_first {ordered : List ModuleDescriptor} (hfirst : DependenciesFirst ordered)
    (hnodup : (ordered.map (·.id)).Nodup)
    (hknown : ∀ found ∈ ordered, available found.id = some found)
    (hall : ∀ id ∈ enabled, id ∈ ordered.map (·.id)) :
    ¬ TransGen (Depends available enabled) id id := by
  have hlt : ∀ id dependency, Depends available enabled id dependency →
      (ordered.map (·.id)).idxOf dependency < (ordered.map (·.id)).idxOf id := by
    intro id dependency ⟨hid, _, found, hfound, hdependency⟩
    obtain ⟨owner, howner, rfl⟩ := List.mem_map.mp (hall id hid)
    obtain rfl := Option.some.inj (hfound.symm.trans (hknown owner howner))
    obtain ⟨before, rest, rfl⟩ := List.append_of_mem howner
    have hbefore := hfirst before found rest rfl dependency hdependency
    rw [List.map_append, List.map_cons] at hnodup ⊢
    have hnew : found.id ∉ before.map (·.id) := fun hmem =>
      List.disjoint_of_nodup_append hnodup hmem List.mem_cons_self
    rw [List.idxOf_append_of_mem hbefore, List.idxOf_append_of_notMem hnew, List.idxOf_cons_self]
    have := List.idxOf_lt_length_of_mem hbefore
    omega
  have hchain : ∀ id other, TransGen (Depends available enabled) id other →
      (ordered.map (·.id)).idxOf other < (ordered.map (·.id)).idxOf id := by
    intro id other h
    induction h with
    | single hdepends => exact hlt _ _ hdepends
    | tail _ hdepends ih => exact (hlt _ _ hdepends).trans ih
  exact fun hcycle => lt_irrefl _ (hchain id id hcycle)

/-- The roots, one after the other. -/
theorem roots_good (hid : ∀ id found, available id = some found → found.id = id)
    (h : each (visit available enabled fuel) enabled {} = some (.ok after)) :
    Good available enabled after ∧ ∀ id ∈ enabled, id ∈ after.visited := by
  have hstart : Good available enabled {} := by
    refine ⟨by simp, by simp, by simp, ?_, by simp⟩
    intro before found rest hsplit
    simp at hsplit
  have hstep : ∀ id ∈ enabled, ∀ walk next : Walk, Good available enabled walk →
      visit available enabled fuel walk id = some (.ok next) →
      Good available enabled next ∧ walk.visited ⊆ next.visited ∧ id ∈ next.visited :=
    fun id hmem walk next hwalk hnext => visit_good hid hnext hwalk hmem
  obtain ⟨hgood, -, hall⟩ := each_resolves hstep hstart h
  exact ⟨hgood, hall⟩

theorem roots_error {error : LiveError}
    (h : each (visit available enabled fuel) enabled {} = some (.error error)) :
    Unresolvable available enabled := by
  have hstep : ∀ id ∈ enabled, ∀ walk next : Walk, walk.visiting = [] →
      visit available enabled fuel walk id = some (.ok next) → next.visiting = [] :=
    fun id _ walk next hwalk hnext => (visit_visiting hnext).trans hwalk
  obtain ⟨id, hmem, walk, hwalk, hfails⟩ := each_error hstep rfl h
  exact visit_error hfails hmem (by simp [hwalk])

theorem roots_ends {bound : List String}
    (hbound : ∀ id ∈ enabled, ∀ found, available id = some found → id ∈ bound)
    (hfuel : bound.length < fuel) : each (visit available enabled fuel) enabled {} ≠ none := by
  have hstep : ∀ id ∈ enabled, ∀ walk : Walk, walk.visiting = [] →
      visit available enabled fuel walk id ≠ none ∧
      ∀ next, visit available enabled fuel walk id = some (.ok next) → next.visiting = [] := by
    intro id hmem walk hwalk
    refine ⟨?_, fun next hnext => (visit_visiting hnext).trans hwalk⟩
    have hlength : bound.length < fuel + walk.visiting.length := by simpa [hwalk] using hfuel
    exact visit_ends (by simp [hwalk]) (by simp [hwalk]) hbound hmem hlength
  exact each_ends hstep rfl

/-- With any fuel that is enough, the roots come to the same. -/
theorem roots_agree {fuel' : Nat} {result result' : Except LiveError Walk}
    (h : each (visit available enabled fuel) ids walk = some result)
    (h' : each (visit available enabled fuel') ids walk = some result') : result = result' := by
  have hmore := each_more (fun _ _ _ => visit_more (Nat.le_add_right fuel fuel')) h
  have hmore' := each_more (fun _ _ _ => visit_more (Nat.le_add_left fuel' fuel)) h'
  exact Option.some.inj (hmore.symm.trans hmore')

/-- What is in order is enabled and there, with its dependencies. -/
theorem not_unresolvable {ordered : List ModuleDescriptor} (hfirst : DependenciesFirst ordered)
    (hnodup : (ordered.map (·.id)).Nodup)
    (hknown : ∀ found ∈ ordered, available found.id = some found ∧ found.id ∈ enabled)
    (hall : ∀ id ∈ enabled, id ∈ ordered.map (·.id)) : ¬ Unresolvable available enabled := by
  have hfind : ∀ id ∈ enabled, ∃ found ∈ ordered, available id = some found := by
    intro id hid
    obtain ⟨found, hfound, rfl⟩ := List.mem_map.mp (hall id hid)
    exact ⟨found, hfound, (hknown found hfound).1⟩
  intro h
  rcases h with ⟨id, hid, hmissing⟩ | ⟨id, hid, found, hfound, dependency, hdependency, hdisabled⟩ |
    ⟨id, hcycle⟩
  · obtain ⟨found, -, hfound⟩ := hfind id hid
    exact absurd (hmissing.symm.trans hfound) (by simp)
  · obtain ⟨owner, howner, hagain⟩ := hfind id hid
    obtain rfl := Option.some.inj (hfound.symm.trans hagain)
    obtain ⟨before, rest, rfl⟩ := List.append_of_mem howner
    obtain ⟨other, hother, rfl⟩ :=
      List.mem_map.mp (hfirst before found rest rfl dependency hdependency)
    exact hdisabled (hknown other (List.mem_append_left _ hother)).2
  · exact acyclic_of_first hfirst hnodup (fun found hfound => (hknown found hfound).1) hall hcycle

/-- All operations are taken where no two have the same id, of each other or in the table. -/
theorem claim_ok {operations : List OperationDescriptor} {table : List (String × OperationDescriptor)} :
    (∃ result, operations.foldlM ModuleRegistry.claim table = .ok result) ↔
      (operations.map (·.id)).Nodup ∧ ∀ operation ∈ operations, table.lookup operation.id = none := by
  induction operations generalizing table with
  | nil => simp [pure, Except.pure]
  | cons first rest ih =>
    rw [List.foldlM_cons, List.map_cons, List.nodup_cons, List.forall_mem_cons]
    cases hfirst : table.lookup first.id with
    | some found => simp [ModuleRegistry.claim, hfirst, bind, Except.bind]
    | none =>
      have hclaim : ModuleRegistry.claim table first
          = .ok (Table.insert table first.id first) := by
        simp [ModuleRegistry.claim, hfirst]
      have hlookups : (∀ operation ∈ rest,
            (Table.insert table first.id first).lookup operation.id = none) ↔
          first.id ∉ rest.map (·.id) ∧ ∀ operation ∈ rest, table.lookup operation.id = none := by
        simp only [Table.lookup_insert, List.mem_map]
        grind
      rw [hclaim, show (Except.ok (Table.insert table first.id first) >>= fun table =>
        rest.foldlM ModuleRegistry.claim table) =
        rest.foldlM ModuleRegistry.claim (Table.insert table first.id first) from rfl, ih, hlookups]
      tauto

end

section
variable {modules : List ModuleDescriptor} {enabled sorted : List String}

theorem availableIn_id (id : String) (found : ModuleDescriptor)
    (h : availableIn modules id = some found) : found.id = id := by
  simpa using List.find?_some h

/-- Only which modules are enabled matters, not in what order they are listed. -/
theorem unresolvable_congr {available : String → Option ModuleDescriptor}
    (h : ∀ id, id ∈ sorted ↔ id ∈ enabled) :
    Unresolvable available sorted ↔ Unresolvable available enabled := by
  have hdepends : Depends available sorted = Depends available enabled := by
    funext id dependency
    simp [Depends, h]
  simp [Unresolvable, hdepends, h]

theorem not_unresolvable_iff : ¬ Unresolvable (availableIn modules) enabled ↔
    (∀ id ∈ enabled, (availableIn modules id).isSome) ∧
    (∀ id ∈ enabled, ∀ found, availableIn modules id = some found →
      ∀ dependency ∈ found.dependencies, dependency ∈ enabled) ∧
    ∀ id, ¬ TransGen (Depends (availableIn modules) enabled) id id := by
  simp only [Unresolvable, not_or, not_exists, not_and, not_not, Option.isSome_iff_ne_none]

/-- The modules in order, up to the order, are those that are enabled. -/
theorem perm_of_good {walk : Walk} (hgood : Good (availableIn modules) sorted walk)
    (hall : ∀ id ∈ sorted, id ∈ walk.visited) (hsorted : sorted.Perm enabled.dedup) :
    (walk.ordered.map (·.id)).Perm enabled.dedup ∧
      walk.ordered.Perm (enabled.dedup.filterMap (availableIn modules)) := by
  have hids : (walk.ordered.map (·.id)).Perm enabled.dedup := by
    refine (List.perm_ext_iff_of_nodup hgood.nodup (List.nodup_dedup _)).mpr fun id => ?_
    rw [← hsorted.mem_iff]
    constructor
    · intro hid
      obtain ⟨found, hfound, rfl⟩ := List.mem_map.mp hid
      exact (hgood.known found hfound).2
    · intro hid
      exact (hgood.visited id).mp (hall id hid)
  have hsame : (walk.ordered.map (·.id)).filterMap (availableIn modules) = walk.ordered := by
    rw [List.filterMap_map]
    have hknown : ∀ found ∈ walk.ordered, (availableIn modules ∘ (·.id)) found = some found :=
      fun found hfound => (hgood.known found hfound).1
    rw [List.filterMap_congr hknown, List.filterMap_some]
  exact ⟨hids, hsame ▸ hids.filterMap _⟩

/-- The resolution comes to an end for any modules and dependencies. It succeeds where the
enabled modules can be started together, and then lists each of them once, after all that
it depends on. -/
theorem build_resolves (modules : List ModuleDescriptor) (enabled : List String) :
    ∃ result, (∀ fuel, enabled.length < fuel → build modules enabled fuel = some result) ∧
      ((∃ registry, result = .ok registry) ↔ Resolvable modules enabled) ∧
      ∀ registry, result = .ok registry →
        (registry.modules.map (·.id)).Perm enabled.dedup ∧
        (∀ found ∈ registry.modules, availableIn modules found.id = some found) ∧
        DependenciesFirst registry.modules := by
  let sorted := enabled.dedup.insertionSort (· ≤ ·)
  have hsorted : sorted.Perm enabled.dedup := List.perm_insertionSort _ _
  have hmem : ∀ id, id ∈ sorted ↔ id ∈ enabled := fun id =>
    hsorted.mem_iff.trans List.mem_dedup
  have hlength : sorted.length ≤ enabled.length :=
    hsorted.length_eq.trans_le (List.dedup_sublist enabled).length_le
  have hends : each (visit (availableIn modules) sorted (enabled.length + 1)) sorted {} ≠ none :=
    roots_ends (fun _ hid _ _ => hid) (Nat.lt_succ_of_le hlength)
  have hfuel : ∀ fuel, enabled.length < fuel →
      each (visit (availableIn modules) sorted fuel) sorted {} =
        each (visit (availableIn modules) sorted (enabled.length + 1)) sorted {} := by
    intro fuel hlt
    cases heach : each (visit (availableIn modules) sorted (enabled.length + 1)) sorted {} with
    | none => exact absurd heach hends
    | some result => exact each_more (fun _ _ _ => visit_more hlt) heach
  cases heach : each (visit (availableIn modules) sorted (enabled.length + 1)) sorted {} with
  | none => exact absurd heach hends
  | some found =>
    cases found with
    | error error =>
      have hnot := (unresolvable_congr hmem).mp (roots_error heach)
      refine ⟨.error error, ?_, ?_, by simp⟩
      · intro fuel hlt
        simp only [build]
        rw [show each (visit (availableIn modules) (enabled.dedup.insertionSort (· ≤ ·)) fuel)
          (enabled.dedup.insertionSort (· ≤ ·)) {} = _ from (hfuel fuel hlt).trans heach]
      · refine ⟨by simp, fun hresolvable => absurd hnot (not_unresolvable_iff.mpr ?_)⟩
        exact ⟨hresolvable.available, hresolvable.closed, hresolvable.acyclic⟩
    | ok walk =>
      obtain ⟨hgood, hall⟩ := roots_good availableIn_id heach
      obtain ⟨hids, hordered⟩ := perm_of_good hgood hall hsorted
      have hresolved := fun h => not_unresolvable hgood.first hgood.nodup hgood.known
        (fun id hid => (hgood.visited id).mp (hall id hid)) ((unresolvable_congr hmem).mpr h)
      obtain ⟨havailable, hclosed, hacyclic⟩ := not_unresolvable_iff.mp hresolved
      have hclaimed := @claim_ok (walk.ordered.flatMap (·.operations)) []
      have honce : ((walk.ordered.flatMap (·.operations)).map (·.id)).Nodup ↔
          ((enabled.dedup.filterMap (availableIn modules)).flatMap
            fun found => found.operations.map (·.id)).Nodup := by
        rw [List.map_flatMap]
        exact (hordered.flatMap_right _).nodup_iff
      refine ⟨(do
        let operations ← (walk.ordered.flatMap (·.operations)).foldlM ModuleRegistry.claim []
        .ok ⟨walk.ordered, operations⟩), ?_, ?_, ?_⟩
      · intro fuel hlt
        simp only [build]
        rw [show each (visit (availableIn modules) (enabled.dedup.insertionSort (· ≤ ·)) fuel)
          (enabled.dedup.insertionSort (· ≤ ·)) {} = _ from (hfuel fuel hlt).trans heach]
      · constructor
        · intro ⟨registry, h⟩
          obtain ⟨operations, hoperations, -⟩ := bind_ok.mp h
          exact ⟨havailable, hclosed, hacyclic, honce.mp (hclaimed.mp ⟨operations, hoperations⟩).1⟩
        · intro hresolvable
          obtain ⟨operations, hoperations⟩ :=
            hclaimed.mpr ⟨honce.mpr hresolvable.once, by simp⟩
          exact ⟨⟨walk.ordered, operations⟩, bind_ok.mpr ⟨operations, hoperations, rfl⟩⟩
      · intro registry h
        obtain ⟨operations, -, hregistry⟩ := bind_ok.mp h
        obtain rfl := Except.ok.inj hregistry
        exact ⟨hids, fun found hfound => (hgood.known found hfound).1, hgood.first⟩

end

section
variable {enabled : List String} {fuel : Nat}

def Walk.progress (walk : Walk) : ModuleRegistry.Progress := ⟨walk.visited, walk.ordered⟩

/-- A loop of the daemon's resolution goes as this one, step by step. -/
theorem each_foldlM {step : Walk → String → Option (Except LiveError Walk)}
    {step' : ModuleRegistry.Progress → String → Except LiveError ModuleRegistry.Progress}
    {holds : Walk → Prop} {ids : List String} {walk : Walk} {result : Except LiveError Walk}
    (hstep : ∀ id ∈ ids, ∀ walk result, holds walk → step walk id = some result →
      step' walk.progress id = result.map Walk.progress ∧ ∀ after, result = .ok after → holds after)
    (hstart : holds walk) (h : each step ids walk = some result) :
    ids.foldlM step' walk.progress = result.map Walk.progress := by
  induction ids generalizing walk with
  | nil =>
    obtain rfl := Option.some.inj h
    rfl
  | cons id ids ih =>
    obtain ⟨hfirst, hrest⟩ := List.forall_mem_cons.mp hstep
    rw [List.foldlM_cons]
    rw [each] at h
    split at h
    · rename_i between hbetween
      obtain ⟨hsame, hkept⟩ := hfirst _ _ hstart hbetween
      rw [hsame]
      exact ih hrest (hkept between rfl) h
    · rename_i hother
      obtain ⟨hsame, -⟩ := hfirst _ _ hstart h
      cases result with
      | ok after => exact absurd h (hother after)
      | error error =>
        rw [hsame]
        rfl

theorem visit_progress {walk : Walk} {id : String} {result : Except LiveError Walk}
    (h : visit ModuleRegistry.available enabled fuel walk id = some result) :
    ModuleRegistry.visit enabled fuel walk.visiting walk.progress id
      = result.map Walk.progress := by
  induction fuel generalizing walk id result with
  | zero => cases h
  | succ fuel ih =>
    rw [ModuleRegistry.visit, show walk.progress.visited = walk.visited from rfl]
    by_cases hvisited : id ∈ walk.visited
    · rw [visit, if_pos hvisited] at h
      obtain rfl := Option.some.inj h
      rw [if_pos hvisited]
      rfl
    · by_cases hvisiting : id ∈ walk.visiting
      · rw [visit, if_neg hvisited, if_pos hvisiting] at h
        obtain rfl := Option.some.inj h
        rw [if_neg hvisited, if_pos hvisiting]
        rfl
      · rw [if_neg hvisited, if_neg hvisiting]
        cases hfound : ModuleRegistry.available id with
        | none =>
          rw [visit, if_neg hvisited, if_neg hvisiting, hfound] at h
          obtain rfl := Option.some.inj h
          rfl
        | some found =>
          rw [visit_found hvisited hvisiting hfound] at h
          let inTurn (progress : ModuleRegistry.Progress) (dependency : String) :
              Except LiveError ModuleRegistry.Progress :=
            if dependency ∉ enabled then
              .error (.capability s!"module {id} requires disabled module {dependency}")
            else ModuleRegistry.visit enabled fuel (id :: walk.visiting) progress dependency
          have hstep : ∀ dependency ∈ found.dependencies, ∀ (other : Walk)
              (next : Except LiveError Walk), other.visiting = id :: walk.visiting →
              visitDependency ModuleRegistry.available enabled fuel id other dependency = some next →
              inTurn other.progress dependency = next.map Walk.progress ∧
              ∀ after, next = .ok after → after.visiting = id :: walk.visiting := by
            intro dependency _ other next hother hnext
            refine ⟨?_, ?_⟩
            · unfold visitDependency at hnext
              split at hnext
              · rename_i hdisabled
                obtain rfl := Option.some.inj hnext
                exact if_pos hdisabled
              · rename_i hmem
                refine (if_neg hmem).trans ?_
                rw [← hother]
                exact ih hnext
            · intro after hafter
              subst hafter
              exact (visit_visiting (visitDependency_ok hnext).2).trans hother
          cases heach : each (visitDependency ModuleRegistry.available enabled fuel id)
            found.dependencies { walk with visiting := id :: walk.visiting } with
          | none =>
            rw [heach] at h
            cases h
          | some next =>
            rw [heach] at h
            have hsame := @each_foldlM _ inTurn (fun other => other.visiting = id :: walk.visiting)
              _ _ _ hstep rfl heach
            change (do
              let progress ← found.dependencies.foldlM inTurn walk.progress
              .ok (⟨id :: progress.visited, progress.ordered ++ [found]⟩ :
                ModuleRegistry.Progress)) = _
            rw [show walk.progress = Walk.progress { walk with visiting := id :: walk.visiting }
              from rfl, hsame]
            cases next with
            | ok between =>
              obtain rfl := Option.some.inj h
              rfl
            | error error =>
              obtain rfl := Option.some.inj h
              rfl

theorem availableIn_builtins : availableIn Modules.builtins = ModuleRegistry.available := by
  funext id
  cases hlast : availableIn Modules.builtins id with
  | none =>
    refine (List.find?_eq_none.mpr fun owner howner => ?_).symm
    exact List.find?_eq_none.mp hlast owner (List.mem_reverse.mpr howner)
  | some found =>
    have hmem : found ∈ Modules.builtins := List.mem_reverse.mp (List.mem_of_find?_eq_some hlast)
    have hid := availableIn_id id found hlast
    cases hfirst : ModuleRegistry.available id with
    | none =>
      have hnot := List.find?_eq_none.mp hfirst found hmem
      simp [hid] at hnot
    | some owner =>
      obtain ⟨howner, hownerId⟩ := ModuleRegistry.available_some hfirst
      rw [ModuleRegistry.builtins_unique hmem howner (hid.trans hownerId.symm)]

/-- The daemon's registry is the resolution of its own modules, whose number bounds the depth. -/
theorem build_builtins (hfuel : enabled.length < fuel) :
    build Modules.builtins enabled fuel = some (ModuleRegistry.build enabled) := by
  let sorted := enabled.dedup.insertionSort (· ≤ ·)
  have hbound : ∀ id ∈ sorted, ∀ found, ModuleRegistry.available id = some found →
      id ∈ Modules.builtins.map (·.id) := by
    intro id _ found hfound
    obtain ⟨hmem, rfl⟩ := ModuleRegistry.available_some hfound
    exact List.mem_map_of_mem hmem
  have hends : each (visit ModuleRegistry.available sorted ModuleRegistry.depth) sorted {} ≠ none :=
    roots_ends hbound (by simp [ModuleRegistry.depth])
  have hstep : ∀ id ∈ sorted, ∀ (walk : Walk) (next : Except LiveError Walk), walk.visiting = [] →
      visit ModuleRegistry.available sorted ModuleRegistry.depth walk id = some next →
      ModuleRegistry.visit sorted ModuleRegistry.depth [] walk.progress id
        = next.map Walk.progress ∧ ∀ after, next = .ok after → after.visiting = [] := by
    intro id _ walk next hwalk hnext
    refine ⟨hwalk ▸ visit_progress hnext, fun after hafter => ?_⟩
    subst hafter
    exact (visit_visiting hnext).trans hwalk
  have hlength : sorted.length < fuel :=
    ((List.perm_insertionSort _ _).length_eq.trans_le
      (List.dedup_sublist enabled).length_le).trans_lt hfuel
  have hends' : each (visit ModuleRegistry.available sorted fuel) sorted {} ≠ none :=
    roots_ends (fun _ hid _ _ => hid) hlength
  obtain ⟨result, hresult⟩ := Option.ne_none_iff_exists'.mp hends
  obtain ⟨result', hresult'⟩ := Option.ne_none_iff_exists'.mp hends'
  obtain rfl := roots_agree hresult hresult'
  have hsame := each_foldlM hstep rfl hresult
  rw [build, ModuleRegistry.build, availableIn_builtins]
  rw [show each (visit ModuleRegistry.available (enabled.dedup.insertionSort (· ≤ ·)) fuel)
    (enabled.dedup.insertionSort (· ≤ ·)) {} = _ from hresult']
  rw [show (enabled.dedup.insertionSort (· ≤ ·)).foldlM (ModuleRegistry.visit
    (enabled.dedup.insertionSort (· ≤ ·)) ModuleRegistry.depth []) {} = _ from hsame]
  cases result with
  | ok walk => rfl
  | error error => rfl

end
end HologramLive.Transport.Resolution
