import HologramLive.Lib.Pieces
import HologramLive.Lib.Result
import HologramLive.View.Path

namespace HologramLive.View
open Lib Lib.Result Lib.Pieces

def assetCharacter (c : Char) : Bool := isAsciiAlphanumeric c || c == '-' || c == '_' || c == '.'

/-- A path with nothing to normalize away. -/
def Normal (path : String) : Prop :=
  ∀ segment ∈ path.toList.splitOn '/', segment ≠ [] ∧ segment ≠ ['.']

/-- The parts of a path that is portable. -/
structure PortablePart (part : List Char) : Prop where
  nonempty : part ≠ []
  noDot : part ≠ ['.']
  noParent : part ≠ ['.', '.']
  characters : ∀ c ∈ part, assetCharacter c = true

theorem validateComponent_portable (h : validateComponent part = .ok ()) : PortablePart part := by
  unfold validateComponent at h
  dsimp only at h
  split at h
  · rename_i hvalid
    simp only [Bool.and_eq_true, decide_eq_true_eq, List.all_eq_true] at hvalid
    obtain ⟨⟨⟨⟨⟨hne, hdot⟩, hparent⟩, _⟩, hchars⟩, _⟩ := hvalid
    exact ⟨hne, hdot, hparent, hchars⟩
  · cases h

theorem PortablePart.no_slash (h : PortablePart part) : '/' ∉ part := by
  intro hmem
  have hslash := h.characters '/' hmem
  revert hslash
  decide

theorem portableParts_ok {found : List Component} {parts : List (List Char)} :
    portableParts found = .ok parts ↔
      found = parts.map .normal ∧ ∀ part ∈ parts, validateComponent part = .ok () := by
  induction found generalizing parts with
  | nil =>
    cases parts with
    | nil => simp [portableParts]
    | cons part parts => simp [portableParts]
  | cons first rest ih =>
    cases first with
    | normal part =>
      rw [portableParts, check_ok, bind_ok]
      constructor
      · rintro ⟨hpart, others, hothers, hall⟩
        obtain ⟨rfl, hvalid⟩ := ih.mp hothers
        obtain rfl := Except.ok.inj hall
        exact ⟨rfl, List.forall_mem_cons.mpr ⟨hpart, hvalid⟩⟩
      · rintro ⟨hcomponents, hparts⟩
        cases parts with
        | nil => cases hcomponents
        | cons part' parts =>
          obtain ⟨hfirst, hrest⟩ := List.cons.inj hcomponents
          obtain rfl := Component.normal.inj hfirst
          obtain ⟨hpart, hothers⟩ := List.forall_mem_cons.mp hparts
          exact ⟨hpart, parts, ih.mpr ⟨hrest, hothers⟩, rfl⟩
    | rootDir => cases parts <;> simp [portableParts]
    | curDir => cases parts <;> simp [portableParts]
    | parentDir => cases parts <;> simp [portableParts]

/-- A portable path has only named components, so none was implied by how it starts. -/
theorem components_normal {path : List Char} {parts : List (List Char)}
    (h : components path = parts.map .normal) :
    (path.splitOn '/').filterMap component = parts.map .normal := by
  unfold components at h
  dsimp only at h
  split at h
  · cases parts <;> cases h
  · cases parts <;> cases h
  · exact h

theorem filterMap_component {segments parts : List (List Char)}
    (hnormal : ∀ segment ∈ segments, segment ≠ [] ∧ segment ≠ ['.'])
    (h : segments.filterMap component = parts.map .normal) : segments = parts := by
  induction segments generalizing parts with
  | nil =>
    cases parts with
    | nil => rfl
    | cons part parts => cases h
  | cons segment rest ih =>
    obtain ⟨hne, hdot⟩ := hnormal segment (by simp)
    have hrest : ∀ other ∈ rest, other ≠ [] ∧ other ≠ ['.'] :=
      fun other hother => hnormal other (by simp [hother])
    by_cases hparent : segment = ['.', '.']
    · subst hparent
      cases parts <;> cases h
    · have hcomponent : component segment = some (.normal segment) := by
        unfold component
        split <;> simp_all
      rw [List.filterMap_cons_some hcomponent] at h
      cases parts with
      | nil => cases h
      | cons part parts =>
        obtain ⟨hfirst, htail⟩ := List.cons.inj h
        obtain rfl := Component.normal.inj hfirst
        rw [ih hrest htail]

theorem portablePath_ok : portablePath path = .ok logical ↔
    ∃ parts, components path.toList = parts.map .normal ∧
      (∀ part ∈ parts, validateComponent part = .ok ()) ∧
      logical = String.ofList (['/'].intercalate parts) ∧
      ¬ (logical.utf8ByteSize = 0 ∨ maxPathBytes < logical.utf8ByteSize) := by
  unfold portablePath
  rw [bind_ok]
  constructor
  · rintro ⟨parts, hparts, h⟩
    obtain ⟨hcomponents, hvalid⟩ := portableParts_ok.mp hparts
    obtain ⟨hsize, h⟩ := guard_ok.mp h
    obtain rfl := Except.ok.inj h
    exact ⟨parts, hcomponents, hvalid, rfl, hsize⟩
  · rintro ⟨parts, hcomponents, hvalid, rfl, hsize⟩
    exact ⟨parts, portableParts_ok.mpr ⟨hcomponents, hvalid⟩, guard_ok.mpr ⟨hsize, rfl⟩⟩

/-- A portable path is its own logical form exactly where it is normal. -/
theorem portablePath_self (h : portablePath path = .ok logical) : logical = path ↔ Normal path := by
  obtain ⟨parts, hcomponents, hvalid, rfl, hsize⟩ := portablePath_ok.mp h
  have hportable : ∀ part ∈ parts, PortablePart part :=
    fun part hmem => validateComponent_portable (hvalid part hmem)
  constructor
  · intro hself
    have hne : parts ≠ [] := by
      rintro rfl
      exact hsize (.inl (by simp))
    have hsplit : path.toList.splitOn '/' = parts := by
      rw [← hself, String.toList_ofList]
      exact splitOn_join hne fun part hmem => (hportable part hmem).no_slash
    intro segment hsegment
    rw [hsplit] at hsegment
    exact ⟨(hportable segment hsegment).nonempty, (hportable segment hsegment).noDot⟩
  · intro hnormal
    have hsame := filterMap_component hnormal (components_normal hcomponents)
    rw [← hsame, List.intercalate_splitOn, String.ofList_toList]

/-- The segments of a normal path that is portable. -/
theorem Normal.portable (hnormal : Normal path) (h : portablePath path = .ok logical) :
    ∀ segment ∈ path.toList.splitOn '/', PortablePart segment := by
  obtain ⟨parts, hcomponents, hvalid, rfl, _⟩ := portablePath_ok.mp h
  have hsame := filterMap_component hnormal (components_normal hcomponents)
  intro segment hsegment
  rw [hsame] at hsegment
  exact validateComponent_portable (hvalid segment hsegment)

end HologramLive.View
