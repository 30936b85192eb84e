import Mathlib.Data.List.Sort

/-! Sorting by comparisons that need not order anything but the list they are used on. -/

namespace HologramLive.Lib.Sorting
variable {α : Type}

/-- A comparison that orders the elements of a list. -/
structure Consistent (compare : α → α → Ordering) (list : List α) : Prop where
  swap : ∀ left ∈ list, ∀ right ∈ list, compare right left = (compare left right).swap
  trans : ∀ first ∈ list, ∀ second ∈ list, ∀ third ∈ list, compare first second ≠ .gt →
    compare second third ≠ .gt → compare first third ≠ .gt

section Insertion
variable {compare : α → α → Ordering}

theorem Consistent.subset {list larger : List α} (h : Consistent compare larger)
    (hsub : ∀ element ∈ list, element ∈ larger) : Consistent compare list where
  swap := fun left hleft right hright => h.swap left (hsub left hleft) right (hsub right hright)
  trans := fun first hfirst second hsecond third hthird =>
    h.trans first (hsub first hfirst) second (hsub second hsecond) third (hsub third hthird)

/-- Elements compared by keys that are in an order. -/
theorem Consistent.of_key {κ : Type} [LinearOrder κ] (key : α → κ) (list : List α) :
    Consistent (fun left right => Ord.compare (key left) (key right)) list where
  swap := by
    intro left _ right _
    rcases lt_trichotomy (key left) (key right) with hlt | heq | hgt
    · rw [compare_lt_iff_lt.mpr hlt, compare_gt_iff_gt.mpr hlt]
      rfl
    · rw [heq, compare_eq_iff_eq.mpr rfl]
      rfl
    · rw [compare_gt_iff_gt.mpr hgt, compare_lt_iff_lt.mpr hgt]
      rfl
  trans := by
    intro first _ second _ third _ hbefore hafter
    rw [compare_le_iff_le] at hbefore hafter ⊢
    exact hbefore.trans hafter

/-- The other way round. -/
theorem Consistent.reverse {list : List α} (h : Consistent compare list) :
    Consistent (fun left right => compare right left) list where
  swap := fun left hleft right hright => h.swap right hright left hleft
  trans := fun first hfirst second hsecond third hthird hbefore hafter =>
    h.trans third hthird second hsecond first hfirst hafter hbefore

def insertionSort (compare : α → α → Ordering) (list : List α) : List α :=
  list.insertionSort fun left right => compare left right ≠ .gt

theorem insertionSort_perm (list : List α) : (insertionSort compare list).Perm list :=
  List.perm_insertionSort _ list

theorem orderedInsert_ordered {element : α} {list : List α}
    (h : Consistent compare (element :: list))
    (hlist : list.Pairwise fun left right => compare left right ≠ .gt) :
    (list.orderedInsert (fun left right => compare left right ≠ .gt) element).Pairwise
      fun left right => compare left right ≠ .gt := by
  induction list with
  | nil => simp
  | cons first rest ih =>
    obtain ⟨hfirst, hrest⟩ := List.pairwise_cons.mp hlist
    rw [List.orderedInsert_cons]
    split
    · rename_i hbefore
      refine List.pairwise_cons.mpr ⟨?_, hlist⟩
      intro later hlater
      rcases List.mem_cons.mp hlater with rfl | hlater
      · exact hbefore
      · exact h.trans element (by simp) first (by simp) later (by simp [hlater]) hbefore
          (hfirst later hlater)
    · rename_i hafter
      have hswap := h.swap element (by simp) first (by simp)
      refine List.pairwise_cons.mpr ⟨?_, ih (h.subset ?_) hrest⟩
      · intro later hlater
        rcases (List.mem_orderedInsert _).mp hlater with rfl | hlater
        · simp only [ne_eq, not_not] at hafter
          rw [hswap, hafter]
          decide
        · exact hfirst later hlater
      · intro later hlater
        rcases List.mem_cons.mp hlater with rfl | hlater
        · simp
        · simp [hlater]

theorem insertionSort_ordered {list : List α} (h : Consistent compare list) :
    (insertionSort compare list).Pairwise fun left right => compare left right ≠ .gt := by
  induction list with
  | nil => simp [insertionSort]
  | cons first rest ih =>
    have hrest : Consistent compare rest := h.subset fun _ hmem => List.mem_cons_of_mem _ hmem
    apply orderedInsert_ordered
    · refine h.subset fun element hmem => ?_
      rcases List.mem_cons.mp hmem with rfl | hmem
      · simp
      · exact List.mem_cons_of_mem _ ((insertionSort_perm rest).mem_iff.mp hmem)
    · exact ih hrest

end Insertion

/-- Where keys tell elements apart, the sorted list does not depend on the order given. -/
theorem sorted_congr {κ : Type} [LinearOrder κ] {key : α → κ} {list other : List α}
    (hkey : ∀ left ∈ list, ∀ right ∈ list, key left = key right → left = right)
    (hperm : list.Perm other) :
    list.insertionSort (fun left right => key left ≤ key right) =
      other.insertionSort fun left right => key left ≤ key right := by
  have hsorted (elements : List α) :
      (elements.insertionSort fun left right => key left ≤ key right).Pairwise
        fun left right => key left ≤ key right := by
    have : Std.Total (fun left right : α => key left ≤ key right) := ⟨fun _ _ => le_total _ _⟩
    have : IsTrans α (fun left right => key left ≤ key right) := ⟨fun _ _ _ => le_trans⟩
    exact List.pairwise_insertionSort _ elements
  have hboth := ((List.perm_insertionSort (fun left right => key left ≤ key right) list).trans
    hperm).trans (List.perm_insertionSort (fun left right => key left ≤ key right) other).symm
  refine hboth.eq_of_pairwise ?_ (hsorted list) (hsorted other)
  intro left right hleft hright hle hge
  have hleft := (List.mem_insertionSort _).mp hleft
  have hright := hperm.mem_iff.mpr ((List.mem_insertionSort _).mp hright)
  exact hkey left hleft right hright (le_antisymm hle hge)

/-- Elements with keys of their own are sorted strictly. -/
theorem sorted_lt {κ : Type} [LinearOrder κ] {key : α → κ} {list : List α}
    (hkeys : (list.map key).Nodup) :
    (list.insertionSort fun left right => key left ≤ key right).Pairwise
      fun left right => key left < key right := by
  have : Std.Total (fun left right : α => key left ≤ key right) := ⟨fun _ _ => le_total _ _⟩
  have : IsTrans α (fun left right => key left ≤ key right) := ⟨fun _ _ _ => le_trans⟩
  have hle := List.pairwise_insertionSort (fun left right => key left ≤ key right) list
  have hperm := List.perm_insertionSort (fun left right => key left ≤ key right) list
  have hne := List.pairwise_map.mp ((hperm.map key).nodup_iff.mpr hkeys)
  exact (hle.and hne).imp fun h => lt_of_le_of_ne h.1 h.2

/-- A list in strict order of its keys is known by its elements. -/
theorem eq_of_mem_iff {κ : Type} [LinearOrder κ] {key : α → κ} {list other : List α}
    (hlist : list.Pairwise fun left right => key left < key right)
    (hother : other.Pairwise fun left right => key left < key right)
    (h : ∀ element, element ∈ list ↔ element ∈ other) : list = other := by
  have hne {first second : α} (hlt : key first < key second) : first ≠ second :=
    fun heq => (heq ▸ hlt).false
  have hperm : list.Perm other :=
    (List.perm_ext_iff_of_nodup (hlist.imp hne) (hother.imp hne)).mpr h
  exact hperm.eq_of_pairwise (fun _ _ _ _ hlt hgt => absurd hgt (lt_asymm hlt)) hlist hother

/-- A way to sort. It puts a list in order where the comparison orders it, and else in some order. -/
structure Sorter where
  sort : ∀ {α : Type}, (α → α → Ordering) → List α → List α
  perm : ∀ {α : Type} (compare : α → α → Ordering) (list : List α), (sort compare list).Perm list
  ordered : ∀ {α : Type} {compare : α → α → Ordering} {list : List α}, Consistent compare list →
    (sort compare list).Pairwise fun left right => compare left right ≠ .gt

namespace Sorter

def insertion : Sorter where
  sort := insertionSort
  perm _ := insertionSort_perm
  ordered := insertionSort_ordered

open Classical in
/-- Where a list can be left out of order it is. -/
noncomputable def worst : Sorter where
  sort compare list :=
    if h : ∃ worse : List _, worse.Perm list ∧
        ¬ worse.Pairwise (fun left right => compare left right ≠ .gt) ∧ ¬ Consistent compare list
    then h.choose else insertionSort compare list
  perm compare list := by
    split
    · rename_i h
      exact h.choose_spec.1
    · exact insertionSort_perm list
  ordered := by
    intro α compare list hconsistent
    rw [dif_neg fun ⟨_, _, _, hnot⟩ => hnot hconsistent]
    exact insertionSort_ordered hconsistent

end Sorter

/-- One element before another. -/
theorem exists_perm_before {list : List α} {first second : α} (hfirst : first ∈ list)
    (hsecond : second ∈ list) (hne : first ≠ second) :
    ∃ rest, (first :: second :: rest).Perm list := by
  classical
  refine ⟨(list.erase first).erase second, ?_⟩
  have hrest : second ∈ list.erase first := (List.mem_erase_of_ne hne.symm).mpr hsecond
  exact ((List.perm_cons_erase hrest).symm.cons first).trans (List.perm_cons_erase hfirst).symm

/-- Every way to sort leaves a list in order just where the comparison orders it. -/
theorem ordered_iff {compare : α → α → Ordering} {list : List α}
    (hswap : ∀ left ∈ list, ∀ right ∈ list, compare right left = (compare left right).swap) :
    (∀ sorter : Sorter, (sorter.sort compare list).Pairwise fun left right =>
      compare left right ≠ .gt) ↔ Consistent compare list := by
  constructor
  · intro hordered
    refine ⟨hswap, ?_⟩
    intro first hfirst second hsecond third hthird hbefore hafter habove
    have hnot : ¬ Consistent compare list := fun h =>
      h.trans first hfirst second hsecond third hthird hbefore hafter habove
    have hne : first ≠ third := by
      rintro rfl
      have hself := hswap first hfirst first hfirst
      rw [habove] at hself
      cases hself
    obtain ⟨rest, hperm⟩ := exists_perm_before hfirst hthird hne
    have hworse : ¬ (first :: third :: rest).Pairwise fun left right => compare left right ≠ .gt := by
      intro hpairwise
      exact (List.pairwise_cons.mp hpairwise).1 third (by simp) habove
    have hexists : ∃ worse : List α, worse.Perm list ∧
        ¬ worse.Pairwise (fun left right => compare left right ≠ .gt) ∧
          ¬ Consistent compare list := ⟨_, hperm, hworse, hnot⟩
    have hworst := hordered Sorter.worst
    simp only [Sorter.worst, dif_pos hexists] at hworst
    exact hexists.choose_spec.2.1 hworst
  · exact fun hconsistent sorter => sorter.ordered hconsistent

end HologramLive.Lib.Sorting
