import HologramLive.Lib.DepthFirst
import HologramLive.Plan.Types
import Mathlib.Data.List.Sort

namespace HologramLive.Lifecycle
open Plan Lib.DepthFirst

def beforeSibling (left right : ResolvedChild) : Prop :=
  left.position < right.position ∨
    left.position = right.position ∧ left.applicationIndex ≤ right.applicationIndex

instance : DecidableRel beforeSibling :=
  fun left right => inferInstanceAs (Decidable (_ ∨ _ ∧ left.applicationIndex ≤ right.applicationIndex))

/-- The children of one application in manifest order. -/
def childrenOf (plan : ApplicationPlan) (index : Nat) : List Nat :=
  ((plan.children.filter fun child => child.parentApplicationIndex = index).insertionSort
    beforeSibling).map (·.applicationIndex)

/-- The stack traversal, with fuel for one pop more than there are applications.
The code has no bound: running out stands for a traversal that lists too many
applications, which ends in the same conflict if it ends. -/
def lifecycleApplicationOrder (plan : ApplicationPlan) : Except LiveError (List Nat) :=
  let planned := plan.children.length + 1
  match run (childrenOf plan) (planned + 1) [0] [] with
  | none => .error (.conflict s!"runtime lifecycle traversal passed {planned} planned applications")
  | some order =>
    if order.length ≠ planned then
      .error (.conflict
        s!"runtime lifecycle traversal reached {order.length} of {planned} planned applications")
    else .ok order

/-- Any order the traversal returns is a depth-first one. -/
theorem lifecycleApplicationOrder_sound (h : lifecycleApplicationOrder plan = .ok order) :
    Visits (childrenOf plan) [0] order := by
  dsimp only [lifecycleApplicationOrder] at h
  cases hrun : run (childrenOf plan) (plan.children.length + 1 + 1) [0] [] with
  | none => simp [hrun] at h
  | some visited =>
    obtain ⟨visited', hvisits, rfl⟩ := run_sound hrun
    simp only [hrun] at h
    split at h
    · cases h
    · cases h
      exact hvisits

theorem mem_childrenOf {plan : ApplicationPlan} :
    j ∈ childrenOf plan i ↔
      ∃ child ∈ plan.children, child.parentApplicationIndex = i ∧ child.applicationIndex = j := by
  simp only [childrenOf, List.mem_map, List.mem_insertionSort, List.mem_filter,
    decide_eq_true_eq, and_assoc]

/-- The children are numbered from one on in some order, and listed after their parents. -/
structure Listed (plan : ApplicationPlan) : Prop where
  numbered : (plan.children.map (·.applicationIndex)).Perm (List.range' 1 plan.children.length)
  parents : ∀ before (child : ResolvedChild) after, plan.children = before ++ child :: after →
    child.parentApplicationIndex ∈ 0 :: before.map (·.applicationIndex)

theorem Listed.of_ordered {plan : ApplicationPlan} (h : plan.Ordered) : Listed plan where
  numbered := .of_eq h.numbered
  parents := by
    intro before child after hsplit
    have hparent := h.parents child (by simp [hsplit])
    have hnumbered := h.numbered
    rw [hsplit, List.map_append, List.map_cons, List.length_append, List.length_cons,
      ← List.range'_append_1, List.range'_succ] at hnumbered
    obtain ⟨hbefore, hchild⟩ := List.append_inj hnumbered (by simp)
    obtain ⟨hindex, -⟩ := List.cons.inj hchild
    rw [List.mem_cons, hbefore, List.mem_range'_1]
    omega

section Listed
variable {plan : ApplicationPlan} (h : Listed plan)
include h

theorem index_bounds (hc : child ∈ plan.children) :
    1 ≤ child.applicationIndex ∧ child.applicationIndex ≤ plan.children.length := by
  have hmem := List.mem_map_of_mem (f := (·.applicationIndex)) hc
  rw [h.numbered.mem_iff, List.mem_range'_1] at hmem
  omega

theorem indices_nodup : (plan.children.map (·.applicationIndex)).Nodup :=
  h.numbered.nodup_iff.mpr List.nodup_range'

theorem child_unique (hc : child ∈ plan.children) (hc' : child' ∈ plan.children)
    (heq : child.applicationIndex = child'.applicationIndex) : child = child' :=
  List.inj_on_of_nodup_map (indices_nodup h) hc hc' heq

omit h in
/-- Where an application stands: the root first, then the children as they are listed. -/
def standing (plan : ApplicationPlan) (index : Nat) : Nat :=
  (0 :: plan.children.map (·.applicationIndex)).idxOf index

theorem standing_child {i j : Nat} (hj : j ∈ childrenOf plan i) :
    standing plan i < standing plan j ∧ standing plan j ≤ plan.children.length := by
  obtain ⟨child, hc, rfl, rfl⟩ := mem_childrenOf.mp hj
  obtain ⟨before, after, hsplit⟩ := List.append_of_mem hc
  have hparent := h.parents before child after hsplit
  have hlist : 0 :: plan.children.map (·.applicationIndex) =
      (0 :: before.map (·.applicationIndex)) ++
        child.applicationIndex :: after.map (·.applicationIndex) := by
    rw [hsplit]
    simp
  have hnew : child.applicationIndex ∉ 0 :: before.map (·.applicationIndex) := by
    have hpos := (index_bounds h hc).1
    have hnodup := indices_nodup h
    rw [hsplit, List.map_append, List.map_cons] at hnodup
    have hfresh := (List.nodup_append.mp hnodup).2.2
    rw [List.mem_cons, not_or]
    refine ⟨by omega, fun hmem => hfresh _ hmem _ List.mem_cons_self rfl⟩
  have hstanding : standing plan child.applicationIndex = before.length + 1 := by
    rw [standing, hlist, List.idxOf_append_of_notMem hnew]
    simp
  have hbefore : standing plan child.parentApplicationIndex < before.length + 1 := by
    rw [standing, hlist, List.idxOf_append_of_mem hparent]
    simpa using List.idxOf_lt_length_of_mem hparent
  have hlength : plan.children.length = before.length + (after.length + 1) := by
    rw [hsplit]
    simp
  omega

theorem childrenOf_rank (i : Nat) (hj : j ∈ childrenOf plan i) :
    plan.children.length + 1 - standing plan j < plan.children.length + 1 - standing plan i := by
  have hstanding := standing_child h hj
  omega

theorem childrenOf_parent (hi : j ∈ childrenOf plan i) (hi' : j ∈ childrenOf plan i') : i = i' := by
  obtain ⟨child, hc, rfl, heq⟩ := mem_childrenOf.mp hi
  obtain ⟨child', hc', rfl, heq'⟩ := mem_childrenOf.mp hi'
  rw [child_unique h hc hc' (heq.trans heq'.symm)]

theorem childrenOf_nodup (i : Nat) : (childrenOf plan i).Nodup := by
  have hsub : ((plan.children.filter fun child => child.parentApplicationIndex = i).map
      (·.applicationIndex)).Nodup :=
    (indices_nodup h).sublist (List.filter_sublist.map _)
  exact ((List.perm_insertionSort beforeSibling _).map _).nodup_iff.mpr hsub

/-- Every planned application is below the root. -/
theorem root_reaches (i : Nat) (hi : i ≤ plan.children.length) : Reaches (childrenOf plan) 0 i := by
  rcases Nat.eq_zero_or_pos i with rfl | hpos
  · exact .refl
  · have hmem : i ∈ plan.children.map (·.applicationIndex) := by
      rw [h.numbered.mem_iff, List.mem_range'_1]
      omega
    obtain ⟨child, hc, rfl⟩ := List.mem_map.mp hmem
    obtain ⟨before, after, hsplit⟩ := List.append_of_mem hc
    clear hmem hpos hi
    -- the parent is the root, or one of those listed before
    induction hlength : before.length using Nat.strong_induction_on generalizing before child after with
    | _ length ih =>
      have hstep : child.applicationIndex ∈ childrenOf plan child.parentApplicationIndex :=
        mem_childrenOf.mpr ⟨child, hc, rfl, rfl⟩
      rcases List.mem_cons.mp (h.parents before child after hsplit) with hroot | hearlier
      · exact .tail (hroot ▸ .refl) hstep
      · obtain ⟨parent, hparent, hindex⟩ := List.mem_map.mp hearlier
        obtain ⟨front, back, hbefore⟩ := List.append_of_mem hparent
        have hreach := ih front.length (by rw [← hlength, hbefore]; simp) parent
          (by rw [hsplit]; simp [hparent]) front (back ++ child :: after)
          (by rw [hsplit, hbefore]; simp) rfl
        rw [hindex] at hreach
        exact .tail hreach hstep

theorem reaches_bound (hreach : Reaches (childrenOf plan) 0 i) : i ≤ plan.children.length := by
  cases hreach with
  | refl => exact Nat.zero_le _
  | tail _ hlast =>
    obtain ⟨child, hc, _, rfl⟩ := mem_childrenOf.mp hlast
    exact (index_bounds h hc).2

/-- For a planned tree the traversal lists every application once, depth first. -/
theorem lifecycleApplicationOrder_visits :
    ∃ order, lifecycleApplicationOrder plan = .ok order ∧
      Visits (childrenOf plan) [0] order ∧ order.Nodup ∧
      ∀ i, i ∈ order ↔ i ≤ plan.children.length := by
  have hrank := fun i j (hj : j ∈ childrenOf plan i) => childrenOf_rank h i hj
  obtain ⟨order, hvisits⟩ := visits_exists (fun i => plan.children.length + 1 - standing plan i) hrank [0]
  have hnodup : order.Nodup := by
    refine visits_nodup hrank (fun _ _ _ => childrenOf_parent h) (childrenOf_nodup h) hvisits
      (List.nodup_singleton 0) ?_
    simp
  have hmem : ∀ i, i ∈ order ↔ i ≤ plan.children.length := by
    intro i
    rw [mem_visits hvisits]
    simp only [List.mem_singleton, exists_eq_left]
    exact ⟨reaches_bound h, root_reaches h i⟩
  have hlength : order.length = plan.children.length + 1 := by
    have hperm : order.Perm (List.range (plan.children.length + 1)) := by
      rw [List.perm_ext_iff_of_nodup hnodup List.nodup_range]
      intro i
      rw [hmem, List.mem_range]
      omega
    rw [hperm.length_eq, List.length_range]
  refine ⟨order, ?_, hvisits, hnodup, hmem⟩
  have hrun : run (childrenOf plan) (plan.children.length + 1 + 1) [0] [] = some order := by
    rw [← hlength]
    exact run_visits hvisits 1 [] []
  rw [lifecycleApplicationOrder, hrun]
  simp [hlength]

omit h in
theorem beforeSibling_total (left right : ResolvedChild) :
    beforeSibling left right ∨ beforeSibling right left := by
  unfold beforeSibling
  omega

omit h in
theorem beforeSibling_trans {first second third : ResolvedChild} (hbefore : beforeSibling first second)
    (hafter : beforeSibling second third) : beforeSibling first third := by
  unfold beforeSibling at *
  omega

omit h in
/-- The children of an application, by their positions. -/
theorem childrenOf_siblings (index : Nat) : ∃ siblings : List ResolvedChild,
    siblings.Perm (plan.children.filter fun child => child.parentApplicationIndex = index) ∧
      siblings.Pairwise (fun left right => left.position ≤ right.position) ∧
        childrenOf plan index = siblings.map (·.applicationIndex) := by
  have : Std.Total beforeSibling := ⟨beforeSibling_total⟩
  have : IsTrans ResolvedChild beforeSibling := ⟨fun _ _ _ => beforeSibling_trans⟩
  refine ⟨_, List.perm_insertionSort beforeSibling _, ?_, rfl⟩
  refine (List.pairwise_insertionSort beforeSibling _).imp ?_
  intro left right hbefore
  unfold beforeSibling at hbefore
  omega

/-- The traversal ends, and lists every application once: before the applications below it, the
children by their positions, and with all that is below it in one piece. -/
theorem lifecycleApplicationOrder_preorder : ∃ order subtree,
    lifecycleApplicationOrder plan = .ok order ∧
      order.Perm (0 :: plan.children.map (·.applicationIndex)) ∧ order = subtree 0 ∧
        (∀ index, subtree index = index :: (childrenOf plan index).flatMap subtree) ∧
        (∀ index, ∃ siblings : List ResolvedChild,
          siblings.Perm (plan.children.filter fun child => child.parentApplicationIndex = index) ∧
            siblings.Pairwise (fun left right => left.position ≤ right.position) ∧
              childrenOf plan index = siblings.map (·.applicationIndex)) ∧
        (∀ index below, below ∈ subtree index ↔ Reaches (childrenOf plan) index below) ∧
        ∀ index ∈ order, (∃ before after, order = before ++ subtree index ++ after) ∧
          ∀ below, Reaches (childrenOf plan) index below → below ≠ index →
            ∃ before between after, order = before ++ index :: between ++ below :: after := by
  obtain ⟨order, horder, hvisits, hnodup, hmem⟩ := lifecycleApplicationOrder_visits h
  obtain ⟨subtree, hsubtree⟩ := subtrees_exist fun i j hj => childrenOf_rank h i hj
  refine ⟨order, subtree, horder, ?_, visits_deterministic hvisits (hsubtree.visits 0),
    hsubtree.preorder, childrenOf_siblings, fun _ _ => hsubtree.mem, fun index hindex => ?_⟩
  · have hfresh : 0 ∉ plan.children.map (·.applicationIndex) := by
      rw [h.numbered.mem_iff, List.mem_range'_1]
      omega
    rw [List.perm_ext_iff_of_nodup hnodup (List.nodup_cons.mpr ⟨hfresh, indices_nodup h⟩)]
    intro i
    rw [hmem, List.mem_cons, h.numbered.mem_iff, List.mem_range'_1]
    omega
  · exact ⟨hsubtree.contiguous hvisits hindex, fun _ => hsubtree.precedes hvisits hindex⟩

end Listed

/-- A child without layers of its own. -/
def plannedChild (position parent index : Nat) : ResolvedChild where
  position
  parentApplicationIndex := parent
  parentApplicationKappa := ""
  applicationIndex := index
  applicationKappa := ""
  delegatedCapabilities := ⟨"", [], {}⟩
  requestedCapabilities := ⟨"", [], {}⟩
  primaryLayer := none
  layers := []

/-- Two children of the root, the later listed first, and a child of it. -/
def familyPlan : ApplicationPlan where
  identity := ⟨"", "", ""⟩
  primaryLayer := none
  requiresKappa := ""
  requestedCapabilities := ⟨"", [], {}⟩
  layers := []
  children := [plannedChild 1 0 2, plannedChild 0 2 3, plannedChild 0 0 1]
  objects := []
  manifest := ⟨none, "", [], []⟩

theorem familyPlan_listed : Listed familyPlan where
  numbered := by decide
  parents := by
    intro before child after hsplit
    rcases before with _ | ⟨first, _ | ⟨second, _ | ⟨third, rest⟩⟩⟩
    all_goals
      simp only [familyPlan, List.nil_append, List.cons_append, List.cons.injEq] at hsplit
    · obtain ⟨rfl, -⟩ := hsplit
      decide
    · obtain ⟨rfl, rfl, -⟩ := hsplit
      decide
    · obtain ⟨rfl, rfl, rfl, -⟩ := hsplit
      decide
    · simp at hsplit

theorem familyPlan_preorder : ∃ order subtree,
    lifecycleApplicationOrder familyPlan = .ok order ∧ order = [0, 1, 2, 3] ∧
      ∀ index, subtree index = index :: (childrenOf familyPlan index).flatMap subtree := by
  obtain ⟨order, subtree, horder, -, -, hsubtree, -⟩ :=
    lifecycleApplicationOrder_preorder familyPlan_listed
  have hran : lifecycleApplicationOrder familyPlan = .ok [0, 1, 2, 3] := by decide
  rw [hran] at horder
  exact ⟨_, subtree, hran, rfl, hsubtree⟩

end HologramLive.Lifecycle
