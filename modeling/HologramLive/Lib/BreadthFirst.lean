import Mathlib.Data.List.Nodup
import Mathlib.Data.List.Range
import Mathlib.Data.Nat.Find
import Mathlib.Order.Bounds.Basic

namespace HologramLive.Lib.BreadthFirst
variable {α : Type} {next : α → List α} {roots : List α} {a b : α} {n m : Nat}

/-- There is a walk of this length from a root. -/
def Walk (next : α → List α) (roots : List α) : Nat → α → Prop
  | 0, a => a ∈ roots
  | n + 1, a => ∃ b, Walk next roots n b ∧ a ∈ next b

def Reachable (next : α → List α) (roots : List α) (a : α) : Prop := ∃ n, Walk next roots n a

/-- The length of the shortest walks to a node. -/
def Distance (next : α → List α) (roots : List α) (a : α) (n : Nat) : Prop :=
  IsLeast { n | Walk next roots n a } n

theorem Reachable.distance (h : Reachable next roots a) : ∃ n, Distance next roots a n := by
  classical
  exact ⟨Nat.find h, Nat.find_spec h, fun _ hm => Nat.find_min' h hm⟩

theorem Distance.unique (h : Distance next roots a n) (h' : Distance next roots a m) : n = m :=
  IsLeast.unique h h'

theorem Reachable.step (h : Reachable next roots a) (hb : b ∈ next a) : Reachable next roots b := by
  obtain ⟨n, hn⟩ := h
  exact ⟨n + 1, a, hn, hb⟩

section Order
variable [DecidableEq α] {seen candidates : List α}

/-- The first occurrences of what has not been seen. -/
def firsts (seen : List α) : List α → List α
  | [] => []
  | a :: rest => if a ∈ seen then firsts seen rest else a :: firsts (seen ++ [a]) rest

theorem mem_firsts : a ∈ firsts seen candidates ↔ a ∈ candidates ∧ a ∉ seen := by
  induction candidates generalizing seen with
  | nil => simp [firsts]
  | cons b rest ih =>
    rw [firsts]
    split
    · rename_i hseen
      rw [ih, List.mem_cons]
      constructor
      · exact fun ⟨hrest, hnew⟩ => ⟨.inr hrest, hnew⟩
      · rintro ⟨rfl | hrest, hnew⟩
        · exact absurd hseen hnew
        · exact ⟨hrest, hnew⟩
    · rename_i hnew
      rw [List.mem_cons, ih, List.mem_append, List.mem_singleton, List.mem_cons]
      by_cases hsame : a = b
      · simp [hsame, hnew]
      · simp [hsame]

theorem nodup_firsts (seen candidates : List α) : (firsts seen candidates).Nodup := by
  induction candidates generalizing seen with
  | nil => simp [firsts]
  | cons b rest ih =>
    rw [firsts]
    split
    · exact ih seen
    · rw [List.nodup_cons, mem_firsts]
      exact ⟨by simp, ih _⟩

/-- What has been seen before a layer and the candidates for it. -/
def layer (next : α → List α) (roots : List α) : Nat → List α × List α
  | 0 => ([], roots)
  | n + 1 =>
    let (seen, candidates) := layer next roots n
    (seen ++ firsts seen candidates, (firsts seen candidates).flatMap next)

/-- The nodes first seen at a depth, in the order they are come across. -/
def frontier (next : α → List α) (roots : List α) (n : Nat) : List α :=
  firsts (layer next roots n).1 (layer next roots n).2

theorem layer_succ (next : α → List α) (roots : List α) (n : Nat) :
    layer next roots (n + 1) =
      ((layer next roots n).1 ++ frontier next roots n, (frontier next roots n).flatMap next) := rfl

theorem mem_layer_seen :
    a ∈ (layer next roots n).1 ↔ ∃ m < n, a ∈ frontier next roots m := by
  induction n with
  | zero => simp [layer]
  | succ n ih =>
    rw [layer_succ, List.mem_append, ih]
    constructor
    · rintro (⟨m, hm, hmem⟩ | hmem)
      · exact ⟨m, by omega, hmem⟩
      · exact ⟨n, by omega, hmem⟩
    · rintro ⟨m, hm, hmem⟩
      rcases Nat.lt_succ_iff_lt_or_eq.mp hm with hlt | rfl
      · exact .inl ⟨m, hlt, hmem⟩
      · exact .inr hmem

/-- The layers sort the nodes by their distance. -/
theorem mem_frontier : a ∈ frontier next roots n ↔ Distance next roots a n := by
  induction n using Nat.strongRecOn generalizing a with
  | ind n ih =>
    have hseen : a ∉ (layer next roots n).1 ↔ ∀ m < n, ¬ Walk next roots m a := by
      rw [mem_layer_seen]
      constructor
      · intro hnone m hm hwalk
        obtain ⟨k, hk⟩ := Reachable.distance ⟨m, hwalk⟩
        have hle : k ≤ m := hk.2 hwalk
        exact hnone ⟨k, by omega, (ih k (by omega)).mpr hk⟩
      · rintro hnone ⟨m, hm, hmem⟩
        exact hnone m hm ((ih m hm).mp hmem).1
    have hcandidate : (∀ m < n, ¬ Walk next roots m a) →
        (a ∈ (layer next roots n).2 ↔ Walk next roots n a) := by
      intro hnone
      cases n with
      | zero => rfl
      | succ n =>
        rw [layer_succ, List.mem_flatMap]
        constructor
        · rintro ⟨b, hb, hnext⟩
          exact ⟨b, ((ih n (by omega)).mp hb).1, hnext⟩
        · rintro ⟨b, hwalk, hnext⟩
          refine ⟨b, (ih n (by omega)).mpr ⟨hwalk, ?_⟩, hnext⟩
          intro m hm
          by_contra hlt
          exact hnone (m + 1) (by omega) ⟨b, hm, hnext⟩
    rw [frontier, mem_firsts, hseen]
    constructor
    · rintro ⟨hmem, hnone⟩
      refine ⟨(hcandidate hnone).mp hmem, ?_⟩
      intro m hm
      by_contra hlt
      exact hnone m (by omega) hm
    · rintro ⟨hwalk, hleast⟩
      have hnone : ∀ m < n, ¬ Walk next roots m a := by
        intro m hm hshort
        have : n ≤ m := hleast hshort
        omega
      exact ⟨(hcandidate hnone).mpr hwalk, hnone⟩

/-! The queue with its depths. -/

def nextUnseen (seen : List α) : List (α × Nat) → Option ((α × Nat) × List (α × Nat))
  | [] => none
  | (a, depth) :: rest => if a ∈ seen then nextUnseen seen rest else some ((a, depth), rest)

/-- The first visits of a breadth-first search, each node with its depth. -/
def sweep (next : α → List α) : Nat → List α → List (α × Nat) → List (α × Nat)
  | 0, _, _ => []
  | n + 1, seen, queue =>
    match nextUnseen seen queue with
    | none => []
    | some ((a, depth), rest) =>
      (a, depth) :: sweep next n (seen ++ [a]) (rest ++ (next a).map (·, depth + 1))

def atDepth (depth : Nat) (nodes : List α) : List (α × Nat) := nodes.map (·, depth)

@[simp] theorem sweep_zero (queue : List (α × Nat)) : sweep next 0 seen queue = [] := rfl

theorem sweep_nil (n : Nat) : sweep next n seen [] = [] := by
  cases n <;> rfl

theorem sweep_seen (n : Nat) (queue : List (α × Nat)) (depth : Nat) (h : a ∈ seen) :
    sweep next n seen ((a, depth) :: queue) = sweep next n seen queue := by
  cases n with
  | zero => rfl
  | succ n => rw [sweep, sweep, nextUnseen, if_pos h]

theorem sweep_unseen (n : Nat) (queue : List (α × Nat)) (depth : Nat) (h : a ∉ seen) :
    sweep next (n + 1) seen ((a, depth) :: queue) =
      (a, depth) :: sweep next n (seen ++ [a]) (queue ++ atDepth (depth + 1) (next a)) := by
  rw [sweep, nextUnseen, if_neg h]
  rfl

/-- One depth of the queue: its first occurrences are visited, and the queue goes on
with what they lead to. -/
theorem sweep_layer (n depth : Nat) (seen now later : List α) :
    sweep next n seen (atDepth depth now ++ atDepth (depth + 1) later) =
      atDepth depth ((firsts seen now).take n) ++
        sweep next (n - (firsts seen now).length) (seen ++ firsts seen now)
          (atDepth (depth + 1) (later ++ (firsts seen now).flatMap next)) := by
  induction now generalizing n seen later with
  | nil => simp [firsts, atDepth]
  | cons a rest ih =>
    have hqueue : atDepth depth (a :: rest) ++ atDepth (depth + 1) later =
        (a, depth) :: (atDepth depth rest ++ atDepth (depth + 1) later) := rfl
    rw [hqueue, firsts]
    split
    · rename_i hseen
      rw [sweep_seen _ _ _ hseen, ih]
    · rename_i hnew
      cases n with
      | zero => simp [atDepth]
      | succ n =>
        have happend : atDepth depth rest ++ atDepth (depth + 1) later ++
            atDepth (depth + 1) (next a) =
              atDepth depth rest ++ atDepth (depth + 1) (later ++ next a) := by
          simp [atDepth]
        rw [sweep_unseen _ _ _ hnew, happend, ih]
        simp [atDepth]

/-- A search that ends before its bound has visited every layer up to an empty one. -/
theorem sweep_layers (h : (sweep next n (layer next roots m).1
      (atDepth m (layer next roots m).2)).length < n) :
    ∃ depth, frontier next roots (m + depth) = [] ∧
      (∀ i < depth, frontier next roots (m + i) ≠ []) ∧
      sweep next n (layer next roots m).1 (atDepth m (layer next roots m).2) =
        (List.range depth).flatMap fun i => atDepth (m + i) (frontier next roots (m + i)) := by
  induction n using Nat.strongRecOn generalizing m with
  | ind n ih =>
    have hlayer : sweep next n (layer next roots m).1 (atDepth m (layer next roots m).2) =
        atDepth m ((frontier next roots m).take n) ++
          sweep next (n - (frontier next roots m).length) (layer next roots (m + 1)).1
            (atDepth (m + 1) (layer next roots (m + 1)).2) := by
      have := @sweep_layer _ next _ n m (layer next roots m).1 (layer next roots m).2 []
      simpa [atDepth, layer_succ, frontier] using this
    rw [hlayer, List.length_append] at h
    cases hempty : frontier next roots m with
    | nil =>
      refine ⟨0, hempty, fun i hi => absurd hi (by omega), ?_⟩
      rw [hlayer, layer_succ, hempty]
      simp [atDepth, sweep_nil]
    | cons a rest =>
      have hlength : (atDepth m ((frontier next roots m).take n)).length =
          min n (frontier next roots m).length := by
        simp [atDepth]
      have hpos : 0 < (frontier next roots m).length := by simp [hempty]
      rw [hlength] at h
      obtain ⟨depth, hend, hsome, hsweep⟩ :=
        @ih (n - (frontier next roots m).length) (by omega) (m + 1) (by omega)
      refine ⟨depth + 1, ?_, ?_, ?_⟩
      · rw [← hend]
        congr 1
        omega
      · intro i hi
        cases i with
        | zero => simp [hempty]
        | succ i =>
          have := hsome i (by omega)
          rwa [show m + 1 + i = m + (i + 1) by omega] at this
      · rw [hlayer, hsweep, List.take_of_length_le (by omega), List.range_succ_eq_map,
          List.flatMap_cons, List.flatMap_map]
        congr 1
        apply List.flatMap_congr
        intro i _
        rw [show m + 1 + i = m + (i + 1) by omega]

theorem nextUnseen_some {queue rest : List (α × Nat)} {depth : Nat}
    (h : nextUnseen seen queue = some ((a, depth), rest)) :
    a ∉ seen ∧ (a, depth) ∈ queue ∧ rest ⊆ queue := by
  induction queue with
  | nil => cases h
  | cons entry queue ih =>
    obtain ⟨b, k⟩ := entry
    rw [nextUnseen] at h
    split at h
    · obtain ⟨hnew, hmem, hsub⟩ := ih h
      exact ⟨hnew, List.mem_cons_of_mem _ hmem, fun _ hx => List.mem_cons_of_mem _ (hsub hx)⟩
    · rename_i hnew
      cases h
      exact ⟨hnew, List.mem_cons_self, fun _ hx => List.mem_cons_of_mem _ hx⟩

/-- Bounded or not, a search visits no node twice and nothing out of reach. -/
theorem sweep_sound {queue : List (α × Nat)}
    (hreach : ∀ entry ∈ queue, Reachable next roots entry.1) :
    ((sweep next n seen queue).map Prod.fst).Nodup ∧
      (∀ visit ∈ sweep next n seen queue, visit.1 ∉ seen ∧ Reachable next roots visit.1) := by
  induction n generalizing seen queue with
  | zero => simp
  | succ n ih =>
    rw [sweep]
    cases hnext : nextUnseen seen queue with
    | none => simp
    | some found =>
      obtain ⟨⟨b, depth⟩, rest⟩ := found
      obtain ⟨hnew, hmem, hsub⟩ := nextUnseen_some hnext
      have hb : Reachable next roots b := hreach _ hmem
      have hqueue : ∀ entry ∈ rest ++ (next b).map (·, depth + 1), Reachable next roots entry.1 := by
        intro entry hentry
        rcases List.mem_append.mp hentry with hrest | hlater
        · exact hreach entry (hsub hrest)
        · obtain ⟨c, hc, rfl⟩ := List.mem_map.mp hlater
          exact hb.step hc
      obtain ⟨hnodup, hvisits⟩ := @ih (seen ++ [b]) _ hqueue
      constructor
      · rw [List.map_cons, List.nodup_cons]
        refine ⟨?_, hnodup⟩
        intro hagain
        obtain ⟨visit, hvisit, hsame⟩ := List.mem_map.mp hagain
        exact (hvisits visit hvisit).1 (by simp [hsame])
      · intro visit hvisit
        rcases List.mem_cons.mp hvisit with rfl | hlater
        · exact ⟨hnew, hb⟩
        · obtain ⟨hunseen, hreachable⟩ := hvisits visit hlater
          exact ⟨fun hseen => hunseen (List.mem_append_left _ hseen), hreachable⟩

/-- The breadth-first listing up to a depth. -/
def listing (next : α → List α) (roots : List α) (depth : Nat) : List α :=
  (List.range depth).flatMap (frontier next roots)

theorem nodup_listing (depth : Nat) : (listing next roots depth).Nodup := by
  apply List.nodup_flatMap.mpr
  refine ⟨fun i _ => nodup_firsts _ _, ?_⟩
  apply List.nodup_range.imp
  intro i j hne a hi hj
  exact hne ((mem_frontier.mp hi).unique (mem_frontier.mp hj))

theorem frontier_empty (hend : frontier next roots m = []) (h : m ≤ n) :
    frontier next roots n = [] := by
  induction h with
  | refl => exact hend
  | @step n _ ih =>
    rw [frontier, layer_succ, ih]
    rfl

/-- Past an empty layer there is nothing to reach. -/
theorem mem_listing (hend : frontier next roots m = []) :
    a ∈ listing next roots m ↔ Reachable next roots a := by
  rw [listing, List.mem_flatMap]
  constructor
  · rintro ⟨i, _, hmem⟩
    exact ⟨i, (mem_frontier.mp hmem).1⟩
  · intro hreach
    obtain ⟨n, hn⟩ := hreach.distance
    refine ⟨n, List.mem_range.mpr ?_, mem_frontier.mpr hn⟩
    by_contra hle
    have hmem := mem_frontier.mpr hn
    rw [frontier_empty hend (by omega)] at hmem
    cases hmem

/-- When nothing at some depth leads on, no node is deeper. -/
theorem distance_le_of_leaves (hleaves : ∀ b, Distance next roots b m → next b = [])
    (h : Distance next roots a n) : n ≤ m := by
  by_contra hlt
  have hend : frontier next roots (m + 1) = [] := by
    have hnone : (frontier next roots m).flatMap next = [] := by
      rw [List.flatMap_eq_nil_iff]
      exact fun b hb => hleaves b (mem_frontier.mp hb)
    rw [frontier, layer_succ, hnone]
    rfl
  have hmem := mem_frontier.mpr h
  rw [frontier_empty hend (by omega)] at hmem
  cases hmem

end Order
end HologramLive.Lib.BreadthFirst
