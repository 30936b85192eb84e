import Mathlib.Algebra.Order.BigOperators.Group.List
import Mathlib.Algebra.Order.Ring.Nat
import Mathlib.Data.List.Induction
import Mathlib.Data.List.Perm.Subperm

namespace HologramLive.Lib.Lineage
variable {α β : Type*}

/-- The path to every node of a tree whose nodes are given in order, each below an earlier
one: the root first, then the listed nodes. -/
def lineages (nodes : List (Nat × β)) : List (List β) :=
  nodes.foldl (fun paths node => paths ++ [paths.getD node.1 [] ++ [node.2]]) [[]]

theorem lineages_snoc (nodes : List (Nat × β)) (node : Nat × β) :
    lineages (nodes ++ [node]) =
      lineages nodes ++ [(lineages nodes).getD node.1 [] ++ [node.2]] := by
  simp [lineages]

theorem lineages_length (nodes : List (Nat × β)) :
    (lineages nodes).length = nodes.length + 1 := by
  induction nodes using List.reverseRecOn with
  | nil => rfl
  | append_singleton front last ih => simp [lineages_snoc, ih]

theorem lineages_root (nodes : List (Nat × β)) : (lineages nodes)[0]? = some [] := by
  induction nodes using List.reverseRecOn with
  | nil => rfl
  | append_singleton front last ih =>
    rw [lineages_snoc, List.getElem?_append_left (by simp [lineages_length]), ih]

/-- A node's path is that of its parent with one step more. -/
theorem lineages_node {nodes : List (Nat × β)}
    (hbelow : ∀ (place : Nat) (node : Nat × β), nodes[place]? = some node → node.1 ≤ place)
    (hnode : nodes[place]? = some node) (hparent : (lineages nodes)[node.1]? = some path) :
    (lineages nodes)[place + 1]? = some (path ++ [node.2]) := by
  induction nodes using List.reverseRecOn with
  | nil => simp at hnode
  | append_singleton front last ih =>
    have hlength := lineages_length front
    have hplace : place < front.length + 1 := by
      have := (List.getElem?_eq_some_iff.mp hnode).1
      simpa using this
    have hle := hbelow place node hnode
    rw [lineages_snoc] at hparent ⊢
    rw [List.getElem?_append_left (by omega)] at hparent
    rcases Nat.lt_succ_iff_lt_or_eq.mp hplace with hlt | rfl
    · rw [List.getElem?_append_left hlt] at hnode
      rw [List.getElem?_append_left (by omega)]
      refine ih (fun other entry hother => hbelow other entry ?_) hnode hparent
      have := (List.getElem?_eq_some_iff.mp hother).1
      rwa [List.getElem?_append_left this]
    · obtain rfl : last = node := by simpa using hnode
      rw [List.getElem?_append_right (by omega), hlength]
      simp [hparent]

theorem getElem?_map_some {list : List α} {f : α → β} {place : Nat} {b : β}
    (h : (list.map f)[place]? = some b) :
    ∃ a, list[place]? = some a ∧ f a = b := by
  rw [List.getElem?_map] at h
  exact Option.map_eq_some_iff.mp h

/-- A list without repeats weighs no more than one that has all its members. -/
theorem sum_le_of_subset {small large : List α} (hnodup : small.Nodup) (hsubset : small ⊆ large)
    (weight : α → Nat) : (small.map weight).sum ≤ (large.map weight).sum := by
  obtain ⟨middle, hperm, hsublist⟩ := hnodup.subperm hsubset
  rw [← (hperm.map weight).sum_eq]
  exact (hsublist.map weight).sum_le_sum fun _ _ => Nat.zero_le _

end HologramLive.Lib.Lineage
