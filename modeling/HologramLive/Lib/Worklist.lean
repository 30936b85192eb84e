import Mathlib.Data.Fintype.Card
import Mathlib.Data.Finset.SDiff
import Mathlib.Logic.Relation

/-! The search that follows references from node to node, where a reference may lead nowhere and
a node may have none to give. -/

namespace HologramLive.Lib.Worklist
variable {ι ρ ε : Type} {resolve : ρ → Except ε ι} {expand : ι → Except ε (List ρ)}

theorem card_unseen [Fintype ι] [DecidableEq ι] {seen : List ι} {node : ι} (h : node ∉ seen) :
    (Finset.univ \ (seen ++ [node]).toFinset).card < (Finset.univ \ seen.toFinset).card := by
  apply Finset.card_lt_card
  refine (Finset.ssubset_iff_of_subset ?_).mpr ⟨node, by simp [h], by simp⟩
  intro other hother
  simp only [List.toFinset_append, Finset.mem_sdiff, Finset.mem_univ, Finset.mem_union,
    List.mem_toFinset, not_or, true_and] at hother ⊢
  exact hother.1

/-- The nodes that are seen from a queue of references, those first that were seen before. -/
def explore [Fintype ι] [DecidableEq ι] (resolve : ρ → Except ε ι)
    (expand : ι → Except ε (List ρ)) (seen : List ι) : List ρ → Except ε (List ι)
  | [] => .ok seen
  | reference :: queue =>
    match resolve reference with
    | .error error => .error error
    | .ok node =>
      if _h : node ∈ seen then explore resolve expand seen queue
      else
        match expand node with
        | .error error => .error error
        | .ok more => explore resolve expand (seen ++ [node]) (queue ++ more)
termination_by queue => ((Finset.univ \ seen.toFinset).card, queue.length)
decreasing_by
  · exact Prod.Lex.right _ (by simp)
  · exact Prod.Lex.left _ _ (card_unseen _h)

/-- One node has a reference to the other. -/
def Leads (resolve : ρ → Except ε ι) (expand : ι → Except ε (List ρ)) (node other : ι) : Prop :=
  ∃ more, expand node = .ok more ∧ ∃ reference ∈ more, resolve reference = .ok other

/-- What is reached from the references there are at first. -/
def Reached (resolve : ρ → Except ε ι) (expand : ι → Except ε (List ρ)) (roots : List ρ)
    (node : ι) : Prop :=
  ∃ first, (∃ reference ∈ roots, resolve reference = .ok first) ∧
    Relation.ReflTransGen (Leads resolve expand) first node

/-- Every reference leads to a node. -/
def Resolved (resolve : ρ → Except ε ι) (references : List ρ) : Prop :=
  ∀ reference ∈ references, ∃ node, resolve reference = .ok node

/-- No reference leads out of a list of nodes, but for those of the nodes seen before. -/
structure Closes (resolve : ρ → Except ε ι) (expand : ι → Except ε (List ρ)) (seen : List ι)
    (roots : List ρ) (nodes : List ι) : Prop where
  nodup : nodes.Nodup
  keeps : seen ⊆ nodes
  resolves : ∀ reference ∈ roots, ∃ node ∈ nodes, resolve reference = .ok node
  closed : ∀ node ∈ nodes, node ∉ seen → ∃ more, expand node = .ok more ∧
    ∀ reference ∈ more, ∃ other ∈ nodes, resolve reference = .ok other
  reached : ∀ node ∈ nodes, node ∉ seen → Reached resolve expand roots node

section Reached
variable {seen nodes : List ι} {queue roots : List ρ} {node : ι}

theorem Reached.mono {larger : List ρ} (h : Reached resolve expand roots node)
    (hsub : roots ⊆ larger) : Reached resolve expand larger node := by
  obtain ⟨first, ⟨reference, hmem, hfirst⟩, hleads⟩ := h
  exact ⟨first, ⟨reference, hsub hmem, hfirst⟩, hleads⟩

/-- What is reached from a node's references is reached with it. -/
theorem Reached.through {reference : ρ} {more : List ρ} (hresolve : resolve reference = .ok node)
    (hexpand : expand node = .ok more) {other : ι} (h : Reached resolve expand more other) :
    Reached resolve expand (reference :: queue) other := by
  obtain ⟨first, ⟨inner, hmem, hfirst⟩, hleads⟩ := h
  refine ⟨node, ⟨reference, List.mem_cons_self, hresolve⟩, ?_⟩
  exact Relation.ReflTransGen.head ⟨more, hexpand, inner, hmem, hfirst⟩ hleads

theorem Reached.append_cases {left right : List ρ} (h : Reached resolve expand (left ++ right) node) :
    Reached resolve expand left node ∨ Reached resolve expand right node := by
  obtain ⟨first, ⟨reference, hmem, hfirst⟩, hleads⟩ := h
  rcases List.mem_append.mp hmem with hleft | hright
  · exact .inl ⟨first, ⟨reference, hleft, hfirst⟩, hleads⟩
  · exact .inr ⟨first, ⟨reference, hright, hfirst⟩, hleads⟩

theorem Closes.again {reference : ρ} (h : Closes resolve expand seen queue nodes)
    (hresolve : resolve reference = .ok node) (hseen : node ∈ seen) :
    Closes resolve expand seen (reference :: queue) nodes where
  nodup := h.nodup
  keeps := h.keeps
  resolves := by
    intro other hother
    rcases List.mem_cons.mp hother with rfl | hother
    · exact ⟨node, h.keeps hseen, hresolve⟩
    · exact h.resolves other hother
  closed := h.closed
  reached := fun other hother hnew => (h.reached other hother hnew).mono (List.subset_cons_self _ _)

theorem Closes.first {reference : ρ} {more : List ρ}
    (h : Closes resolve expand (seen ++ [node]) (queue ++ more) nodes)
    (hresolve : resolve reference = .ok node) (hexpand : expand node = .ok more) :
    Closes resolve expand seen (reference :: queue) nodes where
  nodup := h.nodup
  keeps := fun _ hother => h.keeps (List.mem_append_left _ hother)
  resolves := by
    intro other hother
    rcases List.mem_cons.mp hother with rfl | hother
    · exact ⟨node, h.keeps (by simp), hresolve⟩
    · exact h.resolves other (List.mem_append_left _ hother)
  closed := by
    intro other hother hnew
    by_cases hsame : other = node
    · subst hsame
      exact ⟨more, hexpand, fun inner hinner => h.resolves inner (List.mem_append_right _ hinner)⟩
    · exact h.closed other hother (by simp [hnew, hsame])
  reached := by
    intro other hother hnew
    by_cases hsame : other = node
    · subst hsame
      exact ⟨other, ⟨reference, List.mem_cons_self, hresolve⟩, .refl⟩
    · rcases (h.reached other hother (by simp [hnew, hsame])).append_cases with hqueue | hmore
      · exact hqueue.mono (List.subset_cons_self _ _)
      · exact hmore.through hresolve hexpand

end Reached

section Explore
variable [Fintype ι] [DecidableEq ι] {seen nodes : List ι} {queue roots : List ρ} {node : ι}

theorem explore_closes (hnodup : seen.Nodup) (h : explore resolve expand seen queue = .ok nodes) :
    Closes resolve expand seen queue nodes := by
  fun_induction explore resolve expand seen queue with
  | case1 seen =>
    obtain rfl := Except.ok.inj h
    refine ⟨hnodup, List.Subset.refl _, ?_, ?_, ?_⟩
    · exact fun _ hmem => by cases hmem
    · exact fun _ hmem hnew => absurd hmem hnew
    · exact fun _ hmem hnew => absurd hmem hnew
  | case2 seen reference queue error hresolve => cases h
  | case3 seen reference queue node hresolve hseen ih => exact (ih hnodup h).again hresolve hseen
  | case4 seen reference queue node hresolve hseen error hexpand => cases h
  | case5 seen reference queue node hresolve hseen more hexpand ih =>
    refine (ih ?_ h).first hresolve hexpand
    exact hnodup.append (List.nodup_singleton node) (by simpa using hseen)

/-- A search comes to its end where every reference that it meets leads to a node that has
references to give. -/
theorem explore_ok (hqueue : Resolved resolve queue)
    (hnodes : ∀ node, Reached resolve expand queue node →
      ∃ more, expand node = .ok more ∧ Resolved resolve more) :
    ∃ nodes, explore resolve expand seen queue = .ok nodes := by
  fun_induction explore resolve expand seen queue with
  | case1 seen => exact ⟨seen, rfl⟩
  | case2 seen reference queue error hresolve =>
    obtain ⟨node, hnode⟩ := hqueue reference List.mem_cons_self
    rw [hresolve] at hnode
    cases hnode
  | case3 seen reference queue node hresolve hseen ih =>
    refine ih (fun other hother => hqueue other (List.mem_cons_of_mem _ hother)) ?_
    exact fun other hother => hnodes other (hother.mono (List.subset_cons_self _ _))
  | case4 seen reference queue node hresolve hseen error hexpand =>
    obtain ⟨more, hmore, -⟩ := hnodes node ⟨node, ⟨reference, List.mem_cons_self, hresolve⟩, .refl⟩
    rw [hexpand] at hmore
    cases hmore
  | case5 seen reference queue node hresolve hseen more hexpand ih =>
    have hmore : Resolved resolve more := by
      obtain ⟨other, hother, hresolved⟩ :=
        hnodes node ⟨node, ⟨reference, List.mem_cons_self, hresolve⟩, .refl⟩
      rw [hexpand] at hother
      exact Except.ok.inj hother ▸ hresolved
    apply ih
    · intro other hother
      rcases List.mem_append.mp hother with hrest | hnew
      · exact hqueue other (List.mem_cons_of_mem _ hrest)
      · exact hmore other hnew
    · intro other hother
      rcases hother.append_cases with hrest | hnew
      · exact hnodes other (hrest.mono (List.subset_cons_self _ _))
      · exact hnodes other (hnew.through hresolve hexpand)

/-- What a search has found is what can be reached. -/
theorem mem_explore (h : explore resolve expand [] roots = .ok nodes) :
    node ∈ nodes ↔ Reached resolve expand roots node := by
  have hcloses := explore_closes List.nodup_nil h
  constructor
  · exact fun hmem => hcloses.reached node hmem List.not_mem_nil
  · rintro ⟨first, ⟨reference, hreference, hfirst⟩, hleads⟩
    induction hleads with
    | refl =>
      obtain ⟨found, hmem, hfound⟩ := hcloses.resolves reference hreference
      rw [hfirst] at hfound
      exact Except.ok.inj hfound ▸ hmem
    | tail _ hlead ih =>
      obtain ⟨more, hmore, inner, hinner, hother⟩ := hlead
      obtain ⟨given, hgiven, hresolves⟩ := hcloses.closed _ ih List.not_mem_nil
      obtain rfl := Except.ok.inj (hmore.symm.trans hgiven)
      obtain ⟨found, hmem, hfound⟩ := hresolves inner hinner
      rw [hother] at hfound
      exact Except.ok.inj hfound ▸ hmem

theorem explore_iff : (∃ nodes, explore resolve expand [] roots = .ok nodes) ↔
    Resolved resolve roots ∧ ∀ node, Reached resolve expand roots node →
      ∃ more, expand node = .ok more ∧ Resolved resolve more := by
  constructor
  · rintro ⟨nodes, h⟩
    have hcloses := explore_closes List.nodup_nil h
    refine ⟨fun reference hreference => ?_, fun node hreached => ?_⟩
    · obtain ⟨node, -, hnode⟩ := hcloses.resolves reference hreference
      exact ⟨node, hnode⟩
    · obtain ⟨more, hmore, hresolves⟩ :=
        hcloses.closed node ((mem_explore h).mpr hreached) List.not_mem_nil
      refine ⟨more, hmore, fun reference hreference => ?_⟩
      obtain ⟨other, -, hother⟩ := hresolves reference hreference
      exact ⟨other, hother⟩
  · exact fun ⟨hroots, hnodes⟩ => explore_ok hroots hnodes

end Explore
end HologramLive.Lib.Worklist
