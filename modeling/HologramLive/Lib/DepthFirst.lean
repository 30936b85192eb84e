import Mathlib.Data.List.Nodup
import Mathlib.Logic.Relation

namespace HologramLive.Lib.DepthFirst
variable {α : Type}

/-- The stack loop: pop a node, list it, push its successors in order. -/
def run (next : α → List α) : Nat → List α → List α → Option (List α)
  | _, [], order => some order
  | 0, _ :: _, _ => none
  | fuel + 1, a :: stack, order => run next fuel (next a ++ stack) (order ++ [a])

/-- `Visits next forest order`: the depth-first listing of a forest, every node
before its successors and each subtree complete before the next. -/
inductive Visits (next : α → List α) : List α → List α → Prop where
  | nil : Visits next [] []
  | cons (inner : Visits next (next a) below) (outer : Visits next rest after) :
    Visits next (a :: rest) (a :: below ++ after)

abbrev Reaches (next : α → List α) : α → α → Prop :=
  Relation.ReflTransGen fun a b => b ∈ next a

theorem run_visits (h : Visits next forest order) (fuel : Nat) (stack done : List α) :
    run next (order.length + fuel) (forest ++ stack) done = run next fuel stack (done ++ order) := by
  induction h generalizing fuel stack done with
  | nil => simp
  | @cons a below rest after _ _ ihInner ihOuter =>
    have hfuel : (a :: below ++ after).length + fuel = below.length + (after.length + fuel) + 1 := by
      simp only [List.cons_append, List.length_cons, List.length_append]
      omega
    rw [hfuel, List.cons_append, run, ihInner, ihOuter]
    simp

theorem visits_split (h : Visits next forest order) (hsplit : forest = front ++ back) :
    ∃ first second, Visits next front first ∧ Visits next back second ∧ order = first ++ second := by
  induction h generalizing front with
  | nil =>
    obtain ⟨rfl, rfl⟩ := List.append_eq_nil_iff.mp hsplit.symm
    exact ⟨[], [], .nil, .nil, rfl⟩
  | @cons a below rest after inner outer _ ihOuter =>
    cases front with
    | nil =>
      cases hsplit
      exact ⟨[], _, .nil, .cons inner outer, rfl⟩
    | cons b front =>
      obtain ⟨rfl, hrest⟩ := List.cons.inj hsplit
      obtain ⟨first, second, hfirst, hsecond, rfl⟩ := ihOuter hrest
      exact ⟨_, second, .cons inner hfirst, hsecond, by simp⟩

/-- Whatever the fuel, a stack loop that ends has listed its stack depth first. -/
theorem run_sound (h : run next fuel stack done = some order) :
    ∃ visited, Visits next stack visited ∧ order = done ++ visited := by
  induction fuel generalizing stack done with
  | zero =>
    cases stack with
    | nil => exact ⟨[], .nil, by simpa [run] using h.symm⟩
    | cons a rest => simp [run] at h
  | succ fuel ih =>
    cases stack with
    | nil => exact ⟨[], .nil, by simpa [run] using h.symm⟩
    | cons a rest =>
      obtain ⟨visited, hvisited, rfl⟩ := ih h
      obtain ⟨below, after, hbelow, hafter, rfl⟩ := visits_split hvisited rfl
      exact ⟨_, .cons hbelow hafter, by simp⟩

theorem visits_deterministic (h : Visits next forest order) (h' : Visits next forest order') :
    order = order' := by
  induction h generalizing order' with
  | nil =>
    cases h'
    rfl
  | cons _ _ ihInner ihOuter =>
    cases h' with
    | cons inner outer => rw [ihInner inner, ihOuter outer]

/-- Successors that come down in rank make every forest finite. -/
theorem visits_exists (rank : α → Nat) (hrank : ∀ a, ∀ b ∈ next a, rank b < rank a)
    (forest : List α) : ∃ order, Visits next forest order := by
  have hbelow : ∀ bound, ∀ forest : List α, (∀ a ∈ forest, rank a < bound) →
      ∃ order, Visits next forest order := by
    intro bound
    induction bound with
    | zero =>
      intro forest hforest
      cases forest with
      | nil => exact ⟨[], .nil⟩
      | cons a rest => exact absurd (hforest a List.mem_cons_self) (Nat.not_lt_zero _)
    | succ bound ih =>
      intro forest hforest
      induction forest with
      | nil => exact ⟨[], .nil⟩
      | cons a rest ihRest =>
        obtain ⟨after, houter⟩ := ihRest fun b hb => hforest b (List.mem_cons_of_mem _ hb)
        obtain ⟨below, hinner⟩ := ih (next a) fun b hb => by
          have := hrank a b hb
          have := hforest a List.mem_cons_self
          omega
        exact ⟨_, .cons hinner houter⟩
  obtain ⟨bound, hbound⟩ : ∃ bound, ∀ a ∈ forest, rank a < bound := by
    induction forest with
    | nil => exact ⟨0, by simp⟩
    | cons a rest ih =>
      obtain ⟨bound, hbound⟩ := ih
      refine ⟨max (rank a + 1) bound, List.forall_mem_cons.mpr ⟨by omega, fun b hb => ?_⟩⟩
      have := hbound b hb
      omega
  exact hbelow bound forest hbound

theorem mem_visits (h : Visits next forest order) :
    x ∈ order ↔ ∃ a ∈ forest, Reaches next a x := by
  induction h with
  | nil => simp
  | @cons a below rest after _ _ ihInner ihOuter =>
    have hhead : Reaches next a x ↔ x = a ∨ ∃ b, b ∈ next a ∧ Reaches next b x :=
      Relation.ReflTransGen.cases_head_iff.trans (or_congr eq_comm Iff.rfl)
    simp only [List.cons_append, List.mem_cons, List.mem_append, ihInner, ihOuter,
      exists_eq_or_imp, hhead, or_assoc]

section Tree
variable {next : α → List α} {rank : α → Nat}

theorem rank_le (hrank : ∀ a, ∀ b ∈ next a, rank b < rank a) (h : Reaches next a b) :
    rank b ≤ rank a := by
  induction h with
  | refl => exact Nat.le_refl _
  | @tail b c _ hstep ih =>
    have := hrank b c hstep
    omega

/-- With one parent at most, the ancestors of a node form a chain. -/
theorem reaches_chain (hparent : ∀ a a' b, b ∈ next a → b ∈ next a' → a = a')
    (h : Reaches next a x) (h' : Reaches next b x) : Reaches next a b ∨ Reaches next b a := by
  induction h' with
  | refl => exact .inl h
  | @tail y x _ hstep ih =>
    cases h with
    | refl => exact .inr (Relation.ReflTransGen.tail ‹_› hstep)
    | tail hreach hlast =>
      rw [hparent _ _ _ hlast hstep] at hreach
      exact ih hreach

/-- In a forest no node is listed twice, as long as no root is below another. -/
theorem visits_nodup (hrank : ∀ a, ∀ b ∈ next a, rank b < rank a)
    (hparent : ∀ a a' b, b ∈ next a → b ∈ next a' → a = a') (hnext : ∀ a, (next a).Nodup)
    (h : Visits next forest order) (hforest : forest.Nodup)
    (hroots : ∀ a ∈ forest, ∀ b ∈ forest, Reaches next a b → a = b) : order.Nodup := by
  induction h with
  | nil => exact List.nodup_nil
  | @cons a below rest after inner outer ihInner ihOuter =>
    obtain ⟨ha, hrest⟩ := List.nodup_cons.mp hforest
    have hsiblings : ∀ b ∈ next a, ∀ c ∈ next a, Reaches next b c → b = c := by
      intro b hb c hc hreach
      cases hreach with
      | refl => rfl
      | tail hreach hlast =>
        obtain rfl := hparent _ _ _ hlast hc
        have := rank_le hrank hreach
        have := hrank _ b hb
        omega
    have hbelow := ihInner (hnext a) hsiblings
    have hafter := ihOuter hrest fun b hb c hc =>
      hroots b (List.mem_cons_of_mem _ hb) c (List.mem_cons_of_mem _ hc)
    have hself : ∀ x ∈ below, rank x < rank a := by
      intro x hx
      obtain ⟨b, hb, hreach⟩ := (mem_visits inner).mp hx
      have := rank_le hrank hreach
      have := hrank a b hb
      omega
    have hapart : ∀ x ∈ a :: below, x ∉ after := by
      intro x hx hmem
      obtain ⟨b, hb, hreach⟩ := (mem_visits outer).mp hmem
      have hreach' : Reaches next a x := by
        rcases List.mem_cons.mp hx with rfl | hx
        · exact .refl
        · obtain ⟨c, hc, hcx⟩ := (mem_visits inner).mp hx
          exact .head hc hcx
      have hab : a = b := by
        rcases reaches_chain hparent hreach' hreach with hdown | hup
        · exact hroots a List.mem_cons_self b (List.mem_cons_of_mem _ hb) hdown
        · exact (hroots b (List.mem_cons_of_mem _ hb) a List.mem_cons_self hup).symm
      exact ha (hab ▸ hb)
    refine List.nodup_append.mpr ⟨List.nodup_cons.mpr ⟨fun hx => ?_, hbelow⟩, hafter, ?_⟩
    · exact absurd (hself a hx) (Nat.lt_irrefl _)
    · intro x hx y hy hxy
      exact hapart x hx (hxy ▸ hy)

end Tree

section Subtrees
variable {next : α → List α} {rank : α → Nat} {subtree : α → List α}

/-- What is listed of each node alone: the node, then what is listed of its successors. -/
structure Subtrees (next : α → List α) (subtree : α → List α) : Prop where
  visits : ∀ a, Visits next [a] (subtree a)
  preorder : ∀ a, subtree a = a :: (next a).flatMap subtree

theorem visits_flatMap (hvisits : ∀ a, Visits next [a] (subtree a)) (forest : List α) :
    Visits next forest (forest.flatMap subtree) := by
  induction forest with
  | nil => exact .nil
  | cons a rest ih =>
    have hone := hvisits a
    rw [List.flatMap_cons]
    generalize subtree a = listed at hone ⊢
    cases hone with
    | cons inner outer =>
      cases outer
      rw [List.append_nil]
      exact .cons inner ih

theorem subtrees_exist (hrank : ∀ a, ∀ b ∈ next a, rank b < rank a) :
    ∃ subtree, Subtrees next subtree := by
  choose subtree hvisits using fun a => visits_exists rank hrank [a]
  refine ⟨subtree, hvisits, fun a => ?_⟩
  have hbelow := Visits.cons (visits_flatMap hvisits (next a)) (.nil : Visits next [] [])
  rw [visits_deterministic (hvisits a) hbelow, List.append_nil]

theorem Subtrees.mem (h : Subtrees next subtree) {a x : α} : x ∈ subtree a ↔ Reaches next a x := by
  rw [mem_visits (h.visits a)]
  simp

/-- Every subtree is in one piece. -/
theorem Subtrees.contiguous (h : Subtrees next subtree) (hvisits : Visits next forest order)
    (hx : x ∈ order) : ∃ before after, order = before ++ subtree x ++ after := by
  induction hvisits with
  | nil => cases hx
  | @cons a below rest after inner outer ihInner ihOuter =>
    rcases List.mem_append.mp hx with hfirst | hlater
    · rcases List.mem_cons.mp hfirst with rfl | hbelow
      · have hsubtree : x :: below = subtree x := by
          rw [h.preorder, visits_deterministic inner (visits_flatMap h.visits (next x))]
        exact ⟨[], after, by rw [hsubtree, List.nil_append]⟩
      · obtain ⟨front, back, rfl⟩ := ihInner hbelow
        exact ⟨a :: front, back ++ after, by simp⟩
    · obtain ⟨front, back, rfl⟩ := ihOuter hlater
      exact ⟨a :: below ++ front, back, by simp⟩

/-- A node is listed before all that is below it. -/
theorem Subtrees.precedes (h : Subtrees next subtree) (hvisits : Visits next forest order)
    (ha : a ∈ order) (hreach : Reaches next a x) (hne : x ≠ a) :
    ∃ before between after, order = before ++ a :: between ++ x :: after := by
  obtain ⟨before, after, hsplit⟩ := h.contiguous hvisits ha
  have hx : x ∈ subtree a := h.mem.mpr hreach
  rw [h.preorder] at hx hsplit
  obtain ⟨between, last, hbelow⟩ := List.append_of_mem ((List.mem_cons.mp hx).resolve_left hne)
  exact ⟨before, between, last ++ after, by rw [hsplit, hbelow]; simp⟩

end Subtrees

end HologramLive.Lib.DepthFirst
