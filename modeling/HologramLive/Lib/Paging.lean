import Mathlib.Order.Lattice
import Mathlib.Data.List.Basic

namespace HologramLive.Lib.Paging

section Walk
variable {ε π α κ σ : Type}

/-- Follow continuation cursors until a page carries none. The fuel bounds the
number of pages; running out of it is a visible outcome, not an empty result. -/
def walk (fetch : Option κ → Except ε π) (next : π → Option κ) :
    Nat → Option κ → Except ε (Option (List π))
  | 0, _ => .ok none
  | fuel + 1, after =>
    match fetch after with
    | .error error => .error error
    | .ok page =>
      match next page with
      | none => .ok (some [page])
      | some cursor =>
        match walk fetch next fuel (some cursor) with
        | .error error => .error error
        | .ok pages => .ok (pages.map (page :: ·))

variable {fetch : Option κ → Except ε π} {next : π → Option κ}

theorem walk_last (hf : fetch after = .ok page) (hn : next page = none) (fuel : Nat) :
    walk fetch next (fuel + 1) after = .ok (some [page]) := by
  simp [walk, hf, hn]

theorem walk_more (hf : fetch after = .ok page) (hn : next page = some cursor)
    (hw : walk fetch next fuel (some cursor) = .ok (some pages)) :
    walk fetch next (fuel + 1) after = .ok (some (page :: pages)) := by
  simp [walk, hf, hn, hw]

/-- The two ways a walk completes. -/
theorem walk_cases (h : walk fetch next (fuel + 1) after = .ok (some pages)) :
    ∃ page, fetch after = .ok page ∧
      ((next page = none ∧ pages = [page]) ∨
        ∃ cursor rest, next page = some cursor ∧
          walk fetch next fuel (some cursor) = .ok (some rest) ∧ pages = page :: rest) := by
  cases hf : fetch after with
  | error error => simp [walk, hf] at h
  | ok page =>
    refine ⟨page, rfl, ?_⟩
    cases hn : next page with
    | none =>
      simp only [walk, hf, hn, Except.ok.injEq, Option.some.injEq] at h
      exact .inl ⟨rfl, h.symm⟩
    | some cursor =>
      cases hw : walk fetch next fuel (some cursor) with
      | error error => simp [walk, hf, hn, hw] at h
      | ok found =>
        cases found with
        | none => simp [walk, hf, hn, hw] at h
        | some rest =>
          simp only [walk, hf, hn, hw, Option.map_some, Except.ok.injEq, Option.some.injEq] at h
          exact .inr ⟨cursor, rest, rfl, hw, h.symm⟩

theorem walk_ne_nil (h : walk fetch next fuel after = .ok (some pages)) : pages ≠ [] := by
  cases fuel with
  | zero => simp [walk] at h
  | succ fuel =>
    obtain ⟨page, _, ⟨_, rfl⟩ | ⟨_, _, _, _, rfl⟩⟩ := walk_cases h <;> simp

/-- What a page fetched at a cursor owes the walk: the final page exhausts what
remains, and any other page is a nonempty prefix its cursor steps over. -/
structure Faithful (rest : Option κ → List α) (items : π → List α) (next : π → Option κ)
    (after : Option κ) (page : π) : Prop where
  last : next page = none → items page = rest after
  more : ∀ cursor, next page = some cursor →
    items page ≠ [] ∧ rest after = items page ++ rest (some cursor)

/-- Faithful pages, chained by their own cursors, deliver everything that
remains, once and in order, and the walk ends within one page per item. -/
theorem walk_complete (rest : Option κ → List α) {items : π → List α} (good : Option κ → Prop)
    (hpage : ∀ after, good after → ∃ page, fetch after = .ok page ∧
      Faithful rest items next after page ∧ ∀ cursor, next page = some cursor → good (some cursor))
    (hgood : good after) (hfuel : (rest after).length < fuel) :
    ∃ pages, walk fetch next fuel after = .ok (some pages) ∧ pages.flatMap items = rest after := by
  induction fuel generalizing after with
  | zero => omega
  | succ fuel ih =>
    obtain ⟨page, hf, hfaith, hnext⟩ := hpage after hgood
    cases hn : next page with
    | none => exact ⟨[page], walk_last hf hn fuel, by simp [hfaith.last hn]⟩
    | some cursor =>
      obtain ⟨hne, hrest⟩ := hfaith.more cursor hn
      have hshorter : (rest (some cursor)).length < fuel := by
        have := congrArg List.length hrest
        have := List.length_pos_iff.mpr hne
        simp only [List.length_append] at *
        omega
      obtain ⟨pages, hw, hitems⟩ := ih (hnext cursor hn) hshorter
      exact ⟨page :: pages, walk_more hf hn hw, by simp [hitems, hrest]⟩

/-- Every page of a walk was fetched at an admissible cursor. -/
theorem walk_fetched (good : Option κ → Prop)
    (hpage : ∀ after page, good after → fetch after = .ok page →
      ∀ cursor, next page = some cursor → good (some cursor))
    (hgood : good after) (h : walk fetch next fuel after = .ok (some pages)) :
    ∀ page ∈ pages, ∃ cursor, good cursor ∧ fetch cursor = .ok page := by
  induction fuel generalizing after pages with
  | zero => simp [walk] at h
  | succ fuel ih =>
    obtain ⟨page, hf, ⟨_, rfl⟩ | ⟨cursor, rest, hn, hw, rfl⟩⟩ := walk_cases h
    · intro q hq
      exact ⟨after, hgood, by rw [List.mem_singleton.mp hq]; exact hf⟩
    · intro q hq
      rcases List.mem_cons.mp hq with rfl | hq
      · exact ⟨after, hgood, hf⟩
      · exact ih (hpage after page hgood hf cursor hn) hw q hq

/-- Only the final page of a walk lacks a cursor. -/
theorem walk_nonfinal (h : walk fetch next fuel after = .ok (some pages)) :
    ∀ page ∈ pages.dropLast, ∃ cursor, next page = some cursor := by
  induction fuel generalizing after pages with
  | zero => simp [walk] at h
  | succ fuel ih =>
    obtain ⟨page, _, ⟨_, rfl⟩ | ⟨cursor, rest, hn, hw, rfl⟩⟩ := walk_cases h
    · simp
    · intro q hq
      rw [List.dropLast_cons_of_ne_nil (walk_ne_nil hw)] at hq
      rcases List.mem_cons.mp hq with rfl | hq
      · exact ⟨cursor, hn⟩
      · exact ih hw q hq

theorem walk_final (h : walk fetch next fuel after = .ok (some pages)) :
    ∀ page ∈ pages.getLast?, next page = none := by
  induction fuel generalizing after pages with
  | zero => simp [walk] at h
  | succ fuel ih =>
    obtain ⟨page, _, ⟨hn, rfl⟩ | ⟨cursor, rest, _, hw, rfl⟩⟩ := walk_cases h
    · simpa using hn
    · obtain ⟨first, others, rfl⟩ := List.exists_cons_of_ne_nil (walk_ne_nil hw)
      simpa only [List.getLast?_cons_cons] using ih hw

/-- A walk whose pages are fetched through a state, each paired with the cursor
it was fetched at. -/
def visit (fetch : Option κ → σ → Except ε (π × σ)) (next : π → Option κ) :
    Nat → Option κ → σ → Except ε (Option (List (Option κ × π)) × σ)
  | 0, _, state => .ok (none, state)
  | fuel + 1, after, state =>
    match fetch after state with
    | .error error => .error error
    | .ok (page, state) =>
      match next page with
      | none => .ok (some [(after, page)], state)
      | some cursor =>
        match visit fetch next fuel (some cursor) state with
        | .error error => .error error
        | .ok (pages, state) => .ok (pages.map ((after, page) :: ·), state)

/-- Where the state never shows in a page, the walk is the stateless one. -/
theorem visit_eq {fetch : Option κ → σ → Except ε (π × σ)} (next : π → Option κ)
    (good : σ → Prop) (page : Option κ → π)
    (hfetch : ∀ after state, good state →
      ∃ state', fetch after state = .ok (page after, state') ∧ good state')
    (hgood : good state) (fuel : Nat) (after : Option κ) :
    ∃ pages state', visit fetch next fuel after state = .ok (pages, state') ∧ good state' ∧
      walk (fun cursor => (.ok (cursor, page cursor) : Except ε _)) (fun v => next v.2) fuel after =
        .ok pages := by
  induction fuel generalizing after state with
  | zero => exact ⟨none, state, rfl, hgood, rfl⟩
  | succ fuel ih =>
    obtain ⟨state₁, hf, hgood₁⟩ := hfetch after state hgood
    cases hn : next (page after) with
    | none => exact ⟨some [(after, page after)], state₁, by simp [visit, hf, hn], hgood₁,
        by simp [walk, hn]⟩
    | some cursor =>
      obtain ⟨pages, state', hv, hgood', hw⟩ := ih hgood₁ (some cursor)
      exact ⟨pages.map ((after, page after) :: ·), state', by simp [visit, hf, hn, hv], hgood',
        by simp [walk, hn, hw]⟩

end Walk

section Keyset
variable {α κ : Type} [LinearOrder κ]

/-- The items strictly after a cursor. -/
def beyond (key : α → κ) (after : Option κ) (xs : List α) : List α :=
  xs.filter fun x => after.all fun cursor => cursor < key x

/-- Items listed in strictly ascending key order. -/
def Ascending (key : α → κ) (xs : List α) : Prop :=
  xs.Pairwise fun a b => key a < key b

@[simp] theorem beyond_none (key : α → κ) (xs : List α) : beyond key none xs = xs := by
  simp [beyond]

theorem mem_beyond {key : α → κ} :
    x ∈ beyond key after xs ↔ x ∈ xs ∧ ∀ cursor, after = some cursor → cursor < key x := by
  cases after <;> simp [beyond]

theorem beyond_cons_ahead {key : α → κ} (h : ∀ cursor, after = some cursor → cursor < key x)
    (xs : List α) : beyond key after (x :: xs) = x :: beyond key after xs := by
  cases after with
  | none => rfl
  | some cursor => simp [beyond, h cursor rfl]

theorem beyond_cons_passed {key : α → κ} (h : key x ≤ cursor) (xs : List α) :
    beyond key (some cursor) (x :: xs) = beyond key (some cursor) xs := by
  simp [beyond, not_lt.mpr h]

theorem Ascending.beyond {key : α → κ} (h : Ascending key xs) (after : Option κ) :
    Ascending key (beyond key after xs) :=
  List.Pairwise.sublist List.filter_sublist h

theorem Ascending.filter {key : α → κ} (h : Ascending key xs) (p : α → Bool) :
    Ascending key (xs.filter p) :=
  List.Pairwise.sublist List.filter_sublist h

theorem Ascending.key_inj {key : α → κ} (h : Ascending key xs) (hx : x ∈ xs) (hy : y ∈ xs)
    (heq : key x = key y) : x = y := by
  induction xs with
  | nil => simp at hx
  | cons first rest ih =>
    obtain ⟨hfirst, hrest⟩ := List.pairwise_cons.mp h
    rcases List.mem_cons.mp hx with hx | hx <;> rcases List.mem_cons.mp hy with hy | hy
    · exact hx.trans hy.symm
    · exact absurd heq (ne_of_lt (hx ▸ hfirst y hy))
    · exact absurd heq.symm (ne_of_lt (hy ▸ hfirst x hx))
    · exact ih hrest hx hy

/-- Resuming at the key of the last delivered item leaves exactly the suffix. -/
theorem beyond_resume {key : α → κ} (hs : Ascending key xs)
    (hsplit : beyond key after xs = front ++ back) (hlast : front.getLast? = some x) :
    beyond key (some (key x)) xs = back := by
  obtain ⟨init, rfl⟩ := List.getLast?_eq_some_iff.mp hlast
  have hsorted := hs.beyond after
  rw [hsplit, Ascending, List.pairwise_append, List.pairwise_append] at hsorted
  obtain ⟨⟨_, _, hinit⟩, _, hback⟩ := hsorted
  have hx : ∀ cursor, after = some cursor → cursor < key x :=
    (mem_beyond.mp (hsplit ▸ by simp : x ∈ beyond key after xs)).2
  have hnarrow : beyond key (some (key x)) xs =
      (beyond key after xs).filter (fun y => key x < key y) := by
    simp only [beyond, List.filter_filter, Option.all_some]
    apply List.filter_congr
    intro y _
    cases after with
    | none => simp
    | some cursor =>
      have hcx := hx cursor rfl
      by_cases hxy : key x < key y
      · simp [hxy, lt_trans hcx hxy]
      · simp [hxy]
  rw [hnarrow, hsplit, List.filter_append, List.filter_append]
  have hfront : init.filter (fun y => key x < key y) = [] := by
    apply List.filter_eq_nil_iff.mpr
    intro y hy
    have := hinit y hy x (List.mem_singleton_self x)
    simpa using le_of_lt this
  have hkeep : back.filter (fun y => key x < key y) = back := by
    apply List.filter_eq_self.mpr
    intro y hy
    simpa using hback x (by simp) y hy
  simp [hfront, hkeep]

end Keyset

end HologramLive.Lib.Paging
