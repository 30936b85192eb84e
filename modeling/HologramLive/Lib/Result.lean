import Mathlib.Data.List.Forall2

namespace HologramLive.Lib.Result
variable {ε α β : Type}

@[simp] theorem ok_bind (a : α) (f : α → Except ε β) : (Except.ok a >>= f) = f a := rfl

@[simp] theorem error_bind (e : ε) (f : α → Except ε β) :
    (Except.error e >>= f) = Except.error e := rfl

@[simp] theorem pure_ok (a : α) : (pure a : Except ε α) = .ok a := rfl

/-- A sequence succeeds exactly when both of its parts do. -/
theorem bind_ok {x : Except ε α} {f : α → Except ε β} :
    (x >>= f) = .ok b ↔ ∃ a, x = .ok a ∧ f a = .ok b := by
  cases x <;> simp

/-- A check that returns nothing either passes or fails the whole. -/
theorem check_ok {x : Except ε Unit} {f : Unit → Except ε β} :
    (x >>= f) = .ok b ↔ x = .ok () ∧ f () = .ok b := by
  cases x <;> simp

theorem map_bind {γ : Type} {x : Except ε α} {f : α → Except ε β} {g : β → γ} :
    (x >>= f).map g = x >>= fun a => (f a).map g := by
  cases x <;> rfl

theorem map_ok {x : Except ε α} {g : α → β} : x.map g = .ok b ↔ ∃ a, x = .ok a ∧ g a = b := by
  cases x <;> simp [Except.map]

/-- A guard that fails keeps the whole from succeeding. -/
theorem guard_ok {p : Prop} [Decidable p] {x : Except ε α} :
    (if p then .error e else x) = .ok a ↔ ¬p ∧ x = .ok a := by
  split <;> simp [*]

@[simp] theorem mapError_ok {x : Except ε α} {f : ε → β} : x.mapError f = .ok a ↔ x = .ok a := by
  cases x <;> simp [Except.mapError]

/-- A traversal fails at one of its elements. -/
theorem mapM_error {list : List α} {f : α → Except ε β} (h : list.mapM f = .error e) :
    ∃ a ∈ list, f a = .error e := by
  induction list with
  | nil => cases h
  | cons a rest ih =>
    rw [List.mapM_cons] at h
    cases hfirst : f a with
    | error e' =>
      rw [hfirst, error_bind] at h
      cases h
      exact ⟨a, List.mem_cons_self, hfirst⟩
    | ok b =>
      rw [hfirst, ok_bind] at h
      cases hrest : rest.mapM f with
      | error e' =>
        rw [hrest, error_bind] at h
        cases h
        obtain ⟨found, hfound, hfails⟩ := ih hrest
        exact ⟨found, List.mem_cons_of_mem _ hfound, hfails⟩
      | ok bs =>
        rw [hrest] at h
        cases h

theorem mapM_ok {list : List α} {f : α → Except ε β} (h : list.mapM f = .ok results) :
    List.Forall₂ (fun a b => f a = .ok b) list results := by
  induction list generalizing results with
  | nil =>
    cases h
    exact .nil
  | cons a rest ih =>
    rw [List.mapM_cons] at h
    obtain ⟨b, hb, h⟩ := bind_ok.mp h
    obtain ⟨bs, hbs, h⟩ := bind_ok.mp h
    cases h
    exact .cons hb (ih hbs)

theorem mapM_pointwise {list : List α} {f : α → Except ε β} :
    list.mapM f = .ok results ↔ List.Forall₂ (fun a b => f a = .ok b) list results := by
  refine ⟨mapM_ok, fun h => ?_⟩
  induction h with
  | nil => rfl
  | cons hfirst _ ih => rw [List.mapM_cons, hfirst, ok_bind, ih, ok_bind, pure_ok]

section Pointwise
variable {R : α → β → Prop} {list : List α} {results : List β}

theorem map_eq_of_pointwise {γ : Type} {f : α → γ} {g : β → γ} (h : List.Forall₂ R list results)
    (hmap : ∀ a b, R a b → f a = g b) : list.map f = results.map g := by
  induction h with
  | nil => rfl
  | cons hfirst _ ih => rw [List.map_cons, List.map_cons, hmap _ _ hfirst, ih]

theorem exists_of_mem_results (h : List.Forall₂ R list results) (hmem : b ∈ results) :
    ∃ a ∈ list, R a b := by
  induction h with
  | nil => cases hmem
  | cons hfirst _ ih =>
    rcases List.mem_cons.mp hmem with rfl | hmem
    · exact ⟨_, List.mem_cons_self, hfirst⟩
    · obtain ⟨a, ha, hab⟩ := ih hmem
      exact ⟨a, List.mem_cons_of_mem _ ha, hab⟩

theorem exists_of_mem_list (h : List.Forall₂ R list results) (hmem : a ∈ list) :
    ∃ b ∈ results, R a b := by
  obtain ⟨b, hb, hab⟩ := exists_of_mem_results h.flip hmem
  exact ⟨b, hb, hab⟩

theorem exists_append {front back : List α} (h : List.Forall₂ R (front ++ back) results) :
    ∃ first second, results = first ++ second ∧ List.Forall₂ R front first ∧
      List.Forall₂ R back second := by
  induction front generalizing results with
  | nil => exact ⟨[], results, rfl, .nil, h⟩
  | cons a front ih =>
    obtain ⟨b, rest, hfirst, hrest, rfl⟩ := List.forall₂_cons_left_iff.mp h
    obtain ⟨first, second, rfl, hfront, hback⟩ := ih hrest
    exact ⟨b :: first, second, rfl, .cons hfirst hfront, hback⟩

theorem exists_pointwise (h : ∀ a ∈ list, ∃ b, R a b) : ∃ results, List.Forall₂ R list results := by
  induction list with
  | nil => exact ⟨[], .nil⟩
  | cons a list ih =>
    obtain ⟨⟨b, hb⟩, hrest⟩ := List.forall_mem_cons.mp h
    obtain ⟨results, hresults⟩ := ih hrest
    exact ⟨b :: results, .cons hb hresults⟩

theorem pointwise_zipIdx {f : α × Nat → β} {start : Nat}
    (h : ∀ found ∈ list.zipIdx start, R found.1 (f found)) :
    List.Forall₂ R list ((list.zipIdx start).map f) := by
  induction list generalizing start with
  | nil => exact .nil
  | cons a list ih =>
    rw [List.zipIdx_cons] at h ⊢
    obtain ⟨hfirst, hrest⟩ := List.forall_mem_cons.mp h
    exact .cons hfirst (ih hrest)

end Pointwise

theorem exists_mapM_ok {list : List α} {f : α → Except ε β} (h : ∀ a ∈ list, ∃ b, f a = .ok b) :
    ∃ results, list.mapM f = .ok results := by
  cases hresult : list.mapM f with
  | ok results => exact ⟨results, rfl⟩
  | error error =>
    obtain ⟨a, ha, hfails⟩ := mapM_error hresult
    obtain ⟨b, hb⟩ := h a ha
    rw [hfails] at hb
    cases hb

/-- What one step of a fold settles for its element, and later steps keep, is settled for
every element at the end. -/
theorem foldlM_settles {I : β → Prop} (Done : α → β → Prop) {step : β → α → Except ε β}
    {list : List α}
    (hstep : ∀ a ∈ list, ∀ b b', I b → step b a = .ok b' →
      I b' ∧ Done a b' ∧ ∀ c, Done c b → Done c b')
    (hstart : I start) (h : list.foldlM step start = .ok stop) :
    I stop ∧ (∀ a ∈ list, Done a stop) ∧ ∀ c, Done c start → Done c stop := by
  induction list generalizing start with
  | nil =>
    cases h
    exact ⟨hstart, by simp, fun c hc => hc⟩
  | cons a rest ih =>
    rw [List.foldlM_cons] at h
    obtain ⟨next, hnext, h⟩ := bind_ok.mp h
    obtain ⟨hinv, hdone, hkept⟩ := hstep a List.mem_cons_self start next hstart hnext
    obtain ⟨hinv', hrest, hkept'⟩ :=
      ih (fun b hb => hstep b (List.mem_cons_of_mem _ hb)) hinv h
    refine ⟨hinv', fun b hb => ?_, fun c hc => hkept' c (hkept c hc)⟩
    rcases List.mem_cons.mp hb with rfl | hlater
    · exact hkept' _ hdone
    · exact hrest b hlater

theorem toOption_eq_some {result : Except ε α} : result.toOption = some a ↔ result = .ok a := by
  cases result <;> simp [Except.toOption]

/-! ### Kinds of failure -/

/-- Whatever a computation fails with is of a kind. -/
def Fails (kind : ε → Prop) (x : Except ε α) : Prop := ∀ error, x = .error error → kind error

namespace Fails
variable {kind : ε → Prop}

theorem ok : Fails kind (.ok a : Except ε α) := nofun

theorem error {e : ε} (h : kind e) : Fails kind (.error e : Except ε α) := by
  rintro _ ⟨⟩
  exact h

theorem bind {x : Except ε α} {f : α → Except ε β} (h : Fails kind x)
    (hrest : ∀ a, x = .ok a → Fails kind (f a)) : Fails kind (x >>= f) := by
  cases hx : x with
  | error e => exact .error (h e hx)
  | ok a => exact hrest a hx

theorem mapError {γ : Type} {x : Except γ α} {f : γ → ε} (h : ∀ e, kind (f e)) :
    Fails kind (x.mapError f) := by
  cases x with
  | error e => exact .error (h e)
  | ok a => exact .ok

theorem mapM {list : List α} {f : α → Except ε β} (h : ∀ a ∈ list, Fails kind (f a)) :
    Fails kind (list.mapM f) := by
  intro error herror
  obtain ⟨a, ha, hfails⟩ := mapM_error herror
  exact h a ha error hfails

end Fails

end HologramLive.Lib.Result
