import HologramLive.Lib.Result

namespace HologramLive.Lib.Codec
open Result
variable {σ β ε α γ : Type}

/-- A parser and a writer that agree on the values satisfying `good`. `ahead`
is the input a parser state has yet to consume. -/
structure Agrees (ahead : σ → List β) (good : α → Prop) (write : α → List β)
    (parse : σ → Except ε (α × σ)) : Prop where
  reads : ∀ {a s rest}, good a → ahead s = write a ++ rest →
    ∃ s', parse s = .ok (a, s') ∧ ahead s' = rest
  wrote : ∀ {a s s'}, parse s = .ok (a, s') → good a ∧ ahead s = write a ++ ahead s'

variable {ahead : σ → List β} {good : α → Prop} {write : α → List β}
  {parse : σ → Except ε (α × σ)}

/-- A conversion after parsing, undone before writing. -/
theorem Agrees.map (h : Agrees ahead good write parse) {goodOut : γ → Prop} {f : α → γ}
    (back : γ → α) (hf : ∀ a, good a → back (f a) = a ∧ goodOut (f a))
    (hback : ∀ c, goodOut c → good (back c) ∧ f (back c) = c) :
    Agrees ahead goodOut (fun c => write (back c)) (fun s => do
      let (a, s) ← parse s
      .ok (f a, s)) := by
  refine ⟨?_, ?_⟩
  · intro c s rest hc hahead
    obtain ⟨hgood, hout⟩ := hback c hc
    obtain ⟨s', hparse, hrest⟩ := h.reads hgood hahead
    exact ⟨s', by simp [hparse, hout], hrest⟩
  · intro c s s' hparse
    simp only [bind_ok, Except.ok.injEq, Prod.mk.injEq, Prod.exists] at hparse
    obtain ⟨a, s₁, hp, rfl, rfl⟩ := hparse
    obtain ⟨hgood, hahead⟩ := h.wrote hp
    obtain ⟨hsame, hout⟩ := hf a hgood
    exact ⟨hout, by rw [hahead, hsame]⟩

/-- A conversion that may fail. -/
theorem Agrees.convert (h : Agrees ahead good write parse) {goodOut : γ → Prop} {f : α → Except ε γ}
    (back : γ → α) (hf : ∀ a c, good a → (f a = .ok c ↔ back c = a ∧ goodOut c))
    (hback : ∀ c, goodOut c → good (back c)) :
    Agrees ahead goodOut (fun c => write (back c)) (fun s => do
      let (a, s) ← parse s
      let c ← f a
      .ok (c, s)) := by
  refine ⟨?_, ?_⟩
  · intro c s rest hc hahead
    obtain ⟨s', hparse, hrest⟩ := h.reads (hback c hc) hahead
    have hout := (hf (back c) c (hback c hc)).mpr ⟨rfl, hc⟩
    exact ⟨s', by simp [hparse, hout], hrest⟩
  · intro c s s' hparse
    simp only [bind_ok, Except.ok.injEq, Prod.mk.injEq, Prod.exists] at hparse
    obtain ⟨a, s₁, hp, c', hout, rfl, rfl⟩ := hparse
    obtain ⟨hgood, hahead⟩ := h.wrote hp
    obtain ⟨rfl, hc⟩ := (hf a c' hgood).mp hout
    exact ⟨hc, hahead⟩

/-- A header that determines how the body after it is read, and which every
body determines in turn. -/
theorem Agrees.framed (h : Agrees ahead good write parse) {goodBody : γ → Prop} {body : γ → List β}
    {next : α → σ → Except ε (γ × σ)} (header : γ → α)
    (hn : ∀ a, good a → Agrees ahead (fun c => header c = a ∧ goodBody c) body (next a)) :
    Agrees ahead (fun c => good (header c) ∧ goodBody c) (fun c => write (header c) ++ body c)
      (fun s => do
        let (a, s) ← parse s
        next a s) := by
  refine ⟨?_, ?_⟩
  · intro c s rest hc hahead
    rw [List.append_assoc] at hahead
    obtain ⟨s₁, hparse, hbody⟩ := h.reads hc.1 hahead
    obtain ⟨s', hnext, hrest⟩ := (hn _ hc.1).reads ⟨rfl, hc.2⟩ hbody
    exact ⟨s', by simp [hparse, hnext], hrest⟩
  · intro c s s' hparse
    simp only [bind_ok, Prod.exists] at hparse
    obtain ⟨a, s₁, hp, hnext⟩ := hparse
    obtain ⟨hgood, hahead⟩ := h.wrote hp
    obtain ⟨⟨rfl, hc⟩, hbody⟩ := (hn a hgood).wrote hnext
    exact ⟨⟨hgood, hc⟩, by rw [hahead, hbody, List.append_assoc]⟩

/-- A check before parsing narrows the good values by as much. -/
theorem Agrees.guarded {goodBody : γ → Prop} {body : γ → List β} {next : σ → Except ε (γ × σ)}
    {p : Prop} [Decidable p] {e : ε} (hn : ¬p → Agrees ahead goodBody body next) :
    Agrees ahead (fun c => ¬p ∧ goodBody c) body fun s => if p then .error e else next s := by
  by_cases hp : p
  · exact ⟨fun hc => absurd hp hc.1, fun hparse => by simp [hp] at hparse⟩
  · exact ⟨fun hc hahead => by simpa [hp] using (hn hp).reads hc.2 hahead,
      fun hparse => by simpa [hp] using (hn hp).wrote (by simpa [hp] using hparse)⟩

theorem Agrees.congr (h : Agrees ahead good write parse) {good' : α → Prop}
    (hg : ∀ a, good' a ↔ good a) : Agrees ahead good' write parse :=
  ⟨fun ha hahead => h.reads ((hg _).mp ha) hahead,
    fun hparse => ⟨(hg _).mpr (h.wrote hparse).1, (h.wrote hparse).2⟩⟩

end HologramLive.Lib.Codec
