import HologramLive.Lib.Interleaving
import HologramLive.Lib.Program

/-! Programs that share a state: what one makes sure of, whatever the others do between its
calls. -/

namespace HologramLive.Lib

/-- A program on its way, with what is its own. -/
structure Task (Call : Type → Type) (ε α τ : Type) where
  program : Program Call ε α
  own : τ

namespace Program
variable {Call : Type → Type} {ε α β σ τ : Type}

/-- What all may rely on, what a call is obliged to, and what it may then do. -/
structure Contract (Call : Type → Type) (σ τ : Type) where
  rely : σ → σ → Prop
  trans : ∀ {first second third}, rely first second → rely second third → rely first third
  obliged : {β : Type} → Call β → τ → σ → Prop
  may : {β : Type} → Call β → τ → σ → β → τ → σ → Prop
  /-- A call that does what it is obliged to is one the others can rely on. -/
  keeps : ∀ {β : Type} {operation : Call β} {own shared reply own' after}, rely shared shared →
    obliged operation own shared → may operation own shared reply own' after → rely shared after

variable {contract : Contract Call σ τ}

/-- Every call is made where its obligation holds, and `post` holds of the result. -/
def Relies (contract : Contract Call σ τ) (post : α → τ → σ → Prop) :
    Program Call ε α → τ → σ → Prop
  | .done value, own, shared => post value own shared
  | .fail _, _, _ => True
  | .call operation next, own, shared => ∀ seen, contract.rely shared seen →
      contract.obliged operation own seen ∧ ∀ reply own' after,
        contract.may operation own seen reply own' after →
          Relies contract post (next reply) own' after

variable {post : α → τ → σ → Prop} {program : Program Call ε α} {own : τ} {shared : σ}

/-- What others do meanwhile takes nothing away. -/
theorem Relies.meanwhile {after : σ} (h : Relies contract post program own shared)
    (hafter : contract.rely shared after)
    (hpost : ∀ value, post value own shared → post value own after) :
    Relies contract post program own after := by
  cases program with
  | done value => exact hpost value h
  | fail error => trivial
  | call operation next => exact fun seen hseen => h seen (contract.trans hafter hseen)

theorem Relies.mono {post' : α → τ → σ → Prop} (h : Relies contract post program own shared)
    (hpost : ∀ value own shared, post value own shared → post' value own shared) :
    Relies contract post' program own shared := by
  induction program generalizing own shared with
  | done value => exact hpost value own shared h
  | fail error => trivial
  | call operation next ih =>
    intro seen hseen
    obtain ⟨hobliged, hnext⟩ := h seen hseen
    exact ⟨hobliged, fun reply own' after hmay => ih reply (hnext reply own' after hmay)⟩

/-- Programs in sequence: the second starts where the first ended. -/
theorem Relies.bind {rest : α → Program Call ε β} {after : β → τ → σ → Prop}
    (h : Relies contract post program own shared)
    (hrest : ∀ value own shared, post value own shared →
      Relies contract after (rest value) own shared) :
    Relies contract after (program >>= rest) own shared := by
  induction program generalizing own shared with
  | done value => exact hrest value own shared h
  | fail error => trivial
  | call operation next ih =>
    intro seen hseen
    obtain ⟨hobliged, hnext⟩ := h seen hseen
    exact ⟨hobliged, fun reply own' after hmay => ih reply (hnext reply own' after hmay)⟩

/-- One call, and then the rest. -/
theorem Relies.perform {operation : Call α} {rest : α → Program Call ε β}
    {after : β → τ → σ → Prop}
    (h : ∀ seen, contract.rely shared seen → contract.obliged operation own seen ∧
      ∀ reply own' next, contract.may operation own seen reply own' next →
        Relies contract after (rest reply) own' next) :
    Relies contract after (Program.perform operation >>= rest) own shared := h

/-- Tasks of which each keeps to the contract still do so after one of them has made a call. -/
theorem Relies.step {tasks : List (Task Call ε α τ)} {place : Nat} {operation : Call β}
    {next : β → Program Call ε α} {reply : β} {own' : τ} {after : σ}
    (hpost : ∀ value own shared after, contract.rely shared after → post value own shared →
      post value own after)
    (hrely : contract.rely shared shared)
    (htasks : ∀ task ∈ tasks, Relies contract post task.program task.own shared)
    (htask : tasks[place]? = some ⟨.call operation next, own⟩)
    (hmay : contract.may operation own shared reply own' after) :
    contract.rely shared after ∧
      ∀ task ∈ tasks.set place ⟨next reply, own'⟩, Relies contract post task.program task.own after := by
  obtain ⟨hobliged, hnext⟩ := htasks _ (List.mem_of_getElem? htask) shared hrely
  have hafter := contract.keeps hrely hobliged hmay
  refine ⟨hafter, fun task hmem => ?_⟩
  rcases Interleaving.mem_set_cases hmem with rfl | ⟨other, -, hother⟩
  · exact hnext reply own' after hmay
  · exact (htasks task (List.mem_of_getElem? hother)).meanwhile hafter
      fun value => hpost value _ _ _ hafter

/-- What holds of the result of a program, its error a value like another. -/
def Concludes (contract : Contract Call σ τ) (post : Except ε α → τ → Prop)
    (program : Program Call ε α) (own : τ) (shared : σ) : Prop :=
  Relies contract (fun result own _ => post result own) program.attempt own shared

section Concludes
variable {post : Except ε α → τ → Prop} {after : Except ε β → τ → Prop} {program : Program Call ε α}

variable (post) in
/-- Programs in sequence: the second starts where the first ended, unless that was an error. -/
theorem Concludes.bind {rest : α → Program Call ε β}
    (h : Concludes contract post program own shared)
    (hdone : ∀ value own shared, post (.ok value) own →
      Concludes contract after (rest value) own shared)
    (hfail : ∀ error own, post (.error error) own → after (.error error) own) :
    Concludes contract after (program >>= rest) own shared := by
  induction program generalizing own shared with
  | done value => exact hdone value own shared h
  | fail error => exact hfail error own h
  | call operation next ih =>
    intro seen hseen
    obtain ⟨hobliged, hnext⟩ := h seen hseen
    exact ⟨hobliged, fun reply own' after hmay => ih reply (hnext reply own' after hmay)⟩

theorem Concludes.attempt (h : Concludes contract post program own shared) :
    Concludes contract (fun result own => ∃ value, result = .ok value ∧ post value own)
      program.attempt own shared := by
  induction program generalizing own shared with
  | done value => exact ⟨_, rfl, h⟩
  | fail error => exact ⟨_, rfl, h⟩
  | call operation next ih =>
    intro seen hseen
    obtain ⟨hobliged, hnext⟩ := h seen hseen
    exact ⟨hobliged, fun reply own' after hmay => ih reply (hnext reply own' after hmay)⟩

theorem Concludes.mono {post' : Except ε α → τ → Prop}
    (h : Concludes contract post program own shared)
    (hpost : ∀ result own, post result own → post' result own) :
    Concludes contract post' program own shared :=
  Relies.mono h fun value own _ => hpost value own

end Concludes
end Program
end HologramLive.Lib
