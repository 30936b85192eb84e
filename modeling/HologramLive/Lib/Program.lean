import Mathlib.Data.List.Basic

/-! Programs as the calls they make, what they go through when each call's outcome
is decided from outside, and the rules for what holds at every point of that. -/

namespace HologramLive.Lib

/-- A program that ends with a value or an error, or makes a call and continues with
the reply. -/
inductive Program (Call : Type → Type) (ε α : Type) : Type 1 where
  | done (value : α)
  | fail (error : ε)
  | call {β : Type} (operation : Call β) (next : β → Program Call ε α)

namespace Program
variable {Call : Type → Type} {ε α β ν σ : Type}

def bind : Program Call ε α → (α → Program Call ε β) → Program Call ε β
  | .done value, rest => rest value
  | .fail error, _ => .fail error
  | .call operation next, rest => .call operation fun reply => (next reply).bind rest

instance : Monad (Program Call ε) where
  pure := .done
  bind := bind

def perform (operation : Call β) : Program Call ε β := .call operation .done

def ofExcept : Except ε α → Program Call ε α
  | .ok value => .done value
  | .error error => .fail error

/-- A program whose error is a value like another. -/
def attempt : Program Call ε α → Program Call ε (Except ε α)
  | .done value => .done (.ok value)
  | .fail error => .done (.error error)
  | .call operation next => .call operation fun reply => (next reply).attempt

@[simp] theorem pure_eq (value : α) : (pure value : Program Call ε α) = .done value := rfl

@[simp] theorem done_bind (value : α) (rest : α → Program Call ε β) :
    (Program.done value : Program Call ε α) >>= rest = rest value := rfl

@[simp] theorem fail_bind (error : ε) (rest : α → Program Call ε β) :
    (Program.fail error : Program Call ε α) >>= rest = .fail error := rfl

@[simp] theorem call_bind {γ : Type} (operation : Call γ) (next : γ → Program Call ε α)
    (rest : α → Program Call ε β) :
    (Program.call operation next) >>= rest = .call operation fun reply => next reply >>= rest := rfl

@[simp] theorem perform_bind (operation : Call α) (rest : α → Program Call ε β) :
    (perform operation : Program Call ε α) >>= rest = .call operation rest := rfl

theorem bind_assoc {γ : Type} (program : Program Call ε α) (first : α → Program Call ε β)
    (second : β → Program Call ε γ) :
    (program >>= first) >>= second = program >>= fun value => first value >>= second := by
  induction program with
  | done value => rfl
  | fail error => rfl
  | call operation next ih =>
    simp only [call_bind]
    congr 1
    funext reply
    exact ih reply

theorem bind_done (program : Program Call ε α) : (program >>= .done) = program := by
  induction program with
  | done value => rfl
  | fail error => rfl
  | call operation next ih =>
    rw [call_bind]
    congr 1
    funext reply
    exact ih reply

def outcome : Program Call ε α → Option (Except ε α)
  | .done value => some (.ok value)
  | .fail error => some (.error error)
  | .call _ _ => none

section Serve
variable (serve : ∀ {β : Type}, Call β → ν → σ → β × σ)

/-- How far a program gets on the verdicts there are for its calls. It is cut off
where they end. -/
def advance : List ν → Program Call ε α → σ → Program Call ε α × σ
  | verdict :: rest, .call operation next, state =>
    advance rest (next (serve operation verdict state).1) (serve operation verdict state).2
  | _, program, state => (program, state)

/-- At every point, wherever a run under permitted verdicts is cut off, `holds` holds,
and `post` holds of the result and the state it ends in. -/
def Ensures (may : ν → Prop) (holds : σ → Prop) (post : Except ε α → σ → Prop) :
    Program Call ε α → σ → Prop
  | .done value, state => holds state ∧ post (.ok value) state
  | .fail error, state => holds state ∧ post (.error error) state
  | .call operation next, state => holds state ∧ ∀ verdict, may verdict →
      Ensures may holds post (next (serve operation verdict state).1)
        (serve operation verdict state).2

variable {serve} {may : ν → Prop} {holds : σ → Prop} {post post' : Except ε α → σ → Prop}
  {program : Program Call ε α} {state : σ}

@[simp] theorem advance_nil : advance serve [] program state = (program, state) := by
  cases program <;> rfl

@[simp] theorem advance_done (verdicts : List ν) (value : α) :
    advance serve verdicts (.done value : Program Call ε α) state = (.done value, state) := by
  cases verdicts <;> rfl

@[simp] theorem advance_fail (verdicts : List ν) (error : ε) :
    advance serve verdicts (.fail error : Program Call ε α) state = (.fail error, state) := by
  cases verdicts <;> rfl

@[simp] theorem advance_call (verdict : ν) (rest : List ν) (operation : Call β)
    (next : β → Program Call ε α) :
    advance serve (verdict :: rest) (.call operation next) state =
      advance serve rest (next (serve operation verdict state).1)
        (serve operation verdict state).2 := rfl

theorem Ensures.now (h : Ensures serve may holds post program state) : holds state := by
  cases program with
  | done value => exact h.1
  | fail error => exact h.1
  | call operation next => exact h.1

theorem Ensures.ended (h : Ensures serve may holds post program state) {result : Except ε α}
    (hresult : program.outcome = some result) : post result state := by
  cases program with
  | done value =>
    obtain rfl := Option.some.inj hresult
    exact h.2
  | fail error =>
    obtain rfl := Option.some.inj hresult
    exact h.2
  | call operation next => cases hresult

/-- What is left of a program that got somewhere ensures the same from there on. -/
theorem Ensures.advance (h : Ensures serve may holds post program state) {verdicts : List ν}
    (hmay : ∀ verdict ∈ verdicts, may verdict) :
    Ensures serve may holds post (Program.advance serve verdicts program state).1
      (Program.advance serve verdicts program state).2 := by
  induction verdicts generalizing program state with
  | nil =>
    rw [advance_nil]
    exact h
  | cons verdict rest ih =>
    cases program with
    | done value =>
      rw [advance_done]
      exact h
    | fail error =>
      rw [advance_fail]
      exact h
    | call operation next =>
      rw [advance_call]
      apply ih
      · exact h.2 verdict (hmay verdict List.mem_cons_self)
      · intro other hother
        exact hmay other (List.mem_cons_of_mem _ hother)

/-- What every call keeps holds at every point. -/
theorem Ensures.keeps (hnow : holds state)
    (hkeeps : ∀ {β : Type} (operation : Call β) verdict state, may verdict → holds state →
      holds (serve operation verdict state).2) :
    Ensures serve may holds (fun _ _ => True) program state := by
  induction program generalizing state with
  | done value => exact ⟨hnow, trivial⟩
  | fail error => exact ⟨hnow, trivial⟩
  | call operation next ih =>
    exact ⟨hnow, fun verdict hverdict => ih _ (hkeeps operation verdict state hverdict hnow)⟩

/-- What is ensured holds wherever a run is cut off, and of what it ends with. -/
theorem Ensures.sound (h : Ensures serve may holds post program state) {verdicts : List ν}
    (hmay : ∀ verdict ∈ verdicts, may verdict) :
    holds (Program.advance serve verdicts program state).2 ∧
      ∀ result, (Program.advance serve verdicts program state).1.outcome = some result →
        post result (Program.advance serve verdicts program state).2 :=
  ⟨(h.advance hmay).now, fun _ => (h.advance hmay).ended⟩

variable (serve program) in
/-- With the same answer to every call a program comes to its end. -/
theorem comes_to_end (verdict : ν) (state : σ) :
    ∃ count, ∀ more, count ≤ more →
      (Program.advance serve (List.replicate more verdict) program state).1.outcome.isSome := by
  induction program generalizing state with
  | done value => exact ⟨0, fun more _ => by simp [outcome]⟩
  | fail error => exact ⟨0, fun more _ => by simp [outcome]⟩
  | call operation next ih =>
    obtain ⟨count, hcount⟩ := ih _ (serve operation verdict state).2
    refine ⟨count + 1, fun more hmore => ?_⟩
    obtain ⟨more, rfl⟩ := Nat.exists_eq_add_of_le' (Nat.le_of_add_left_le hmore)
    rw [List.replicate_succ, advance_call]
    exact hcount _ (Nat.le_of_succ_le_succ hmore)

theorem Ensures.mono {holds' : σ → Prop} (h : Ensures serve may holds post program state)
    (hholds : ∀ state, holds state → holds' state)
    (hpost : ∀ result state, holds state → post result state → post' result state) :
    Ensures serve may holds' post' program state := by
  induction program generalizing state with
  | done value => exact ⟨hholds _ h.1, hpost _ _ h.1 h.2⟩
  | fail error => exact ⟨hholds _ h.1, hpost _ _ h.1 h.2⟩
  | call operation next ih =>
    exact ⟨hholds _ h.1, fun verdict hverdict => ih _ (h.2 verdict hverdict)⟩

variable (post) in
/-- Programs in sequence: the second starts where the first ended. -/
theorem Ensures.bind {rest : α → Program Call ε β} {after : Except ε β → σ → Prop}
    (h : Ensures serve may holds post program state)
    (hdone : ∀ value state, holds state → post (.ok value) state →
      Ensures serve may holds after (rest value) state)
    (hfail : ∀ error state, holds state → post (.error error) state → after (.error error) state) :
    Ensures serve may holds after (program >>= rest) state := by
  induction program generalizing state with
  | done value => exact hdone value state h.1 h.2
  | fail error => exact ⟨h.1, hfail error state h.1 h.2⟩
  | call operation next ih =>
    exact ⟨h.1, fun verdict hverdict => ih _ (h.2 verdict hverdict)⟩

/-- The error of a program that is attempted ends nothing. -/
theorem Ensures.attempt (h : Ensures serve may holds post program state) :
    Ensures serve may holds (fun result state => ∃ value, result = .ok value ∧ post value state)
      (program.attempt : Program Call ε (Except ε α)) state := by
  induction program generalizing state with
  | done value => exact ⟨h.1, _, rfl, h.2⟩
  | fail error => exact ⟨h.1, _, rfl, h.2⟩
  | call operation next ih => exact ⟨h.1, fun verdict hverdict => ih _ (h.2 verdict hverdict)⟩

/-- A program that makes no call. -/
theorem Ensures.known {result : Except ε α} (hnow : holds state) (hpost : post result state) :
    Ensures serve may holds post (.ofExcept result) state := by
  cases result with
  | ok value => exact ⟨hnow, hpost⟩
  | error error => exact ⟨hnow, hpost⟩

/-- A result that is known before any call. -/
theorem Ensures.ofExcept {result : Except ε α} {rest : α → Program Call ε β}
    {after : Except ε β → σ → Prop} (hnow : holds state)
    (herror : ∀ error, result = .error error → after (.error error) state)
    (hok : ∀ value, result = .ok value → Ensures serve may holds after (rest value) state) :
    Ensures serve may holds after (.ofExcept result >>= rest) state := by
  cases result with
  | ok value => exact hok value rfl
  | error error => exact ⟨hnow, herror error rfl⟩

end Serve

/-- The same program among other calls. -/
def translate {Other : Type → Type} (inject : ∀ {β : Type}, Call β → Other β) :
    Program Call ε α → Program Other ε α
  | .done value => .done value
  | .fail error => .fail error
  | .call operation next => .call (inject operation) fun reply => (next reply).translate inject

/-- A program that makes only allowed calls, whatever they are answered with. -/
def Uses (allowed : ∀ {β : Type}, Call β → Prop) : Program Call ε α → Prop
  | .done _ => True
  | .fail _ => True
  | .call operation next => allowed operation ∧ ∀ reply, Uses allowed (next reply)

section Uses
variable {allowed : ∀ {β : Type}, Call β → Prop} {program : Program Call ε α}

theorem Uses.ofExcept (result : Except ε α) :
    (Program.ofExcept result : Program Call ε α).Uses allowed := by
  cases result with
  | ok value => trivial
  | error error => trivial

theorem Uses.bind {rest : α → Program Call ε β} (h : program.Uses allowed)
    (hrest : ∀ value, (rest value).Uses allowed) : (program >>= rest).Uses allowed := by
  induction program with
  | done value => exact hrest value
  | fail error => trivial
  | call operation next ih => exact ⟨h.1, fun reply => ih reply (h.2 reply)⟩

theorem Uses.translate {Other : Type → Type} {inject : ∀ {β : Type}, Call β → Other β}
    {permitted : ∀ {β : Type}, Other β → Prop}
    (h : ∀ {β : Type} (operation : Call β), permitted (inject operation))
    (program : Program Call ε α) : (program.translate inject).Uses permitted := by
  induction program with
  | done value => trivial
  | fail error => trivial
  | call operation next ih => exact ⟨h operation, ih⟩

end Uses

/-- At most so many calls are made, whatever they are answered with. -/
def Within : Program Call ε α → Nat → Prop
  | .done _, _ => True
  | .fail _, _ => True
  | .call _ next, count => ∃ fewer, count = fewer + 1 ∧ ∀ reply, Within (next reply) fewer

section Within
variable {program : Program Call ε α} {count more : Nat}

theorem Within.mono (h : program.Within count) (hmore : count ≤ more) : program.Within more := by
  induction program generalizing count more with
  | done value => trivial
  | fail error => trivial
  | call operation next ih =>
    obtain ⟨fewer, rfl, hnext⟩ := h
    refine ⟨more - 1, by omega, fun reply => ih reply (hnext reply) (by omega)⟩

theorem Within.ofExcept (result : Except ε α) :
    (Program.ofExcept result : Program Call ε α).Within count := by
  cases result with
  | ok value => trivial
  | error error => trivial

theorem Within.bind {rest : α → Program Call ε β} (h : program.Within count)
    (hrest : ∀ value, (rest value).Within more) : (program >>= rest).Within (count + more) := by
  induction program generalizing count with
  | done value => exact (hrest value).mono (Nat.le_add_left ..)
  | fail error => trivial
  | call operation next ih =>
    obtain ⟨fewer, rfl, hnext⟩ := h
    exact ⟨fewer + more, by omega, fun reply => ih reply (hnext reply)⟩

theorem Within.attempt (h : program.Within count) :
    (program.attempt : Program Call ε (Except ε α)).Within count := by
  induction program generalizing count with
  | done value => trivial
  | fail error => trivial
  | call operation next ih =>
    obtain ⟨fewer, rfl, hnext⟩ := h
    exact ⟨fewer, rfl, fun reply => ih reply (hnext reply)⟩

/-- With an answer for each call the program comes to its end. -/
theorem Within.ended {serve : ∀ {β : Type}, Call β → ν → σ → β × σ} {verdicts : List ν} {state : σ}
    (h : program.Within count) (hcount : count ≤ verdicts.length) :
    (advance serve verdicts program state).1.outcome.isSome := by
  induction program generalizing count verdicts state with
  | done value => simp [outcome]
  | fail error => simp [outcome]
  | call operation next ih =>
    obtain ⟨fewer, rfl, hnext⟩ := h
    cases verdicts with
    | nil => cases hcount
    | cons verdict rest => exact ih _ (hnext _) (Nat.le_of_succ_le_succ hcount)

end Within

/-- The first calls that a program makes are allowed ones. -/
def Opens (allowed : ∀ {β : Type}, Call β → Prop) : Program Call ε α → Nat → Prop
  | .done _, _ => True
  | .fail _, _ => True
  | .call _ _, 0 => True
  | .call operation next, count + 1 => allowed operation ∧ ∀ reply, Opens allowed (next reply) count

/-- What allowed calls keep, a program keeps that does not get past its first calls. -/
theorem Opens.kept {allowed : ∀ {β : Type}, Call β → Prop}
    {serve : ∀ {β : Type}, Call β → ν → σ → β × σ} {holds : σ → Prop} {program : Program Call ε α}
    {count : Nat} {verdicts : List ν} {state : σ} (h : program.Opens allowed count)
    (hkeeps : ∀ {β : Type} (operation : Call β) verdict state, allowed operation → holds state →
      holds (serve operation verdict state).2)
    (hcount : verdicts.length ≤ count) (hnow : holds state) :
    holds (advance serve verdicts program state).2 := by
  induction program generalizing count verdicts state with
  | done value => simpa using hnow
  | fail error => simpa using hnow
  | call operation next ih =>
    cases verdicts with
    | nil => simpa using hnow
    | cons verdict rest =>
      cases count with
      | zero => cases hcount
      | succ count =>
        exact ih _ (h.2 _) (Nat.le_of_succ_le_succ hcount) (hkeeps operation verdict state h.1 hnow)

end Program

/-- The calls of two interfaces. -/
inductive Either (Left Right : Type → Type) : Type → Type where
  | left {β : Type} (operation : Left β) : Either Left Right β
  | right {β : Type} (operation : Right β) : Either Left Right β

namespace Either
variable {Left Right : Type → Type} {ν₁ ν₂ σ₁ σ₂ ε α : Type}
  {serveLeft : ∀ {β : Type}, Left β → ν₁ → σ₁ → β × σ₁}
  {serveRight : ∀ {β : Type}, Right β → ν₂ → σ₂ → β × σ₂}

/-- Each side serves its calls and leaves the other's state alone. -/
def serve (serveLeft : ∀ {β : Type}, Left β → ν₁ → σ₁ → β × σ₁)
    (serveRight : ∀ {β : Type}, Right β → ν₂ → σ₂ → β × σ₂) {β : Type} :
    Either Left Right β → ν₁ × ν₂ → σ₁ × σ₂ → β × (σ₁ × σ₂)
  | .left operation, verdict, state =>
    let served := serveLeft operation verdict.1 state.1
    (served.1, served.2, state.2)
  | .right operation, verdict, state =>
    let served := serveRight operation verdict.2 state.2
    (served.1, state.1, served.2)

variable {may : ν₁ × ν₂ → Prop} {holds : σ₁ × σ₂ → Prop} {post : Except ε α → σ₁ × σ₂ → Prop}

/-- What a program on the right ensures there, it ensures next to any left state. -/
theorem ensures_right {mayRight : ν₂ → Prop} {holdsRight : σ₂ → Prop}
    {postRight : Except ε α → σ₂ → Prop} {program : Program Right ε α} {state : σ₁ × σ₂}
    (h : Program.Ensures serveRight mayRight holdsRight postRight program state.2)
    (hmay : ∀ verdict, may verdict → mayRight verdict.2)
    (hholds : ∀ right, holdsRight right → holds (state.1, right))
    (hpost : ∀ result right, holdsRight right → postRight result right →
      post result (state.1, right)) :
    Program.Ensures (serve serveLeft serveRight) may holds post (program.translate .right) state := by
  obtain ⟨left, right⟩ := state
  induction program generalizing right with
  | done value => exact ⟨hholds _ h.1, hpost _ _ h.1 h.2⟩
  | fail error => exact ⟨hholds _ h.1, hpost _ _ h.1 h.2⟩
  | call operation next ih =>
    refine ⟨hholds _ h.1, ?_⟩
    intro verdict hverdict
    exact ih _ _ (h.2 verdict.2 (hmay verdict hverdict)) hholds hpost

/-- What a program on the left ensures there, it ensures next to any right state. -/
theorem ensures_left {mayLeft : ν₁ → Prop} {holdsLeft : σ₁ → Prop}
    {postLeft : Except ε α → σ₁ → Prop} {program : Program Left ε α} {state : σ₁ × σ₂}
    (h : Program.Ensures serveLeft mayLeft holdsLeft postLeft program state.1)
    (hmay : ∀ verdict, may verdict → mayLeft verdict.1)
    (hholds : ∀ left, holdsLeft left → holds (left, state.2))
    (hpost : ∀ result left, holdsLeft left → postLeft result left → post result (left, state.2)) :
    Program.Ensures (serve serveLeft serveRight) may holds post (program.translate .left) state := by
  obtain ⟨left, right⟩ := state
  induction program generalizing left with
  | done value => exact ⟨hholds _ h.1, hpost _ _ h.1 h.2⟩
  | fail error => exact ⟨hholds _ h.1, hpost _ _ h.1 h.2⟩
  | call operation next ih =>
    refine ⟨hholds _ h.1, ?_⟩
    intro verdict hverdict
    exact ih _ _ (h.2 verdict.1 (hmay verdict hverdict)) hholds hpost

end Either
end HologramLive.Lib
