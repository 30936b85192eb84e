import HologramLive.Lib.Interleaving
import HologramLive.Lib.Program
import Mathlib.Data.List.Pairwise

/-! Programs one after another over one state, and what their answers have in common. -/

namespace HologramLive.Lib
variable {Call : Type → Type} {ε α β ν σ : Type}

namespace Program
variable (serve : ∀ {β : Type}, Call β → ν → σ → β × σ)
  (allows : ∀ {β : Type}, Call β → ν → σ → Prop)

/-- What a program comes to, as long as each verdict is one that is allowed when it is
given. -/
def Meets (post : Except ε α → σ → Prop) : Program Call ε α → σ → Prop
  | .done value, state => post (.ok value) state
  | .fail error, state => post (.error error) state
  | .call operation next, state => ∀ verdict, allows operation verdict state →
      Meets post (next (serve operation verdict state).1) (serve operation verdict state).2

variable {serve allows} {post post' : Except ε α → σ → Prop} {program : Program Call ε α}
  {state : σ}

theorem Meets.mono (h : Meets serve allows post program state)
    (hpost : ∀ result state, post result state → post' result state) :
    Meets serve allows post' program state := by
  induction program generalizing state with
  | done value => exact hpost _ _ h
  | fail error => exact hpost _ _ h
  | call operation next ih => exact fun verdict hverdict => ih _ (h verdict hverdict)

variable (post) in
theorem Meets.bind {rest : α → Program Call ε β} {after : Except ε β → σ → Prop}
    (h : Meets serve allows post program state)
    (hdone : ∀ value state, post (.ok value) state → Meets serve allows after (rest value) state)
    (hfail : ∀ error state, post (.error error) state → after (.error error) state) :
    Meets serve allows after (program >>= rest) state := by
  induction program generalizing state with
  | done value => exact hdone value state h
  | fail error => exact hfail error state h
  | call operation next ih => exact fun verdict hverdict => ih _ (h verdict hverdict)

theorem Meets.attempt (h : Meets serve allows post program state) :
    Meets serve allows (fun result state => ∃ value, result = .ok value ∧ post value state)
      (program.attempt : Program Call ε (Except ε α)) state := by
  induction program generalizing state with
  | done value => exact ⟨_, rfl, h⟩
  | fail error => exact ⟨_, rfl, h⟩
  | call operation next ih => exact fun verdict hverdict => ih _ (h verdict hverdict)

/-- A result that is known before any call. -/
theorem Meets.ofExcept {result : Except ε α} {rest : α → Program Call ε β}
    {after : Except ε β → σ → Prop}
    (herror : ∀ error, result = .error error → after (.error error) state)
    (hok : ∀ value, result = .ok value → Meets serve allows after (rest value) state) :
    Meets serve allows after (.ofExcept result >>= rest) state := by
  cases result with
  | ok value => exact hok value rfl
  | error error => exact herror error rfl

/-- The same calls among others, served alike. -/
theorem Meets.translate {Other : Type → Type} {ν' : Type}
    {inject : ∀ {β : Type}, Call β → Other β} {view : ν' → ν}
    {serve' : ∀ {β : Type}, Other β → ν' → σ → β × σ}
    {allows' : ∀ {β : Type}, Other β → ν' → σ → Prop}
    (h : Meets serve allows post program state)
    (hserve : ∀ {β : Type} (operation : Call β) verdict state,
      serve' (inject operation) verdict state = serve operation (view verdict) state)
    (hallows : ∀ {β : Type} (operation : Call β) verdict state,
      allows' (inject operation) verdict state → allows operation (view verdict) state) :
    Meets serve' allows' post (program.translate inject) state := by
  induction program generalizing state with
  | done value => exact h
  | fail error => exact h
  | call operation next ih =>
    intro verdict hverdict
    change Meets serve' allows' post ((next (serve' (inject operation) verdict state).1).translate inject)
      (serve' (inject operation) verdict state).2
    rw [hserve]
    exact ih _ (h _ (hallows _ _ _ hverdict))

end Program

namespace Sequence
open Interleaving
variable {κ ι τ : Type}

/-- A call with the state it began in. -/
structure Running (κ : Type) (Call : Type → Type) (ε α σ : Type) where
  call : κ
  base : σ
  program : Program Call ε α

/-- Calls that were made one after another, the newest first. -/
structure Session (κ : Type) (Call : Type → Type) (ε α σ : Type) where
  state : σ
  calls : List (Running κ Call ε α σ) := []

inductive Event (κ ν : Type) where
  | begin (call : κ)
  | move (verdict : ν)

namespace Session
variable (program : κ → Program Call ε α) (serve : ∀ {β : Type}, Call β → ν → σ → β × σ)

def idle (session : Session κ Call ε α σ) : Bool :=
  match session.calls with
  | [] => true
  | newest :: _ => newest.program.outcome.isSome

/-- A call begins once the one before it is over. -/
def step (session : Session κ Call ε α σ) : Event κ ν → Option (Session κ Call ε α σ)
  | .begin call =>
    if session.idle then
      some { session with calls := ⟨call, session.state, program call⟩ :: session.calls }
    else none
  | .move verdict =>
    match session.calls with
    | [] => none
    | newest :: earlier =>
      match newest.program with
      | .done _ => none
      | .fail _ => none
      | .call operation next =>
        let served := serve operation verdict session.state
        some ⟨served.2, { newest with program := next served.1 } :: earlier⟩

/-- The verdicts that are allowed may depend on the call and the state it began in. -/
def Permitted (allows : κ → σ → ∀ {β : Type}, Call β → ν → σ → Prop)
    (session : Session κ Call ε α σ) : Event κ ν → Prop
  | .begin _ => True
  | .move verdict =>
    match session.calls with
    | [] => True
    | newest :: _ =>
      match newest.program with
      | .call operation _ => allows newest.call newest.base operation verdict session.state
      | _ => True

end Session

/-- What two calls show of one key is the same. -/
def Agree (shows : α → List (ι × τ)) (later earlier : Running κ Call ε α σ) : Prop :=
  ∀ value value', later.program.outcome = some (.ok value) →
    earlier.program.outcome = some (.ok value') →
    ∀ shown ∈ shows value, ∀ shown' ∈ shows value', shown.1 = shown'.1 → shown.2 = shown'.2

/-- All calls of a session show the same of one key. -/
def Steady (shows : α → List (ι × τ)) (session : Session κ Call ε α σ) : Prop :=
  session.calls.Pairwise (Agree shows)

section Steady
variable {program : κ → Program Call ε α} {serve : ∀ {β : Type}, Call β → ν → σ → β × σ}
  {allows : κ → σ → ∀ {β : Type}, Call β → ν → σ → Prop} {shows : α → List (ι × τ)}
  {record : σ → ι → Option τ} {sound : σ → Prop}

/-- A call that keeps what is on record and shows nothing else. -/
def Keeps (shows : α → List (ι × τ)) (record : σ → ι → Option τ) (sound : σ → Prop) (base : σ)
    (result : Except ε α) (state : σ) : Prop :=
  sound state ∧ (∀ key value, record base key = some value → record state key = some value) ∧
    ∀ value, result = .ok value → ∀ shown ∈ shows value, record state shown.1 = some shown.2

/-- A call that is over, with what it showed still on record. -/
def Recorded (shows : α → List (ι × τ)) (record : σ → ι → Option τ) (state : σ)
    (earlier : Running κ Call ε α σ) : Prop :=
  earlier.program.outcome.isSome ∧ ∀ value, earlier.program.outcome = some (.ok value) →
    ∀ shown ∈ shows value, record state shown.1 = some shown.2

theorem Recorded.mono {state state' : σ} {earlier : Running κ Call ε α σ}
    (h : Recorded shows record state earlier)
    (hkeeps : ∀ key value, record state key = some value → record state' key = some value) :
    Recorded shows record state' earlier :=
  ⟨h.1, fun value houtcome shown hshown => hkeeps _ _ (h.2 value houtcome shown hshown)⟩

theorem Recorded.agree {state : σ} {later earlier : Running κ Call ε α σ}
    (h : Recorded shows record state later) (h' : Recorded shows record state earlier) :
    Agree shows later earlier := by
  intro value value' houtcome houtcome' shown hshown shown' hshown' hkey
  have hfirst := h.2 value houtcome shown hshown
  have hsecond := h'.2 value' houtcome' shown' hshown'
  rw [hkey, hsecond] at hfirst
  exact (Option.some.inj hfirst).symm

/-- The newest call is on its way to keeping what was on record when it began. -/
inductive OnRecord (serve : ∀ {β : Type}, Call β → ν → σ → β × σ)
    (allows : κ → σ → ∀ {β : Type}, Call β → ν → σ → Prop) (shows : α → List (ι × τ))
    (record : σ → ι → Option τ) (sound : σ → Prop) : Session κ Call ε α σ → Prop where
  | none (start : sound state) : OnRecord serve allows shows record sound ⟨state, []⟩
  | running {newest : Running κ Call ε α σ} {state : σ} {earlier : List (Running κ Call ε α σ)}
    (meets : newest.program.Meets serve (allows newest.call newest.base)
      (Keeps shows record sound newest.base) state)
    (recorded : ∀ call ∈ earlier, Recorded shows record newest.base call)
    (steady : earlier.Pairwise (Agree shows)) :
    OnRecord serve allows shows record sound ⟨state, newest :: earlier⟩

theorem meets_over {base state : σ} {newest : Program Call ε α}
    {allowed : ∀ {β : Type}, Call β → ν → σ → Prop}
    (h : newest.Meets serve allowed (Keeps shows record sound base) state)
    (hover : newest.outcome.isSome) :
    ∃ result, newest.outcome = some result ∧ Keeps shows record sound base result state := by
  cases newest with
  | done value => exact ⟨_, rfl, h⟩
  | fail error => exact ⟨_, rfl, h⟩
  | call operation next => cases hover

/-- Between two calls everything shown so far is on record. -/
theorem OnRecord.idle {session : Session κ Call ε α σ}
    (h : OnRecord serve allows shows record sound session) (hidle : session.idle = true) :
    sound session.state ∧ (∀ call ∈ session.calls, Recorded shows record session.state call) ∧
      Steady shows session := by
  cases h with
  | none start => exact ⟨start, by simp, .nil⟩
  | @running newest state earlier meets recorded steady =>
    obtain ⟨result, houtcome, hsound, hkeeps, hshows⟩ := meets_over meets hidle
    have hnewest : Recorded shows record state newest := by
      refine ⟨hidle, fun value hvalue => hshows value ?_⟩
      exact Option.some.inj (houtcome.symm.trans hvalue)
    have hearlier : ∀ call ∈ earlier, Recorded shows record state call :=
      fun call hcall => (recorded call hcall).mono hkeeps
    refine ⟨hsound, List.forall_mem_cons.mpr ⟨hnewest, hearlier⟩, ?_⟩
    exact List.pairwise_cons.mpr ⟨fun call hcall => hnewest.agree (hearlier call hcall), steady⟩

theorem OnRecord.steady {session : Session κ Call ε α σ}
    (h : OnRecord serve allows shows record sound session) : Steady shows session := by
  cases hidle : session.idle with
  | true => exact (h.idle hidle).2.2
  | false =>
    cases h with
    | none start => exact .nil
    | running meets recorded steady =>
      refine List.pairwise_cons.mpr ⟨fun call _ value _ houtcome => ?_, steady⟩
      dsimp only [Session.idle] at hidle
      rw [houtcome] at hidle
      cases hidle

/-- Where every call keeps what is on record, a session is steady. -/
theorem steady_of_keeps {start : σ} {session : Session κ Call ε α σ}
    (hcalls : ∀ call base, sound base →
      (program call).Meets serve (allows call base) (Keeps shows record sound base) base)
    (hstart : sound start)
    (h : Reaches (Session.step program serve) (Session.Permitted allows) ⟨start, []⟩ session) :
    Steady shows session := by
  refine OnRecord.steady (h.invariant (.none hstart) ?_ :
    OnRecord serve allows shows record sound session)
  intro session event next hrecord hpermitted hstep
  cases event with
  | begin call =>
    rw [Session.step] at hstep
    split at hstep
    · rename_i hidle
      cases hstep
      obtain ⟨hsound, hrecorded, hsteady⟩ := hrecord.idle hidle
      exact .running (hcalls call _ hsound) hrecorded hsteady
    · cases hstep
  | move verdict =>
    cases hrecord with
    | none start => cases hstep
    | @running newest state earlier meets recorded steady =>
      obtain ⟨call, base, running⟩ := newest
      cases running with
      | done value => cases hstep
      | fail error => cases hstep
      | call operation next =>
        cases hstep
        exact .running (meets verdict hpermitted) recorded steady

end Steady
end Sequence
end HologramLive.Lib
