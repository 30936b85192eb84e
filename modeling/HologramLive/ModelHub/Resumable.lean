import HologramLive.ModelHub.ZipSw
import Mathlib.Data.List.Basic

/-! The stream that survives dropped connections, one connection attempt after the other. -/

namespace HologramLive.ModelHub.ZipSw
open Lib

/-- Where the stream is between two attempts: the next one goes to the source at `place`,
which had `tries` before. -/
structure Position where
  received : Nat
  place : Nat
  tries : Nat

inductive Phase where
  | asking (position : Position)
  | closed
  | failed (message : String)

def Phase.position? : Phase → Option Position
  | .asking position => some position
  | _ => none

/-- Before an attempt: a source that had four is left for the next. -/
def settle (entry : Entry) (received place tries : Nat) : Phase :=
  let (place, tries) := nextTry place tries
  if place < entry.urls.length then .asking ⟨received, place, tries⟩
  else .failed s!"No source delivered {entry.name}."

def kindAt (entry : Entry) (place : Nat) : String :=
  (entry.urls[place]?.map SourceUrl.kind).getD ""

/-- The chunks an answer has for a stream that was to go on from `received`. -/
def Answer.chunksFrom (received : Nat) : Answer → List Bytes
  | .body ranged chunks _ => if received ≠ 0 ∧ ranged = false then skipping received chunks else chunks
  | _ => []

/-- The chunks of a body that are passed on, and how much of the file has been received after
them, unless one goes past its size. -/
def passed (entry : Entry) : Nat → List Bytes → List Bytes × Option Nat
  | received, [] => ([], some received)
  | received, chunk :: chunks =>
    if entry.size < received + chunk.length then ([], none)
    else
      let (front, after) := passed entry (received + chunk.length) chunks
      (chunk :: front, after)

/-- One attempt: what it adds to the stream, and where that leaves it. -/
def attempt (entry : Entry) (position : Position) (answer : Answer) : List Bytes × Phase :=
  match answer with
  | .missing => ([], settle entry position.received (position.place + 1) 0)
  | .refused => ([], settle entry position.received position.place (position.tries + 1))
  | .body _ _ cut =>
    match passed entry position.received (answer.chunksFrom position.received) with
    | (chunks, none) =>
      (chunks, .failed
        s!"{kindAt entry position.place} sent more than {entry.size} bytes for {entry.name}.")
    | (chunks, some received) =>
      (chunks, if cut = false ∧ entry.size ≤ received then .closed
        else settle entry received position.place (position.tries + 1))

/-- The stream as far as the answers go, and where it then is. -/
def run (entry : Entry) : Phase → List Answer → List Bytes × Phase
  | .asking position, answer :: answers =>
    let (chunks, next) := attempt entry position answer
    let (more, last) := run entry next answers
    (chunks ++ more, last)
  | phase, _ => ([], phase)

/-- The sources that are asked, one for each attempt. -/
def asked (entry : Entry) : Phase → List Answer → List Nat
  | .asking position, answer :: answers =>
    position.place :: asked entry (attempt entry position answer).2 answers
  | _, _ => []

def start (entry : Entry) : Phase := settle entry 0 0 0

/-- How the items of the stream end. A stream that still waits for an answer was cancelled. -/
def Phase.ending : Phase → List (Except String Bytes)
  | .asking _ => [.error "cancelled"]
  | .closed => []
  | .failed message => [.error message]

section Stream
variable {entry : Entry} {received place tries origin : Nat} {chunks : List Bytes}

theorem readBody_passed (kind : String) : readBody entry kind received chunks =
    match passed entry received chunks with
    | (front, none) => (front.map .ok ++
        [.error s!"{kind} sent more than {entry.size} bytes for {entry.name}."], none)
    | (front, some after) => (front.map .ok, some after) := by
  induction chunks generalizing received with
  | nil => rfl
  | cons chunk chunks ih =>
    rw [readBody, passed]
    by_cases hover : entry.size < received + chunk.length
    · simp [hover]
    · simp only [hover, if_false, ih]
      cases passed entry (received + chunk.length) chunks with
      | mk front after => cases after <;> rfl

theorem settle_eq : settle entry received place tries =
    if (nextTry place tries).1 < entry.urls.length then
      .asking ⟨received, (nextTry place tries).1, (nextTry place tries).2⟩
    else .failed s!"No source delivered {entry.name}." := rfl

/-- `resilient` is the run of its attempts. -/
theorem resilient_run (answers : List Answer) :
    (resilient entry received place tries origin answers).1 =
      (run entry (settle entry received place tries) answers).1.map .ok ++
        (run entry (settle entry received place tries) answers).2.ending := by
  induction answers generalizing received place tries origin with
  | nil =>
    rw [resilient, settle_eq]
    by_cases hplace : (nextTry place tries).1 < entry.urls.length
    · rw [if_pos hplace, List.getElem?_eq_getElem hplace]
      rfl
    · rw [if_neg hplace, List.getElem?_eq_none (by omega)]
      rfl
  | cons answer answers ih =>
    rw [resilient, settle_eq]
    by_cases hplace : (nextTry place tries).1 < entry.urls.length
    · have hkind : kindAt entry (nextTry place tries).1 = (entry.urls[(nextTry place tries).1]).kind := by
        rw [kindAt, List.getElem?_eq_getElem hplace]
        rfl
      rw [if_pos hplace, List.getElem?_eq_getElem hplace]
      cases answer with
      | missing => simp [run, attempt, ih]
      | refused => simp [run, attempt, ih]
      | body ranged chunks cut =>
        simp only [run, attempt, Answer.chunksFrom, readBody_passed, hkind]
        generalize (if received ≠ 0 ∧ ranged = false then skipping received chunks else chunks) = given
        rcases passed entry received given with ⟨front, - | after⟩
        · cases answers <;> simp [run, Phase.ending]
        · by_cases hclean : cut = false ∧ entry.size ≤ after
          · cases answers <;> simp [run, Phase.ending, hclean]
          · simp [hclean, ih]
    · rw [if_neg hplace, List.getElem?_eq_none (by omega)]
      rfl

/-! ### What is delivered -/

theorem flatten_skipping (skip : Nat) (chunks : List Bytes) :
    (skipping skip chunks).flatten = chunks.flatten.drop skip := by
  induction chunks generalizing skip with
  | nil => simp [skipping]
  | cons chunk chunks ih =>
    cases skip with
    | zero => simp [skipping]
    | succ left =>
      rw [skipping]
      by_cases hshort : chunk.length ≤ left + 1
      · rw [if_pos hshort, ih, List.flatten_cons, List.drop_append, List.drop_of_length_le hshort]
        rfl
      · rw [if_neg hshort, List.flatten_cons, List.flatten_cons, List.drop_append,
          show left + 1 - chunk.length = 0 by omega]
        rfl

/-- What is passed on of a body is a part of it that keeps to the size, and all of it where it
does not go past. -/
theorem passed_spec : ∃ rest, chunks = (passed entry received chunks).1 ++ rest ∧
    (received ≤ entry.size →
      received + (passed entry received chunks).1.flatten.length ≤ entry.size) ∧
    match (passed entry received chunks).2 with
    | some after => rest = [] ∧ after = received + (passed entry received chunks).1.flatten.length
    | none => ∃ chunk more, rest = chunk :: more ∧
        entry.size < received + (passed entry received chunks).1.flatten.length + chunk.length := by
  induction chunks generalizing received with
  | nil => exact ⟨[], rfl, id, rfl, rfl⟩
  | cons chunk chunks ih =>
    rw [passed]
    by_cases hover : entry.size < received + chunk.length
    · rw [if_pos hover]
      exact ⟨chunk :: chunks, rfl, id, chunk, chunks, rfl, hover⟩
    · rw [if_neg hover]
      obtain ⟨rest, hchunks, hbound, hafter⟩ := @ih (received + chunk.length)
      generalize passed entry (received + chunk.length) chunks = result at hchunks hbound hafter
      obtain ⟨front, after⟩ := result
      dsimp only at hchunks hbound hafter
      refine ⟨rest, congrArg (chunk :: ·) hchunks, fun _ => ?_, ?_⟩
      · have hfit := hbound (by omega)
        simp only [List.flatten_cons, List.length_append]
        omega
      · cases after with
        | none =>
          obtain ⟨next, more, hrest, hlarge⟩ := hafter
          refine ⟨next, more, hrest, ?_⟩
          simp only [List.flatten_cons, List.length_append]
          omega
        | some after =>
          refine ⟨hafter.1, ?_⟩
          simp only [List.flatten_cons, List.length_append]
          omega

/-- A source serves the bytes of the file: from where it is asked with a partial answer, else
from the start. What it serves may end anywhere. -/
def Serves (file : Bytes) (received : Nat) : Answer → Prop
  | .body ranged chunks _ => chunks.flatten <+: if ranged then file.drop received else file
  | _ => True

def Honest (entry : Entry) (file : Bytes) : Phase → List Answer → Prop
  | .asking position, answer :: answers =>
    Serves file position.received answer ∧
      Honest entry file (attempt entry position answer).2 answers
  | _, _ => True

/-- What a phase knows of the bytes delivered before it. -/
def Sound (entry : Entry) (delivered : Bytes) : Phase → Prop
  | .asking position => position.received = delivered.length ∧ delivered.length ≤ entry.size
  | .closed => delivered.length = entry.size
  | .failed _ => delivered.length ≤ entry.size

theorem Serves.extends {file delivered : Bytes} {answer : Answer}
    (h : Serves file delivered.length answer) (hdelivered : delivered <+: file) :
    delivered ++ (answer.chunksFrom delivered.length).flatten <+: file := by
  cases answer with
  | missing => simpa [Answer.chunksFrom] using hdelivered
  | refused => simpa [Answer.chunksFrom] using hdelivered
  | body ranged chunks cut =>
    obtain ⟨tail, rfl⟩ := hdelivered
    cases ranged with
    | true =>
      rw [Serves, if_pos rfl, List.drop_left] at h
      simpa [Answer.chunksFrom] using h
    | false =>
      simp only [Serves, Bool.false_eq_true, if_false] at h
      by_cases hstart : delivered.length = 0
      · obtain rfl := List.eq_nil_of_length_eq_zero hstart
        simpa [Answer.chunksFrom] using h
      · have hrest := h.drop delivered.length
        rw [List.drop_left] at hrest
        simpa [Answer.chunksFrom, hstart, flatten_skipping] using hrest

theorem settle_sound {delivered : Bytes} (hreceived : received = delivered.length)
    (hsize : delivered.length ≤ entry.size) :
    Sound entry delivered (settle entry received place tries) := by
  rw [settle_eq]
  by_cases hplace : (nextTry place tries).1 < entry.urls.length
  · rw [if_pos hplace]
    exact ⟨hreceived, hsize⟩
  · rw [if_neg hplace]
    exact hsize

/-- An attempt adds the bytes that follow, and no more than the size allows. -/
theorem attempt_sound {file delivered : Bytes} {position : Position} {answer : Answer}
    (hsound : Sound entry delivered (.asking position)) (hdelivered : delivered <+: file)
    (hserves : Serves file position.received answer) :
    delivered ++ (attempt entry position answer).1.flatten <+: file ∧
      Sound entry (delivered ++ (attempt entry position answer).1.flatten)
        (attempt entry position answer).2 := by
  obtain ⟨hreceived, hsize⟩ := hsound
  cases answer with
  | missing =>
    simp only [attempt, List.flatten_nil, List.append_nil]
    exact ⟨hdelivered, settle_sound hreceived hsize⟩
  | refused =>
    simp only [attempt, List.flatten_nil, List.append_nil]
    exact ⟨hdelivered, settle_sound hreceived hsize⟩
  | body ranged chunks cut =>
    rw [hreceived] at hserves
    have hall := hserves.extends hdelivered
    rw [attempt, hreceived]
    obtain ⟨rest, hchunks, hbound, hafter⟩ := @passed_spec entry delivered.length
      ((Answer.body ranged chunks cut).chunksFrom delivered.length)
    have hfront : delivered ++ (passed entry delivered.length
        ((Answer.body ranged chunks cut).chunksFrom delivered.length)).1.flatten <+: file := by
      rw [hchunks, List.flatten_append, ← List.append_assoc] at hall
      exact (List.prefix_append _ _).trans hall
    generalize passed entry delivered.length
      ((Answer.body ranged chunks cut).chunksFrom delivered.length) = result at *
    obtain ⟨front, after⟩ := result
    dsimp only at hbound hafter hfront
    have hfit := hbound hsize
    rw [← List.length_append] at hfit
    cases after with
    | none => exact ⟨hfront, hfit⟩
    | some after =>
      obtain ⟨-, rfl⟩ := hafter
      refine ⟨hfront, ?_⟩
      dsimp only
      split
      · rename_i hclosed
        have hwhole := hclosed.2
        rw [← List.length_append] at hwhole
        exact Nat.le_antisymm hfit hwhole
      · exact settle_sound List.length_append.symm hfit

theorem run_asking {position : Position} {answer : Answer} {answers : List Answer} :
    run entry (.asking position) (answer :: answers) =
      ((attempt entry position answer).1 ++
          (run entry (attempt entry position answer).2 answers).1,
        (run entry (attempt entry position answer).2 answers).2) := rfl

/-- The run of a stream delivers the file from its start, as far as it gets. -/
theorem run_sound {file delivered : Bytes} {phase : Phase} {answers : List Answer}
    (hsound : Sound entry delivered phase) (hdelivered : delivered <+: file)
    (hhonest : Honest entry file phase answers) :
    delivered ++ (run entry phase answers).1.flatten <+: file ∧
      Sound entry (delivered ++ (run entry phase answers).1.flatten) (run entry phase answers).2 := by
  induction answers generalizing delivered phase with
  | nil => cases phase <;> simpa [run] using ⟨hdelivered, hsound⟩
  | cons answer answers ih =>
    cases phase with
    | closed => simpa [run] using ⟨hdelivered, hsound⟩
    | failed message => simpa [run] using ⟨hdelivered, hsound⟩
    | asking position =>
      obtain ⟨hserves, hrest⟩ := hhonest
      obtain ⟨hextends, hnext⟩ := attempt_sound hsound hdelivered hserves
      rw [run_asking, List.flatten_append, ← List.append_assoc]
      exact ih hnext hextends hrest

theorem start_sound : Sound entry [] (start entry) := settle_sound rfl (Nat.zero_le _)

/-! ### How long it goes on -/

/-- The next attempt goes to one of the sources, which had fewer than four. -/
def Phase.Within (entry : Entry) : Phase → Prop
  | .asking position => position.place < entry.urls.length ∧ position.tries < 4
  | _ => True

theorem settle_within : (settle entry received place tries).Within entry := by
  rw [settle_eq]
  by_cases hplace : (nextTry place tries).1 < entry.urls.length
  · rw [if_pos hplace]
    refine ⟨hplace, ?_⟩
    simp only [nextTry]
    split
    · assumption
    · exact Nat.zero_lt_succ 3
  · rw [if_neg hplace]
    trivial

theorem attempt_within (position : Position) (answer : Answer) :
    (attempt entry position answer).2.Within entry := by
  cases answer with
  | missing => exact @settle_within entry position.received (position.place + 1) 0
  | refused => exact @settle_within entry position.received position.place (position.tries + 1)
  | body ranged chunks cut =>
    rw [attempt]
    generalize passed entry position.received
      ((Answer.body ranged chunks cut).chunksFrom position.received) = result
    obtain ⟨front, - | after⟩ := result
    · trivial
    · dsimp only
      split
      · trivial
      · exact settle_within

/-- Where a position is in the order of attempts. -/
def Position.turn (position : Position) : Nat := 4 * position.place + position.tries

theorem settle_turn {position : Position} (htries : tries ≤ 4)
    (h : settle entry received place tries = .asking position) :
    4 * place + tries ≤ position.turn := by
  rw [settle_eq] at h
  by_cases hplace : (nextTry place tries).1 < entry.urls.length
  · rw [if_pos hplace] at h
    cases h
    by_cases hmore : tries < 4 <;> simp only [Position.turn, nextTry, hmore, if_true, if_false] <;> omega
  · rw [if_neg hplace] at h
    cases h

/-- Every attempt is later in the order than the one before. -/
theorem attempt_turn {position next : Position} {answer : Answer} (htries : position.tries < 4)
    (h : (attempt entry position answer).2 = .asking next) : position.turn < next.turn := by
  cases answer with
  | missing =>
    have hturn := settle_turn (Nat.zero_le 4) h
    simp only [Position.turn] at *
    omega
  | refused =>
    have hturn := settle_turn htries h
    simp only [Position.turn] at *
    omega
  | body ranged chunks cut =>
    rw [attempt] at h
    generalize passed entry position.received
      ((Answer.body ranged chunks cut).chunksFrom position.received) = result at h
    obtain ⟨front, - | after⟩ := result
    · cases h
    · dsimp only at h
      split at h
      · cases h
      · have hturn := settle_turn htries h
        simp only [Position.turn] at *
        omega

/-- The answers that are enough for the attempts left bring the stream to its end. -/
theorem run_ends {phase : Phase} {answers : List Answer} (hwithin : phase.Within entry)
    (henough : ∀ position, phase = .asking position →
      4 * entry.urls.length ≤ position.turn + answers.length) (position : Position) :
    (run entry phase answers).2 ≠ .asking position := by
  induction answers generalizing phase with
  | nil =>
    cases phase with
    | closed => simp [run]
    | failed message => simp [run]
    | asking first =>
      have hlength := henough first rfl
      obtain ⟨hplace, htries⟩ := hwithin
      simp only [Position.turn, List.length_nil] at hlength
      omega
  | cons answer answers ih =>
    cases phase with
    | closed => simp [run]
    | failed message => simp [run]
    | asking first =>
      rw [run_asking]
      refine ih (attempt_within first answer) fun next hnext => ?_
      have hturn := attempt_turn hwithin.2 hnext
      have hlength := henough first rfl
      rw [List.length_cons] at hlength
      omega

/-- No source is asked more often than it has turns left. -/
theorem count_asked {phase : Phase} {answers : List Answer} (source : Nat)
    (hwithin : phase.Within entry) : (asked entry phase answers).count source ≤ 4 ∧
      ∀ position, phase = .asking position →
        (asked entry phase answers).count source ≤ 4 * (source + 1) - position.turn := by
  induction answers generalizing phase with
  | nil => cases phase <;> simp [asked]
  | cons answer answers ih =>
    cases phase with
    | closed => simp [asked]
    | failed message => simp [asked]
    | asking first =>
      obtain ⟨hfour, hleft⟩ := ih (attempt_within first answer)
      obtain ⟨-, htries⟩ := hwithin
      have hmore : (asked entry (attempt entry first answer).2 answers).count source ≤
          4 * (source + 1) - (first.turn + 1) := by
        cases hnext : (attempt entry first answer).2 with
        | closed => cases answers <;> simp [asked]
        | failed message => cases answers <;> simp [asked]
        | asking next =>
          have hturn := attempt_turn htries hnext
          have hnextLeft := hleft next hnext
          rw [hnext] at hnextLeft
          omega
      have hcount : (asked entry (.asking first) (answer :: answers)).count source ≤
          4 * (source + 1) - first.turn ∧
          (asked entry (.asking first) (answer :: answers)).count source ≤ 4 := by
        rw [asked, List.count_cons]
        simp only [Position.turn] at hmore ⊢
        by_cases hplace : first.place = source
        · simp only [hplace, beq_self_eq_true, if_true] at hmore ⊢
          omega
        · simp only [beq_eq_false_iff_ne.mpr hplace, Bool.false_eq_true, if_false]
          omega
      refine ⟨hcount.2, fun position hposition => ?_⟩
      cases hposition
      exact hcount.1

/-! ### When a stream fails that has delivered the whole file -/

/-- An answer that does not bring a body to its end. -/
def Answer.fails : Answer → Prop
  | .body _ _ cut => cut = true
  | _ => True

/-- Whether the last source is left by a failing answer. -/
def LastAttempt (entry : Entry) (position : Position) (answer : Answer) : Prop :=
  position.place + 1 = entry.urls.length ∧ (answer = .missing ∨ position.tries = 3)

/-- Where an answer completes the file, nothing follows and the last source is not left. -/
def Spares (entry : Entry) (position : Position) (answer : Answer) : Prop :=
  ∀ front rest, answer.chunksFrom position.received = front ++ rest →
    position.received + front.flatten.length = entry.size →
    rest.flatten = [] ∧ (answer.fails → ¬ LastAttempt entry position answer)

def Spared (entry : Entry) : Phase → List Answer → Prop
  | .asking position, answer :: answers =>
    Spares entry position answer ∧ Spared entry (attempt entry position answer).2 answers
  | _, _ => True

def Phase.FailsShort (size delivered : Nat) (phase : Phase) : Prop :=
  ∀ message, phase = .failed message → delivered < size

theorem settle_failsShort {delivered : Nat} : (settle entry received place tries).FailsShort
    entry.size delivered ↔ (entry.urls.length ≤ (nextTry place tries).1 → delivered < entry.size) := by
  rw [settle_eq]
  by_cases hplace : (nextTry place tries).1 < entry.urls.length
  · rw [if_pos hplace]
    exact ⟨fun _ hlast => absurd hlast (Nat.not_le.mpr hplace), fun _ message h => by cases h⟩
  · rw [if_neg hplace]
    exact ⟨fun h _ => h _ rfl, fun h _ _ => h (Nat.not_lt.mp hplace)⟩

/-- An attempt without a body fails short just where it spares the file. -/
theorem spares_nothing {position : Position} {answer : Answer}
    (hchunks : answer.chunksFrom position.received = []) (hfails : answer.fails) :
    Spares entry position answer ↔
      (position.received = entry.size → ¬ LastAttempt entry position answer) := by
  constructor
  · intro h hwhole
    exact (h [] [] hchunks hwhole).2 hfails
  · intro h front rest hsplit hwhole
    obtain ⟨rfl, rfl⟩ := List.append_eq_nil_iff.mp (hsplit.symm.trans hchunks)
    exact ⟨rfl, fun _ => h hwhole⟩

/-- No part of a list that stops short of the size, or else goes past it, has just the size. -/
theorem not_whole {front front' more rest' given : List Bytes} {chunk : Bytes} {size : Nat}
    (hchunks : given = front ++ chunk :: more) (hsplit : given = front' ++ rest')
    (hless : received + front.flatten.length < size)
    (hlarge : size < received + front.flatten.length + chunk.length) :
    received + front'.flatten.length ≠ size := by
  rcases List.append_eq_append_iff.mp (hsplit.symm.trans hchunks) with
    ⟨between, rfl, -⟩ | ⟨between, rfl, hmore⟩
  · rw [List.flatten_append, List.length_append] at hless
    omega
  · cases between with
    | nil =>
      rw [List.append_nil]
      omega
    | cons head between =>
      obtain ⟨rfl, -⟩ := List.cons.inj hmore
      rw [List.flatten_append, List.flatten_cons, List.length_append, List.length_append]
      omega

theorem last_turn (hplace : place < entry.urls.length) (htries : tries < 4) :
    entry.urls.length ≤ (nextTry place (tries + 1)).1 ↔
      place + 1 = entry.urls.length ∧ tries = 3 := by
  rw [nextTry]
  split <;> omega

theorem attempt_spares {position : Position} {answer : Answer}
    (hsize : position.received ≤ entry.size) (hwithin : (Phase.asking position).Within entry) :
    (attempt entry position answer).2.FailsShort entry.size
        (position.received + (attempt entry position answer).1.flatten.length) ↔
      Spares entry position answer := by
  obtain ⟨hplace, htries⟩ := hwithin
  cases answer with
  | missing =>
    rw [@spares_nothing entry position .missing rfl trivial, attempt, settle_failsShort]
    simp only [nextTry, LastAttempt, List.flatten_nil, List.length_nil]
    simp
    omega
  | refused =>
    rw [@spares_nothing entry position .refused rfl trivial, attempt, settle_failsShort]
    simp only [nextTry, LastAttempt, List.flatten_nil, List.length_nil]
    simp
    split <;> omega
  | body ranged chunks cut =>
    rw [attempt, Spares]
    obtain ⟨rest, hchunks, hbound, hafter⟩ := @passed_spec entry position.received
      ((Answer.body ranged chunks cut).chunksFrom position.received)
    generalize (Answer.body ranged chunks cut).chunksFrom position.received = given at *
    generalize passed entry position.received given = result at *
    obtain ⟨front, after⟩ := result
    dsimp only at hchunks hbound hafter
    have hfit := hbound hsize
    cases after with
    | none =>
      obtain ⟨chunk, more, rfl, hlarge⟩ := hafter
      constructor
      · intro hshort front' rest' hsplit hwhole
        have hless := hshort _ rfl
        dsimp only at hless
        exact absurd hwhole (not_whole hchunks hsplit hless hlarge)
      · intro hspares message _
        refine lt_of_le_of_ne hfit fun hwhole => ?_
        have hrest := (hspares front (chunk :: more) hchunks hwhole).1
        rw [List.flatten_cons, List.append_eq_nil_iff] at hrest
        rw [hrest.1, List.length_nil] at hlarge
        omega
    | some after =>
      obtain ⟨rfl, rfl⟩ := hafter
      rw [List.append_nil] at hchunks
      subst hchunks
      have hends : ∀ {front' rest'}, given = front' ++ rest' →
          position.received + front'.flatten.length = entry.size → rest'.flatten = [] ∧
            position.received + given.flatten.length = entry.size := by
        intro front' rest' hsplit hwhole
        rw [hsplit, List.flatten_append, List.length_append] at hfit ⊢
        have hnone : rest'.flatten.length = 0 := by omega
        exact ⟨List.eq_nil_of_length_eq_zero hnone, by omega⟩
      dsimp only
      cases cut with
      | false =>
        constructor
        · intro _ front' rest' hsplit hwhole
          exact ⟨(hends hsplit hwhole).1, fun hfails => by simp [Answer.fails] at hfails⟩
        · intro hspares
          by_cases hwhole : entry.size ≤ position.received + given.flatten.length
          · rw [if_pos ⟨rfl, hwhole⟩]
            intro message h
            cases h
          · rw [if_neg fun h => hwhole h.2, settle_failsShort]
            exact fun _ => Nat.not_le.mp hwhole
      | true =>
        rw [if_neg fun h => by simp at h, settle_failsShort, last_turn hplace htries]
        constructor
        · intro hshort front' rest' hsplit hwhole
          obtain ⟨hrest, htotal⟩ := hends hsplit hwhole
          refine ⟨hrest, fun _ hlast => ?_⟩
          have hless := hshort ⟨hlast.1, hlast.2.resolve_left (by simp)⟩
          omega
        · intro hspares hlast
          refine lt_of_le_of_ne hfit fun htotal => ?_
          exact (hspares given [] (List.append_nil given).symm htotal).2 rfl ⟨hlast.1, .inr hlast.2⟩

/-- A stream fails short of the size just where each of its attempts spares the file. -/
theorem run_spared {file delivered : Bytes} {phase : Phase} {answers : List Answer}
    (hwithin : phase.Within entry) (hsound : Sound entry delivered phase)
    (hdelivered : delivered <+: file) (hhonest : Honest entry file phase answers) :
    (run entry phase answers).2.FailsShort entry.size
        (delivered.length + (run entry phase answers).1.flatten.length) ↔
      phase.FailsShort entry.size delivered.length ∧ Spared entry phase answers := by
  induction answers generalizing delivered phase with
  | nil => cases phase <;> simp [run, Spared]
  | cons answer answers ih =>
    cases phase with
    | closed => simp [run, Spared]
    | failed message => simp [run, Spared]
    | asking position =>
      obtain ⟨hserves, hrest⟩ := hhonest
      obtain ⟨hextends, hnext⟩ := attempt_sound hsound hdelivered hserves
      have hattempt := @attempt_spares entry position answer (hsound.1 ▸ hsound.2) hwithin
      have hmore := ih (attempt_within position answer) hnext hextends hrest
      rw [hsound.1, ← List.length_append] at hattempt
      rw [hattempt, List.length_append, Nat.add_assoc, ← List.length_append,
        ← List.flatten_append] at hmore
      rw [run_asking, hmore, Spared]
      exact ⟨fun h => ⟨fun message hfailed => (by cases hfailed), h⟩, fun h => h.2⟩

theorem start_failsShort :
    (start entry).FailsShort entry.size 0 ↔ (entry.urls = [] → 0 < entry.size) := by
  rw [start, settle_failsShort]
  simp only [nextTry, Nat.zero_lt_succ, if_true, Nat.le_zero, List.length_eq_zero_iff]

/-- A stream of honest answers carries the file from its start without a gap, asks no source more
than four times and closes only with the whole of it. It fails with less than the whole just
where there is a source for an empty file and every attempt spares the file. -/
theorem resilient_resumes (entry : Entry) (file : Bytes) (answers : List Answer)
    (hhonest : Honest entry file (start entry) answers) :
    (resilient entry 0 0 0 0 answers).1 =
        (run entry (start entry) answers).1.map .ok ++ (run entry (start entry) answers).2.ending ∧
      (∀ n, ((run entry (start entry) answers).1.take n).flatten <+: file) ∧
      (4 * entry.urls.length ≤ answers.length →
        ∀ position, (run entry (start entry) answers).2 ≠ .asking position) ∧
      (∀ source, (asked entry (start entry) answers).count source ≤ 4) ∧
      ((run entry (start entry) answers).2 = .closed →
        (run entry (start entry) answers).1.flatten.length = entry.size) ∧
      ((∀ message, (run entry (start entry) answers).2 = .failed message →
          (run entry (start entry) answers).1.flatten.length < entry.size) ↔
        (entry.urls = [] → 0 < entry.size) ∧ Spared entry (start entry) answers) := by
  have hwithin : (start entry).Within entry := settle_within
  obtain ⟨hprefixed, hend⟩ := run_sound start_sound List.nil_prefix hhonest
  have hspared := run_spared hwithin start_sound List.nil_prefix hhonest
  rw [List.nil_append] at hprefixed hend
  rw [List.length_nil, Nat.zero_add, start_failsShort] at hspared
  refine ⟨resilient_run answers, fun n => ?_, fun henough => ?_, fun source => ?_, fun hclosed => ?_,
    hspared⟩
  · have htake := List.take_append_drop n (run entry (start entry) answers).1
    rw [← htake, List.flatten_append] at hprefixed
    exact (List.prefix_append _ _).trans hprefixed
  · exact run_ends hwithin fun position _ => henough.trans (Nat.le_add_left _ _)
  · exact (count_asked source hwithin).1
  · rw [hclosed] at hend
    exact hend

def heldEntry : Entry := ⟨"weights.bin", 2, "", [⟨"huggingface.co", "https://h/w"⟩], none⟩

/-- The connection drops after the last byte, and the source then refuses to go on from there. -/
def heldAnswers : List Answer := [.body false [[1, 2]] true, .refused, .refused, .refused]

/-- All of the file has been delivered, and the stream ends in an error. -/
theorem resilient_fails_whole : Honest heldEntry [1, 2] (start heldEntry) heldAnswers ∧
    (resilient heldEntry 0 0 0 0 heldAnswers).1 =
      [.ok [1, 2], .error "No source delivered weights.bin."] ∧
    ([1, 2] : Bytes).length = heldEntry.size := by
  refine ⟨⟨⟨[], rfl⟩, trivial, trivial, trivial, trivial⟩, ?_, rfl⟩
  rfl

/-- The same source as it delivers after one cut. -/
theorem resilient_resumes_cut :
    (resilient heldEntry 0 0 0 0 [.body false [[1]] true, .body true [[2]] false]).1 =
      [.ok [1], .ok [2]] := by
  have h := resilient_resumes heldEntry [1, 2] [.body false [[1]] true, .body true [[2]] false]
    ⟨⟨[2], rfl⟩, ⟨[], rfl⟩, trivial⟩
  exact h.1

end Stream
end HologramLive.ModelHub.ZipSw
