import HologramLive.Error
import HologramLive.Inference.Stream
import HologramLive.Store.Names

/-! A resident model session: the turns of one key, the child process that answers them, and what
the child's answers come to. -/

namespace HologramLive.Weightc
open Inference Store

structure SessionErrorLine where
  code : String
  message : String

/-- A line of the child: a receipt or an error. -/
structure SessionLine where
  response : Option String := none
  text : Option String := none
  output : Option String := none
  elapsedMs : Option Nat := none
  promptTokens : Option UInt64 := none
  completionTokens : Option UInt64 := none
  error : Option SessionErrorLine := none

structure SessionSpec where
  binary : String
  timeout : Nat
  model : String

structure SessionTurn where
  prompt : String
  system : Option String := none

structure TurnOutcome where
  result : Except LiveError Completion
  alive : Bool

structure TurnFailure where
  error : LiveError
  alive : Bool

def TurnFailure.reported (error : LiveError) : TurnFailure := { error, alive := true }

def TurnFailure.broken (error : LiveError) : TurnFailure := { error, alive := false }

/-- A child process, by the lines it was given and how many lines of it were read, blank ones
apart. -/
structure Child where
  given : List String := []
  heard : Nat := 0

/-- What reading a line comes to. -/
inductive Reading where
  | line (text : String)
  | timedOut
  | failed (error : String)
  | ended

/-- What spawning a child, writing a line and reading lines come to in one turn. Where the readings
are at an end no line comes in time. -/
structure Conditions where
  spawned : Except String Unit := .ok ()
  written : Except String Unit := .ok ()
  readings : List Reading := []
  elapsed : Nat := 0

/-- How lines are written and read. -/
structure LineCodec where
  toLine : String → Option String → String
  fromLine : String → Except String SessionLine

structure WeightcSessionActor where
  key : String
  spec : SessionSpec
  child : Option Child := none
  systemPending : Option String := none
  greeted : Bool := false

namespace WeightcSessionActor
variable (codec : LineCodec) (conditions : Conditions)

def new (key : String) (spec : SessionSpec) : WeightcSessionActor := { key, spec }

def ensureChild (actor : WeightcSessionActor) : Except TurnFailure WeightcSessionActor :=
  match actor.child, conditions.spawned with
  | some _, _ => .ok actor
  | none, .error error =>
    .error (.broken (.transport s!"failed to start {actor.spec.binary}: {error}"))
  | none, .ok () => .ok { actor with child := some {} }

def teardown (actor : WeightcSessionActor) : WeightcSessionActor := { actor with child := none }

/-- The child once it was given a line. -/
def told (line : String) (actor : WeightcSessionActor) : WeightcSessionActor :=
  { actor with child := actor.child.map fun child => { child with given := child.given ++ [line] } }

/-- The child once a line of it was read. -/
def listened (actor : WeightcSessionActor) : WeightcSessionActor :=
  { actor with child := actor.child.map fun child => { child with heard := child.heard + 1 } }

def writeLine (line : String) (actor : WeightcSessionActor) :
    Except TurnFailure WeightcSessionActor :=
  match conditions.written with
  | .ok () => .ok (actor.told line)
  | .error error =>
    .error <| .broken <| .transport s!"weightc session {actor.key} is gone (context lost): {error}"

/-- What a line says, without the greeting it counts as. -/
def receipt (key model line : String) (elapsed : Nat) : Except TurnFailure Completion :=
  match codec.fromLine line with
  | .error error =>
    .error <| .broken <| .protocol s!"weightc session {key} emitted an unparsable line: {error}"
  | .ok parsed =>
    match parsed.error with
    | some error =>
      .error <| .reported <|
        if error.code = "invalid_request" then
          .protocol s!"weightc rejected the turn: {error.message}"
        else if error.code = "session" then
          .transport s!"weightc session error: {error.message}"
        else .protocol s!"weightc error {error.code}: {error.message}"
    | none =>
      match (parsed.response.or parsed.text).or parsed.output with
      | none =>
        .error <| .broken <| .protocol
          s!"weightc session {key} receipt has no response, text, or output field"
      | some text =>
        .ok { text, model
              elapsedMillis := parsed.elapsedMs.getD elapsed
              usage := TokenUsage.fromCounts parsed.promptTokens parsed.completionTokens }

def parseReceipt (line : String) (actor : WeightcSessionActor) :
    Except TurnFailure Completion × WeightcSessionActor :=
  match receipt codec actor.key actor.spec.model line conditions.elapsed with
  | .ok completion => (.ok completion, { actor with greeted := true })
  | .error failure => (.error failure, actor)

def readReceipt : List Reading → WeightcSessionActor →
    Except TurnFailure Completion × WeightcSessionActor
  | [], actor | .timedOut :: _, actor =>
    (.error <| .broken <| .transport
      s!"weightc session {actor.key} timed out after {actor.spec.timeout}s", actor)
  | .failed error :: _, actor =>
    (.error <| .broken <| .transport
      s!"weightc session {actor.key} read failed (context lost): {error}", actor)
  | .ended :: _, actor =>
    (.error <| .broken <| .transport s!"weightc session {actor.key} exited (context lost)", actor)
  | .line text :: rest, actor =>
    if trim text = "" then readReceipt rest actor
    else parseReceipt codec conditions (trim text) actor.listened

def requestLine (prompt : String) (actor : WeightcSessionActor) : String :=
  codec.toLine prompt (if actor.greeted then none else actor.systemPending) ++ "\n"

def turn (prompt : String) (actor : WeightcSessionActor) :
    Except TurnFailure Completion × WeightcSessionActor :=
  match actor.ensureChild conditions with
  | .error failure => (.error failure, actor)
  | .ok ready =>
    match ready.writeLine conditions (ready.requestLine codec prompt) with
    | .error failure => (.error failure, ready)
    | .ok asked => readReceipt codec conditions conditions.readings asked

def pending (message : SessionTurn) (actor : WeightcSessionActor) : WeightcSessionActor :=
  if actor.systemPending.isNone then { actor with systemPending := message.system } else actor

def handle (message : SessionTurn) (actor : WeightcSessionActor) :
    TurnOutcome × WeightcSessionActor :=
  match (actor.pending message).turn codec conditions message.prompt with
  | (.ok completion, after) => ({ result := .ok completion, alive := true }, after)
  | (.error failure, after) =>
    ({ result := .error failure.error, alive := failure.alive },
      if failure.alive then after else after.teardown)

def stop (actor : WeightcSessionActor) : WeightcSessionActor := actor.teardown

end WeightcSessionActor

/-! ### What a session is for -/

/-- A session as those who ask it see it: the lines it knows of, whether it has answered once, and
the system text that goes with its first answer. -/
structure Session where
  context : List String := []
  answered : Bool := false
  system : Option String := none

inductive Event where
  | turn (turn : SessionTurn) (conditions : Conditions) (outcome : TurnOutcome)
  | stop

namespace Session
variable (codec : LineCodec)

/-- The line of a turn. The system text goes with every line until there was an answer. -/
def line (session : Session) (turn : SessionTurn) : String :=
  codec.toLine turn.prompt
    (if session.answered then none else session.system.or turn.system) ++ "\n"

/-- A turn that breaks the session takes the context with it, and no more than that. -/
def next (session : Session) : Event → Session
  | .stop => { session with context := [] }
  | .turn turn _ outcome =>
    { context := if outcome.alive then session.context ++ [session.line codec turn] else []
      answered := session.answered || outcome.result.toOption.isSome
      system := session.system.or turn.system }

def after (log : List Event) : Session := log.foldl (next codec) {}

end Session

/-- The line that a reading comes to, blank ones apart. -/
def Reading.text : Reading → Option String
  | .line text => if trim text = "" then none else some text
  | _ => none

/-- The lines of a child that were not read, where it writes one line for each line it was given:
what it answers to that line and those before. Blank lines may come in between. -/
def Child.owed (answer : List String → String) (child : Child) : List String :=
  (List.range (child.given.length - child.heard)).map fun place =>
    answer (child.given.take (child.heard + place + 1))

/-- The lines that are read in a turn are lines that the child has written. -/
def Delivers (codec : LineCodec) (answer : List String → String) (actor : WeightcSessionActor)
    (turn : SessionTurn) (conditions : Conditions) : Prop :=
  ∀ ready asked, (actor.pending turn).ensureChild conditions = .ok ready →
    ready.writeLine conditions (ready.requestLine codec turn.prompt) = .ok asked →
    ∀ child, asked.child = some child →
      conditions.readings.filterMap Reading.text <+: child.owed answer

/-- The messages of an actor, one after another. -/
inductive Runs (codec : LineCodec) (answer : List String → String) (key : String)
    (spec : SessionSpec) : List Event → WeightcSessionActor → Prop where
  | start : Runs codec answer key spec [] (.new key spec)
  | turn (run : Runs codec answer key spec log actor) (turn : SessionTurn) (conditions : Conditions)
    (delivers : Delivers codec answer actor turn conditions)
    (handled : actor.handle codec conditions turn = (outcome, after)) :
    Runs codec answer key spec (log ++ [Event.turn turn conditions outcome]) after
  | stop (run : Runs codec answer key spec log actor) :
    Runs codec answer key spec (log ++ [Event.stop]) actor.stop

/-- What a receipt makes of a turn. -/
def TurnOutcome.of : Except TurnFailure Completion → TurnOutcome
  | .ok completion => { result := .ok completion, alive := true }
  | .error failure => { result := .error failure.error, alive := failure.alive }

/-- The actor stands where the session does, and its child owes nothing. -/
structure Stands (key : String) (spec : SessionSpec) (actor : WeightcSessionActor)
    (session : Session) : Prop where
  key : actor.key = key
  spec : actor.spec = spec
  answered : actor.greeted = session.answered
  system : actor.systemPending = session.system
  child : actor.child = none ∧ session.context = [] ∨
    actor.child = some { given := session.context, heard := session.context.length }

section Turns
variable {codec : LineCodec} {answer : List String → String} {conditions : Conditions}
  {key : String} {spec : SessionSpec} {actor after : WeightcSessionActor} {session : Session}
  {turn : SessionTurn} {outcome : TurnOutcome}

open WeightcSessionActor

/-- A child owes one answer once it was given a line. -/
theorem owed_told (context : List String) (line : String) :
    Child.owed answer { given := context ++ [line], heard := context.length } =
      [answer (context ++ [line])] := by
  have hall : (context ++ [line]).take (context.length + 1) = context ++ [line] :=
    List.take_of_length_le (by simp)
  simp [Child.owed, hall]

/-- The line that reading stops at. -/
def found : List Reading → Option String
  | .line text :: rest => if trim text = "" then found rest else some text
  | _ => none

theorem readReceipt_found {text : String} {readings : List Reading}
    (h : found readings = some text) :
    readReceipt codec conditions readings actor =
      parseReceipt codec conditions (trim text) actor.listened := by
  induction readings with
  | nil => cases h
  | cons reading rest ih =>
    cases reading with
    | line line =>
      rw [found] at h
      rw [readReceipt]
      split at h
      next hblank => rw [if_pos hblank, ih h]
      next hblank => rw [if_neg hblank, Option.some.inj h]
    | timedOut => cases h
    | failed error => cases h
    | ended => cases h

/-- Where reading stops at no line it breaks the session. -/
theorem readReceipt_broken {readings : List Reading} (h : found readings = none) :
    ∃ error, readReceipt codec conditions readings actor = (.error (.broken error), actor) := by
  induction readings with
  | nil => exact ⟨_, rfl⟩
  | cons reading rest ih =>
    cases reading with
    | line line =>
      rw [found] at h
      split at h
      next hblank => rw [readReceipt, if_pos hblank]; exact ih h
      next => cases h
    | timedOut => exact ⟨_, rfl⟩
    | failed error => exact ⟨_, rfl⟩
    | ended => exact ⟨_, rfl⟩

/-- Reading stops at no line but the first that is owed. -/
theorem found_owed {text owed : String} {rest : List String} {readings : List Reading}
    (hreadings : readings.filterMap Reading.text <+: owed :: rest)
    (h : found readings = some text) : text = owed := by
  induction readings with
  | nil => cases h
  | cons reading readings ih =>
    cases reading with
    | line line =>
      rw [found] at h
      split at h
      next hblank => exact ih (by simpa [Reading.text, hblank] using hreadings) h
      next hblank =>
        have hline : line :: readings.filterMap Reading.text <+: owed :: rest := by
          simpa [Reading.text, hblank] using hreadings
        exact (Option.some.inj h).symm.trans (List.cons_prefix_cons.mp hline).1
    | timedOut => cases h
    | failed error => cases h
    | ended => cases h

/-- What the line of a turn makes of it. -/
def settled (codec : LineCodec) (answer : List String → String) (key : String) (spec : SessionSpec)
    (session : Session) (turn : SessionTurn) (conditions : Conditions) : TurnOutcome :=
  .of (receipt codec key spec.model
    (trim (answer (session.context ++ [session.line codec turn]))) conditions.elapsed)

/-- All goes well: a child is there or can be spawned, takes the line and answers in time. -/
structure Favourable (codec : LineCodec) (answer : List String → String) (session : Session)
    (turn : SessionTurn) (conditions : Conditions) : Prop where
  spawned : conditions.spawned = .ok ()
  written : conditions.written = .ok ()
  answered : found conditions.readings =
    some (answer (session.context ++ [session.line codec turn]))

/-- What a turn comes to. -/
structure Turned (codec : LineCodec) (answer : List String → String) (key : String)
    (spec : SessionSpec) (session : Session) (turn : SessionTurn) (conditions : Conditions)
    (outcome : TurnOutcome) (after : WeightcSessionActor) : Prop where
  stands : Stands key spec after (session.next codec (.turn turn conditions outcome))
  settled : outcome = settled codec answer key spec session turn conditions ∨
    outcome.alive = false ∧ ∃ error, outcome.result = .error error
  favourable : Favourable codec answer session turn conditions →
    outcome = Weightc.settled codec answer key spec session turn conditions

theorem pending_system (turn : SessionTurn) (h : actor.systemPending = session.system) :
    (actor.pending turn).systemPending = session.system.or turn.system := by
  unfold pending
  cases hsystem : session.system with
  | none => simp [h, hsystem]
  | some system => simp [h, hsystem]

theorem pending_same (actor : WeightcSessionActor) (turn : SessionTurn) :
    (actor.pending turn).key = actor.key ∧ (actor.pending turn).spec = actor.spec ∧
      (actor.pending turn).child = actor.child ∧
      (actor.pending turn).greeted = actor.greeted := by
  unfold pending
  split <;> exact ⟨rfl, rfl, rfl, rfl⟩

/-- An actor in the course of a turn, whatever its child. -/
structure Asking (key : String) (spec : SessionSpec) (session : Session) (turn : SessionTurn)
    (asking : WeightcSessionActor) : Prop where
  key : asking.key = key
  spec : asking.spec = spec
  answered : asking.greeted = session.answered
  system : asking.systemPending = session.system.or turn.system

theorem Stands.asking (h : Stands key spec actor session) (turn : SessionTurn) :
    Asking key spec session turn (actor.pending turn) := by
  obtain ⟨hkey, hspec, -, hgreeted⟩ := pending_same actor turn
  exact ⟨hkey.trans h.key, hspec.trans h.spec, hgreeted.trans h.answered,
    pending_system turn h.system⟩

/-- The child of a turn is given the lines of the session, be it the one that is there or a new
one. -/
theorem Stands.ready (h : Stands key spec actor session) (turn : SessionTurn)
    (conditions : Conditions) :
    (∃ error, (actor.pending turn).ensureChild conditions = .error (.broken error) ∧
      conditions.spawned ≠ .ok ()) ∨
    ∃ ready, (actor.pending turn).ensureChild conditions = .ok ready ∧
      Asking key spec session turn ready ∧
      ready.child = some { given := session.context, heard := session.context.length } := by
  obtain ⟨-, -, hsame, -⟩ := pending_same actor turn
  have hasking := h.asking turn
  rcases h.child with ⟨hnone, hcontext⟩ | hchild
  · cases hspawned : conditions.spawned with
    | error error => exact .inl ⟨_, by rw [ensureChild, hsame, hnone, hspawned], nofun⟩
    | ok _ =>
      refine .inr ⟨{ actor.pending turn with child := some {} }, ?_, ?_, ?_⟩
      · rw [ensureChild, hsame, hnone, hspawned]
      · exact ⟨hasking.key, hasking.spec, hasking.answered, hasking.system⟩
      · rw [hcontext]
        rfl
  · exact .inr ⟨_, by rw [ensureChild, hsame, hchild], hasking, hsame.trans hchild⟩

section Asking
variable {ready asked : WeightcSessionActor}

theorem Asking.requestLine (h : Asking key spec session turn ready) :
    ready.requestLine codec turn.prompt = session.line codec turn := by
  rw [WeightcSessionActor.requestLine, Session.line, ← h.answered, ← h.system]

/-- A turn that breaks the session leaves no child. -/
theorem Asking.broken {error : LiveError} (h : Asking key spec session turn ready)
    (hturn : (actor.pending turn).turn codec conditions turn.prompt =
      (.error (.broken error), ready))
    (hhandled : actor.handle codec conditions turn = (outcome, after))
    (hunfavourable : ¬Favourable codec answer session turn conditions) :
    Turned codec answer key spec session turn conditions outcome after := by
  have hbroken : actor.handle codec conditions turn =
      ({ result := .error error, alive := false }, ready.teardown) := by
    rw [handle, hturn]
    rfl
  obtain ⟨rfl, rfl⟩ := Prod.mk.inj (hbroken.symm.trans hhandled)
  have hanswered : ready.teardown.greeted = (session.answered || false) :=
    h.answered.trans (Bool.or_false _).symm
  exact {
    stands := ⟨h.key, h.spec, hanswered, h.system, .inl ⟨rfl, rfl⟩⟩
    settled := .inr ⟨rfl, error, rfl⟩
    favourable := fun hfair => absurd hfair hunfavourable }

/-- What a receipt makes of the actor. -/
def receipted (asked : WeightcSessionActor) : Except TurnFailure Completion → WeightcSessionActor
  | .ok _ => { asked with greeted := true }
  | .error failure => if failure.alive then asked else asked.teardown

/-- A receipt leaves a session that it does not break where its line was read. -/
theorem Asking.receipted (h : Asking key spec session turn asked)
    (hchild : asked.child = some
      { given := session.context ++ [session.line codec turn]
        heard := (session.context ++ [session.line codec turn]).length })
    (receipt : Except TurnFailure Completion) :
    Stands key spec (receipted asked receipt)
      (session.next codec (.turn turn conditions (.of receipt))) := by
  cases receipt with
  | ok completion => exact ⟨h.key, h.spec, (Bool.or_true _).symm, h.system, .inr hchild⟩
  | error failure =>
    have hanswered : asked.greeted = (session.answered || false) :=
      h.answered.trans (Bool.or_false _).symm
    cases halive : failure.alive with
    | true =>
      rw [Weightc.receipted, if_pos halive]
      refine ⟨h.key, h.spec, hanswered, h.system, .inr ?_⟩
      simpa [Session.next, TurnOutcome.of, halive] using hchild
    | false =>
      rw [Weightc.receipted, if_neg (by simp [halive])]
      refine ⟨h.key, h.spec, hanswered, h.system, .inl ⟨rfl, ?_⟩⟩
      simp [Session.next, TurnOutcome.of, halive]

/-- A turn that reads the answer to its line comes to what the answer says. -/
theorem Asking.settled (h : Asking key spec session turn asked)
    (hchild : asked.child = some
      { given := session.context ++ [session.line codec turn]
        heard := (session.context ++ [session.line codec turn]).length })
    (hturn : (actor.pending turn).turn codec conditions turn.prompt =
      asked.parseReceipt codec conditions
        (trim (answer (session.context ++ [session.line codec turn]))))
    (hhandled : actor.handle codec conditions turn = (outcome, after)) :
    Turned codec answer key spec session turn conditions outcome after := by
  set said := receipt codec key spec.model
    (trim (answer (session.context ++ [session.line codec turn]))) conditions.elapsed with hsaid
  have hsame : receipt codec asked.key asked.spec.model
      (trim (answer (session.context ++ [session.line codec turn]))) conditions.elapsed = said := by
    rw [hsaid, h.key, h.spec]
  have hreceipt : actor.handle codec conditions turn =
      (.of said, Weightc.receipted asked said) := by
    rw [handle, hturn, parseReceipt, hsame]
    cases said <;> rfl
  obtain ⟨rfl, rfl⟩ := Prod.mk.inj (hreceipt.symm.trans hhandled)
  exact ⟨h.receipted hchild said, .inl rfl, fun _ => rfl⟩

end Asking

/-- The step of a turn. -/
theorem Stands.turned (h : Stands key spec actor session)
    (hdelivers : Delivers codec answer actor turn conditions)
    (hhandled : actor.handle codec conditions turn = (outcome, after)) :
    Turned codec answer key spec session turn conditions outcome after := by
  rcases h.ready turn conditions with
    ⟨error, hensure, hspawned⟩ | ⟨ready, hensure, hready, hchild⟩
  · have hturn : (actor.pending turn).turn codec conditions turn.prompt =
        (.error (.broken error), actor.pending turn) := by
      rw [WeightcSessionActor.turn, hensure]
    exact (h.asking turn).broken hturn hhandled fun hfair => hspawned hfair.spawned
  cases hwritten : conditions.written with
  | error error =>
    have hturn : (actor.pending turn).turn codec conditions turn.prompt = (.error (.broken
        (.transport s!"weightc session {ready.key} is gone (context lost): {error}")), ready) := by
      simp only [WeightcSessionActor.turn, hensure, writeLine, hwritten]
    exact hready.broken hturn hhandled fun hfair => nomatch hwritten ▸ hfair.written
  | ok _ =>
    set asked := ready.told (session.line codec turn) with hasked
    have hwrote : ready.writeLine conditions (ready.requestLine codec turn.prompt) = .ok asked := by
      rw [writeLine, hwritten, hready.requestLine]
    have hreads : (actor.pending turn).turn codec conditions turn.prompt =
        readReceipt codec conditions conditions.readings asked := by
      simp only [WeightcSessionActor.turn, hensure, hwrote]
    have hgiven : asked.child = some { given := session.context ++ [session.line codec turn]
                                       heard := session.context.length } := by
      rw [hasked, told, hchild]
      rfl
    have howed : conditions.readings.filterMap Reading.text <+:
        [answer (session.context ++ [session.line codec turn])] :=
      owed_told session.context (session.line codec turn) ▸
        hdelivers ready asked hensure hwrote _ hgiven
    cases hfound : found conditions.readings with
    | none =>
      obtain ⟨error, hbroken⟩ : ∃ error, readReceipt codec conditions conditions.readings asked =
          (.error (.broken error), asked) := readReceipt_broken hfound
      have hasking : Asking key spec session turn asked :=
        ⟨hready.key, hready.spec, hready.answered, hready.system⟩
      exact hasking.broken (hreads.trans hbroken) hhandled fun hfair =>
        nomatch hfound ▸ hfair.answered
    | some text =>
      obtain rfl := found_owed howed hfound
      have hlistening : Asking key spec session turn asked.listened :=
        ⟨hready.key, hready.spec, hready.answered, hready.system⟩
      have hheard : asked.listened.child = some
          { given := session.context ++ [session.line codec turn]
            heard := (session.context ++ [session.line codec turn]).length } := by
        rw [listened, hgiven, List.length_append]
        rfl
      exact hlistening.settled hheard (hreads.trans (readReceipt_found hfound)) hhandled

theorem Stands.stop (h : Stands key spec actor session) :
    Stands key spec actor.stop (session.next codec .stop) :=
  ⟨h.key, h.spec, h.answered, h.system, .inl ⟨rfl, rfl⟩⟩

/-- An event as the events before it have it. -/
def Explained (codec : LineCodec) (answer : List String → String) (key : String)
    (spec : SessionSpec) (before : List Event) : Event → Prop
  | .stop => True
  | .turn turn conditions outcome =>
    let session := Session.after codec before
    (outcome = settled codec answer key spec session turn conditions ∨
      outcome.alive = false ∧ ∃ error, outcome.result = .error error) ∧
    (Favourable codec answer session turn conditions →
      outcome = settled codec answer key spec session turn conditions)

theorem Session.after_concat (log : List Event) (event : Event) :
    Session.after codec (log ++ [event]) = (Session.after codec log).next codec event :=
  List.foldl_concat ..

/-- What holds of the events of a log holds with one more. -/
theorem explained_concat {log : List Event} {event : Event}
    (hlog : ∀ before found, before ++ [found] <+: log →
      Explained codec answer key spec before found)
    (hevent : Explained codec answer key spec log event) (before : List Event) (found : Event)
    (h : before ++ [found] <+: log ++ [event]) : Explained codec answer key spec before found := by
  rcases List.prefix_concat_iff.mp h with heq | hprefix
  · obtain ⟨rfl, hfound⟩ := List.append_inj' heq rfl
    rwa [List.cons.inj hfound |>.1]
  · exact hlog before found hprefix

/-- Whatever the messages of a session and whatever becomes of its children, the child is given
the lines since the session last broke or stopped, and each turn comes to what the child answers
to those lines and its own, or it breaks the session; it never comes to an answer to another line.
Where a child is there or can be spawned, takes the line and answers in time, it does come to it. -/
theorem session_answers {log : List Event} (run : Runs codec answer key spec log actor) :
    Stands key spec actor (Session.after codec log) ∧
    ∀ before event, before ++ [event] <+: log →
      Explained codec answer key spec before event := by
  induction run with
  | start =>
    exact ⟨⟨rfl, rfl, rfl, rfl, .inl ⟨rfl, rfl⟩⟩, fun before event h => by simp at h⟩
  | turn _ turn conditions delivers handled ih =>
    have hturned := ih.1.turned delivers handled
    refine ⟨?_, explained_concat ih.2 ⟨hturned.settled, hturned.favourable⟩⟩
    rw [Session.after_concat]
    exact hturned.stands
  | stop _ ih =>
    refine ⟨?_, explained_concat ih.2 trivial⟩
    rw [Session.after_concat]
    exact ih.1.stop

/-- A child that answers with the number of lines it was given. -/
def sampleCodec : LineCodec where
  toLine := fun prompt system => prompt ++ system.getD ""
  fromLine := fun line => .ok { response := some line }

def sampleAnswer (given : List String) : String := toString given.length

def sampleConditions : Conditions := { readings := [.line " ", .line "1"] }

def sampleTurn : SessionTurn := { prompt := "hello", system := some "short" }

def sampleSpec : SessionSpec := { binary := "weightc", timeout := 60, model := "m" }

def sampleHandled : TurnOutcome × WeightcSessionActor :=
  (WeightcSessionActor.new "key" sampleSpec).handle sampleCodec sampleConditions sampleTurn

theorem sample_runs : Runs sampleCodec sampleAnswer "key" sampleSpec
    [.turn sampleTurn sampleConditions sampleHandled.1, .stop] sampleHandled.2.stop := by
  have hdelivers : Delivers sampleCodec sampleAnswer (.new "key" sampleSpec) sampleTurn
      sampleConditions := by
    intro ready asked hready hasked child hchild
    obtain rfl := Except.ok.inj hready
    obtain rfl := Except.ok.inj hasked
    obtain rfl := Option.some.inj hchild
    decide
  have hturn : Runs sampleCodec sampleAnswer "key" sampleSpec
      ([] ++ [Event.turn sampleTurn sampleConditions sampleHandled.1]) sampleHandled.2 :=
    .turn .start sampleTurn sampleConditions hdelivers rfl
  exact .stop hturn

theorem session_answers_sample :
    Stands "key" sampleSpec sampleHandled.2.stop (Session.after sampleCodec
      [.turn sampleTurn sampleConditions sampleHandled.1, .stop]) ∧
    ∀ before event, before ++ [event] <+:
        [.turn sampleTurn sampleConditions sampleHandled.1, .stop] →
      Explained sampleCodec sampleAnswer "key" sampleSpec before event :=
  session_answers sample_runs

end Turns
end HologramLive.Weightc
