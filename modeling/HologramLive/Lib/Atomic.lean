import HologramLive.Lib.Interleaving
import HologramLive.Lib.Program
import Mathlib.Data.List.Nodup

/-! Objects whose methods run side by side on a shared state, step by step, some of them
under the object's lock. Each method takes effect at one of its steps; the order of the
effects is a sequential run of the methods. -/

namespace HologramLive.Lib.Atomic
open Interleaving

/-- A shared object: how its methods are programmed over the calls that its state serves,
and what each may come to when it is carried out at once. -/
structure Object (Call : Type → Type) (ε ι α σ κ ν : Type) where
  serve : ∀ {β : Type}, Call β → ν → σ → β × σ
  locks : ι → Bool
  body : ι → Program Call ε α
  allows : ι → κ → Except ε α → κ → Prop
  /-- Whether a call is the step by which a method takes effect. -/
  commits : ι → ∀ {β : Type}, Call β → σ → Bool
  /-- What a method comes to by that step. -/
  apply : ι → ν → κ → Except ε α × κ
  /-- Whether a method counts from a call on on what the call found. -/
  marks : ι → ∀ {β : Type}, Call β → Bool

inductive Stage (Call : Type → Type) (ε α : Type) where
  | waiting
  | running (program : Program Call ε α)
  | ended (result : Except ε α)

inductive Phase where
  | ahead
  | counting
  | settled

/-- A method on its way, with what it was answered when it took effect and in what, and
the calls that had ended when it began. -/
structure Task (Call : Type → Type) (ε ι α κ : Type) where
  method : ι
  stage : Stage Call ε α
  counting : Bool := false
  effect : Option (Except ε α × κ) := none
  earlier : List Nat

def unsettled (counting : Bool) : Phase := if counting then .counting else .ahead

def Task.phase (task : Task Call ε ι α κ) : Phase :=
  match task.effect with
  | some _ => .settled
  | none => unsettled task.counting

/-- One effect: whose, by which method, with which answer. -/
structure Entry (ε ι α : Type) where
  task : Nat
  method : ι
  answer : Except ε α

/-- The shared state and the calls under way. No step depends on `done` and `log`, which
say what the effects so far come to. -/
structure System (Call : Type → Type) (ε ι α σ κ : Type) where
  state : σ
  holder : Option Nat := none
  tasks : List (Task Call ε ι α κ) := []
  done : κ
  log : List (Entry ε ι α) := []

inductive Action (ι ν : Type) where
  | start (method : ι)
  | move (task : Nat) (verdict : ν)

section Steps
variable {Call : Type → Type} {ε ι α σ κ ν : Type} (object : Object Call ε ι α σ κ ν)
  (system : System Call ε ι α σ κ)

namespace System

def endedTasks : List Nat :=
  system.tasks.zipIdx.filterMap fun (task, place) => match task.stage with
    | .ended _ => some place
    | _ => none

def put (place : Nat) (task : Task Call ε ι α κ) : System Call ε ι α σ κ :=
  { system with tasks := system.tasks.set place task }

/-- Let a task take effect, unless it already did. -/
def settle (place : Nat) (task : Task Call ε ι α κ) (answer : Except ε α) (done : κ) :
    System Call ε ι α σ κ :=
  match task.effect with
  | some _ => system.put place task
  | none =>
    { system.put place { task with effect := some (answer, system.done) } with
      done
      log := system.log ++ [⟨place, task.method, answer⟩] }

/-- The method that runs under the lock, and how far it is. -/
def holding : Option (ι × Phase) :=
  system.holder.bind fun place => (system.tasks[place]?).map fun task => (task.method, task.phase)

def start (method : ι) : System Call ε ι α σ κ :=
  { system with
    tasks := system.tasks ++
      [{ method
         stage := if object.locks method then .waiting else .running (object.body method)
         earlier := system.endedTasks }] }

def finish (place : Nat) (task : Task Call ε ι α κ) (result : Except ε α) :
    System Call ε ι α σ κ :=
  { system.settle place { task with stage := .ended result } result system.done with
    holder := if object.locks task.method then none else system.holder }

def move (place : Nat) (verdict : ν) (task : Task Call ε ι α κ) :
    Option (System Call ε ι α σ κ) :=
  match task.stage with
  | .waiting =>
    if system.holder.isNone then
      some { system.put place { task with stage := .running (object.body task.method) } with
        holder := some place }
    else none
  | .running (.call operation next) =>
    let (reply, state) := object.serve operation verdict system.state
    let moved := { task with
      stage := .running (next reply)
      counting := task.counting || object.marks task.method operation }
    let (answer, done) := object.apply task.method verdict system.done
    let after := if object.commits task.method operation system.state then
      system.settle place moved answer done
    else system.put place moved
    some { after with state }
  | .running (.done value) => some (system.finish object place task (.ok value))
  | .running (.fail error) => some (system.finish object place task (.error error))
  | .ended _ => none

end System

def step : Action ι ν → Option (System Call ε ι α σ κ)
  | .start method => some (system.start object method)
  | .move place verdict => do
    let task ← system.tasks[place]?
    system.move object place verdict task

variable {system} in
theorem System.settle_some {task : Task Call ε ι α κ} (h : task.effect = some effect)
    (answer : Except ε α) (done : κ) : system.settle place task answer done = system.put place task := by
  simp [System.settle, h]

/-- The effects as those of methods carried out one after another. -/
def Sequential : List (Entry ε ι α) → κ → κ → Prop
  | [], known, last => last = known
  | entry :: rest, known, last => ∃ after, object.allows entry.method known entry.answer after ∧
      Sequential rest after last

variable {object} in
theorem Sequential.snoc {order : List (Entry ε ι α)} {known last after : κ}
    (h : Sequential object order known last) {entry : Entry ε ι α}
    (hallows : object.allows entry.method last entry.answer after) :
    Sequential object (order ++ [entry]) known after := by
  induction order generalizing known with
  | nil =>
    obtain rfl := h
    exact ⟨after, hallows, rfl⟩
  | cons first rest ih =>
    obtain ⟨next, hfirst, hrest⟩ := h
    exact ⟨next, hfirst, ih hrest⟩

variable {object} in
theorem Sequential.append {before after : List (Entry ε ι α)} {first last : κ}
    (h : Sequential object (before ++ after) first last) :
    ∃ middle, Sequential object before first middle ∧ Sequential object after middle last := by
  induction before generalizing first with
  | nil => exact ⟨first, rfl, h⟩
  | cons entry rest ih =>
    obtain ⟨next, hallows, hrest⟩ := h
    obtain ⟨middle, hbefore, hafter⟩ := ih hrest
    exact ⟨middle, ⟨next, hallows, hbefore⟩, hafter⟩

/-- The calls come to what they come to one after another, in an order that has every
call that ended behind all that had ended when it began. -/
structure Linearized (first last : κ) (system : System Call ε ι α σ κ)
    (order : List (Entry ε ι α)) : Prop where
  sequential : Sequential object order first last
  distinct : (order.map Entry.task).Nodup
  known : ∀ entry ∈ order, ∃ task, system.tasks[entry.task]? = some task ∧
    task.method = entry.method
  complete : ∀ place task result, system.tasks[place]? = some task →
    task.stage = .ended result → ⟨place, task.method, result⟩ ∈ order
  realTime : ∀ place task, system.tasks[place]? = some task → place ∈ order.map Entry.task →
    ∀ earlier ∈ task.earlier, [earlier, place].Sublist (order.map Entry.task)

/-- What the log says of the calls. -/
structure Logged (first : κ) (tasks : List (Task Call ε ι α κ)) (done : κ)
    (log : List (Entry ε ι α)) : Prop where
  sequential : Sequential object log first done
  distinct : (log.map Entry.task).Nodup
  known : ∀ entry ∈ log, ∃ task seen, tasks[entry.task]? = some task ∧
    task.method = entry.method ∧ task.effect = some (entry.answer, seen)
  effects : ∀ (place : Nat) (task : Task Call ε ι α κ) answer seen, tasks[place]? = some task →
    task.effect = some (answer, seen) → ⟨place, task.method, answer⟩ ∈ log
  ended : ∀ (place : Nat) (task : Task Call ε ι α κ) result, tasks[place]? = some task →
    task.stage = .ended result → task.effect.isSome
  earlier : ∀ (place : Nat) (task : Task Call ε ι α κ), tasks[place]? = some task →
    ∀ other ∈ task.earlier, other ∈ log.map Entry.task ∧
      (place ∈ log.map Entry.task → [other, place].Sublist (log.map Entry.task))

variable {object} {first : κ} {tasks : List (Task Call ε ι α κ)} {done : κ}
  {log : List (Entry ε ι α)} {place : Nat} {old task : Task Call ε ι α κ}

theorem Logged.unlogged (h : Logged object first tasks done log) (hold : tasks[place]? = some old)
    (hnone : old.effect = none) : place ∉ log.map Entry.task := by
  intro hmem
  obtain ⟨entry, hentry, rfl⟩ := List.mem_map.mp hmem
  obtain ⟨found, seen, hfound, -, heffect⟩ := h.known entry hentry
  obtain rfl := Option.some.inj (hold.symm.trans hfound)
  rw [hnone] at heffect
  cases heffect

/-- Other calls that had ended are in the log. -/
theorem Logged.begin (h : Logged object first tasks done log) (method : ι)
    (stage : Stage Call ε α) (hstage : ∀ result, stage ≠ .ended result) (earlier : List Nat)
    (hearlier : ∀ other ∈ earlier, ∃ (task : Task Call ε ι α κ) (result : Except ε α),
      tasks[other]? = some task ∧ task.stage = .ended result) :
    Logged object first (tasks ++ [⟨method, stage, false, none, earlier⟩]) done log := by
  have hcases : ∀ (place : Nat) (task : Task Call ε ι α κ),
      (tasks ++ [⟨method, stage, false, none, earlier⟩])[place]? = some task →
      tasks[place]? = some task ∨ task = ⟨method, stage, false, none, earlier⟩ ∧ place = tasks.length := by
    intro place task htask
    rcases Nat.lt_trichotomy place tasks.length with hbelow | rfl | habove
    · rw [List.getElem?_append_left hbelow] at htask
      exact .inl htask
    · rw [List.getElem?_concat_length] at htask
      exact .inr ⟨(Option.some.inj htask).symm, rfl⟩
    · rw [List.getElem?_eq_none (by simpa using Nat.succ_le_of_lt habove)] at htask
      cases htask
  refine ⟨h.sequential, h.distinct, fun entry hentry => ?_, fun place task answer seen htask heffect => ?_,
    fun place task result htask hended => ?_, fun place task htask other hother => ?_⟩
  · obtain ⟨task, seen, htask, hrest⟩ := h.known entry hentry
    refine ⟨task, seen, ?_, hrest⟩
    rw [List.getElem?_append_left (List.getElem?_eq_some_iff.mp htask).1]
    exact htask
  · rcases hcases place task htask with hbefore | ⟨rfl, -⟩
    · exact h.effects place task answer seen hbefore heffect
    · cases heffect
  · rcases hcases place task htask with hbefore | ⟨rfl, -⟩
    · exact h.ended place task result hbefore hended
    · exact absurd hended (hstage result)
  · rcases hcases place task htask with hbefore | ⟨rfl, rfl⟩
    · exact h.earlier place task hbefore other hother
    · obtain ⟨ended, result, hended, hstage⟩ := hearlier other hother
      obtain ⟨⟨answer, seen⟩, heffect⟩ :=
        Option.isSome_iff_exists.mp (h.ended other ended result hended hstage)
      have hentry := h.effects other ended answer seen hended heffect
      refine ⟨List.mem_map.mpr ⟨_, hentry, rfl⟩, fun hlogged => ?_⟩
      obtain ⟨entry, hentry, hplace⟩ := List.mem_map.mp hlogged
      obtain ⟨found, _, hfound, -⟩ := h.known entry hentry
      have hbelow := (List.getElem?_eq_some_iff.mp hfound).1
      omega

theorem Logged.put (h : Logged object first tasks done log) (hold : tasks[place]? = some old)
    (hmethod : task.method = old.method) (hearlier : task.earlier = old.earlier)
    (heffect : task.effect = old.effect)
    (hended : ∀ result, task.stage = .ended result → task.effect.isSome) :
    Logged object first (tasks.set place task) done log := by
  have hplace := (List.getElem?_eq_some_iff.mp hold).1
  have hcases : ∀ other found, (tasks.set place task)[other]? = some found →
      found = task ∧ other = place ∨ tasks[other]? = some found := by
    intro other found hfound
    by_cases hsame : other = place
    · subst other
      rw [List.getElem?_set_self hplace] at hfound
      exact .inl ⟨(Option.some.inj hfound).symm, rfl⟩
    · rw [List.getElem?_set_ne (Ne.symm hsame)] at hfound
      exact .inr hfound
  refine ⟨h.sequential, h.distinct, fun entry hentry => ?_, fun other found answer seen hfound hsome => ?_,
    fun other found result hfound hstage => ?_, fun other found hfound before hbefore => ?_⟩
  · obtain ⟨found, seen, hfound, hrest⟩ := h.known entry hentry
    by_cases hsame : entry.task = place
    · rw [hsame, hold] at hfound
      obtain rfl := Option.some.inj hfound
      exact ⟨task, seen, by rw [hsame, List.getElem?_set_self hplace], hmethod.trans hrest.1,
        heffect.trans hrest.2⟩
    · exact ⟨found, seen, by rw [List.getElem?_set_ne (Ne.symm hsame), hfound], hrest⟩
  · rcases hcases other found hfound with ⟨rfl, rfl⟩ | hfound
    · rw [hmethod]
      exact h.effects _ old answer seen hold (heffect ▸ hsome)
    · exact h.effects other found answer seen hfound hsome
  · rcases hcases other found hfound with ⟨rfl, rfl⟩ | hfound
    · exact hended result hstage
    · exact h.ended other found result hfound hstage
  · rcases hcases other found hfound with ⟨rfl, rfl⟩ | hfound
    · exact h.earlier _ old hold before (hearlier ▸ hbefore)
    · exact h.earlier other found hfound before hbefore

/-- An effect is logged behind all that came before. -/
theorem Logged.settle (h : Logged object first tasks done log) (hold : tasks[place]? = some old)
    (hearlier : task.earlier = old.earlier) (hnone : old.effect = none) {answer : Except ε α}
    {after : κ} (hallows : object.allows task.method done answer after) :
    Logged object first (tasks.set place { task with effect := some (answer, done) }) after
      (log ++ [⟨place, task.method, answer⟩]) := by
  have hplace := (List.getElem?_eq_some_iff.mp hold).1
  have hfresh := h.unlogged hold hnone
  generalize hsettled : { task with effect := some (answer, done) } = settled
  have hcases : ∀ other found, (tasks.set place settled)[other]? = some found →
      found = settled ∧ other = place ∨ other ≠ place ∧ tasks[other]? = some found := by
    intro other found hfound
    by_cases hsame : other = place
    · subst other
      rw [List.getElem?_set_self hplace] at hfound
      exact .inl ⟨(Option.some.inj hfound).symm, rfl⟩
    · rw [List.getElem?_set_ne (Ne.symm hsame)] at hfound
      exact .inr ⟨hsame, hfound⟩
  refine ⟨h.sequential.snoc hallows, ?_, fun entry hentry => ?_,
    fun other found answer seen hfound hsome => ?_, fun other found result hfound hstage => ?_,
    fun other found hfound before hbefore => ?_⟩
  · rw [List.map_append, List.map_singleton]
    rw [List.nodup_append_comm]
    exact List.nodup_cons.mpr ⟨hfresh, h.distinct⟩
  · rcases List.mem_append.mp hentry with hbefore | hlast
    · obtain ⟨found, seen, hfound, hrest⟩ := h.known entry hbefore
      have hne : entry.task ≠ place := by
        rintro rfl
        exact hfresh (List.mem_map_of_mem hbefore)
      exact ⟨found, seen, by rw [List.getElem?_set_ne (Ne.symm hne), hfound], hrest⟩
    · obtain rfl := List.mem_singleton.mp hlast
      exact ⟨settled, done, List.getElem?_set_self hplace, by rw [← hsettled], by rw [← hsettled]⟩
  · rcases hcases other found hfound with ⟨rfl, rfl⟩ | ⟨-, hfound⟩
    · subst hsettled
      cases hsome
      exact List.mem_append_right _ List.mem_cons_self
    · exact List.mem_append_left _ (h.effects other found answer seen hfound hsome)
  · rcases hcases other found hfound with ⟨rfl, rfl⟩ | ⟨-, hfound⟩
    · rw [← hsettled]
      rfl
    · exact h.ended other found result hfound hstage
  · rw [List.map_append, List.map_singleton]
    rcases hcases other found hfound with ⟨rfl, rfl⟩ | ⟨hne, hfound⟩
    · subst hsettled
      obtain ⟨hlogged, -⟩ := h.earlier _ old hold before (hearlier ▸ hbefore)
      refine ⟨List.mem_append_left _ hlogged, fun _ => ?_⟩
      exact (List.singleton_sublist.mpr hlogged).append (List.Sublist.refl _)
    · obtain ⟨hlogged, hbehind⟩ := h.earlier other found hfound before hbefore
      refine ⟨List.mem_append_left _ hlogged, fun hother => ?_⟩
      rcases List.mem_append.mp hother with hother | hlast
      · exact (hbehind hother).trans (List.sublist_append_left _ _)
      · exact absurd (List.mem_singleton.mp hlast) hne

end Steps

/-- When a step of a method may be taken, and what it may find: `view` of the state always,
`rest` while nobody holds the lock, and `relies` of what others do to the state and to what
it stands for while a method holds the lock. -/
structure Discipline (Call : Type → Type) (ι σ κ ν : Type) where
  permits : ι → ∀ {β : Type}, Call β → ν → σ → κ → Option (ι × Phase) → Option κ → Prop
  view : σ → κ → Prop
  rest : σ → κ → Prop
  relies : ι → Phase → σ × κ → σ × κ → Prop

section Discipline
variable {Call : Type → Type} {ε ι α σ κ ν : Type} (object : Object Call ε ι α σ κ ν)
  (discipline : Discipline Call ι σ κ ν)

/-- The rest of a locked method that has taken effect. -/
def LockedEnds (method : ι) (answer : Except ε α) (seen : κ) : Program Call ε α → σ × κ → Prop
  | .done value, point => ∀ later, discipline.relies method .settled point later →
    answer = .ok value ∧ discipline.rest later.1 later.2
  | .fail error, point => ∀ later, discipline.relies method .settled point later →
    answer = .error error ∧ discipline.rest later.1 later.2
  | .call operation next, point => ∀ later, discipline.relies method .settled point later →
    ∀ verdict, discipline.permits method operation verdict later.1 later.2
      (some (method, .settled)) (some seen) →
    let (reply, state) := object.serve operation verdict later.1
    discipline.view state later.2 ∧ LockedEnds method answer seen (next reply) (state, later.2)

/-- The rest of a locked method that is to take effect: what it sees stays within `view`,
and its answer is that of the method carried out at once. -/
def Locked (method : ι) : Bool → Program Call ε α → σ × κ → Prop
  | counting, .done value, point => ∀ later,
    discipline.relies method (unsettled counting) point later →
    object.allows method later.2 (.ok value) later.2 ∧ discipline.rest later.1 later.2
  | counting, .fail error, point => ∀ later,
    discipline.relies method (unsettled counting) point later →
    object.allows method later.2 (.error error) later.2 ∧ discipline.rest later.1 later.2
  | counting, .call operation next, point => ∀ later,
    discipline.relies method (unsettled counting) point later → ∀ verdict,
    discipline.permits method operation verdict later.1 later.2
      (some (method, unsettled counting)) none →
    let (reply, state) := object.serve operation verdict later.1
    let (answer, known) := object.apply method verdict later.2
    if object.commits method operation later.1 then
      object.allows method later.2 answer known ∧ discipline.view state known ∧
        LockedEnds object discipline method answer later.2 (next reply) (state, known)
    else discipline.view state later.2 ∧
      Locked method (counting || object.marks method operation) (next reply) (state, later.2)

/-- What a step beside a lock may do. -/
def Discipline.Spares (holding : Option (ι × Phase)) (before after : σ × κ) : Prop :=
  discipline.view after.1 after.2 ∧
    (holding = none → discipline.rest before.1 before.2 → discipline.rest after.1 after.2) ∧
    ∀ method phase, holding = some (method, phase) → discipline.relies method phase before after

/-- The rest of a method beside the lock that has taken effect. -/
def FreeEnds (method : ι) (answer : Except ε α) (seen : κ) : Program Call ε α → Prop
  | .done value => answer = .ok value
  | .fail error => answer = .error error
  | .call operation next => ∀ verdict state known holding, discipline.view state known →
    discipline.permits method operation verdict state known holding (some seen) →
    let (reply, after) := object.serve operation verdict state
    after = state ∧ FreeEnds method answer seen (next reply)

/-- The rest of a method beside the lock that is to take effect. -/
def Free (method : ι) : Program Call ε α → Prop
  | .done value => ∀ known, object.allows method known (.ok value) known
  | .fail error => ∀ known, object.allows method known (.error error) known
  | .call operation next => ∀ verdict state known holding, discipline.view state known →
    discipline.permits method operation verdict state known holding none →
    let (reply, after) := object.serve operation verdict state
    let (answer, effect) := object.apply method verdict known
    if object.commits method operation state then
      object.allows method known answer effect ∧
        discipline.Spares holding (state, known) (after, effect) ∧
        FreeEnds object discipline method answer known (next reply)
    else after = state ∧ Free method (next reply)

/-- Methods that do what they are to do as long as every step is permitted. -/
structure Disciplined : Prop where
  refl : ∀ method phase point, discipline.relies method phase point point
  trans : ∀ method phase first second third, discipline.relies method phase first second →
    discipline.relies method phase second third → discipline.relies method phase first third
  locked : ∀ method state known, object.locks method = true → discipline.view state known →
    discipline.rest state known →
    Locked object discipline method false (object.body method) (state, known)
  free : ∀ method, object.locks method = false →
    Free object discipline method (object.body method)

variable {object discipline} {method : ι} {program : Program Call ε α} {answer : Except ε α}
  {seen : κ} {point later : σ × κ}

theorem Locked.relied {counting : Bool} (hdisciplined : Disciplined object discipline)
    (h : Locked object discipline method counting program point)
    (hrelies : discipline.relies method (unsettled counting) point later) :
    Locked object discipline method counting program later := by
  cases program with
  | done value => exact fun last hlast => h last (hdisciplined.trans _ _ _ _ _ hrelies hlast)
  | fail error => exact fun last hlast => h last (hdisciplined.trans _ _ _ _ _ hrelies hlast)
  | call operation next =>
    exact fun last hlast => h last (hdisciplined.trans _ _ _ _ _ hrelies hlast)

theorem LockedEnds.relied (hdisciplined : Disciplined object discipline)
    (h : LockedEnds object discipline method answer seen program point)
    (hrelies : discipline.relies method .settled point later) :
    LockedEnds object discipline method answer seen program later := by
  cases program with
  | done value => exact fun last hlast => h last (hdisciplined.trans _ _ _ _ _ hrelies hlast)
  | fail error => exact fun last hlast => h last (hdisciplined.trans _ _ _ _ _ hrelies hlast)
  | call operation next =>
    exact fun last hlast => h last (hdisciplined.trans _ _ _ _ _ hrelies hlast)

variable (object discipline)

/-- A step that its method's discipline permits. -/
def Permitted (system : System Call ε ι α σ κ) : Action ι ν → Prop
  | .start _ => True
  | .move place verdict => ∀ task, system.tasks[place]? = some task →
    match task.stage with
    | .running (.call operation _) => discipline.permits task.method operation verdict system.state
        system.done system.holding (task.effect.map Prod.snd)
    | _ => True

/-- Where a call stands. -/
def Standing (holder : Option Nat) (point : σ × κ) (place : Nat) (task : Task Call ε ι α κ) : Prop :=
  match task.stage with
  | .waiting => object.locks task.method = true ∧ task.counting = false ∧ task.effect = none ∧
    holder ≠ some place
  | .running program =>
    if object.locks task.method then
      holder = some place ∧ match task.effect with
        | none => Locked object discipline task.method task.counting program point
        | some (answer, seen) =>
          LockedEnds object discipline task.method answer seen program point
    else
      holder ≠ some place ∧ match task.effect with
        | none => Free object discipline task.method program
        | some (answer, seen) => FreeEnds object discipline task.method answer seen program
  | .ended result => holder ≠ some place ∧ ∃ seen, task.effect = some (result, seen)

structure Steady (first : κ) (system : System Call ε ι α σ κ) : Prop where
  held : ∀ place, system.holder = some place → place < system.tasks.length
  view : discipline.view system.state system.done
  rest : system.holder = none → discipline.rest system.state system.done
  standing : ∀ (place : Nat) (task : Task Call ε ι α κ), system.tasks[place]? = some task →
    Standing object discipline system.holder (system.state, system.done) place task
  logged : Logged object first system.tasks system.done system.log

variable {object discipline} {first : κ} {system next : System Call ε ι α σ κ} {place : Nat}
  {old task : Task Call ε ι α κ} {holder after : Option Nat}

/-- Everyone else stands where they stood. -/
theorem Standing.other (hdisciplined : Disciplined object discipline)
    (h : Standing object discipline holder point place task)
    (hholder : after = some place ↔ holder = some place)
    (hrelies : holder = some place → discipline.relies task.method task.phase point later) :
    Standing object discipline after later place task := by
  unfold Standing at h ⊢
  split at h
  · exact ⟨h.1, h.2.1, h.2.2.1, fun hheld => h.2.2.2 (hholder.mp hheld)⟩
  · by_cases hlocks : object.locks task.method = true
    · rw [if_pos hlocks] at h ⊢
      obtain ⟨hheld, hruns⟩ := h
      refine ⟨hholder.mpr hheld, ?_⟩
      have hlater := hrelies hheld
      unfold Task.phase at hlater
      cases heffect : task.effect with
      | none =>
        simp only [heffect] at hruns hlater
        exact hruns.relied hdisciplined hlater
      | some effect =>
        simp only [heffect] at hruns hlater
        exact hruns.relied hdisciplined hlater
    · rw [if_neg hlocks] at h ⊢
      exact ⟨fun hheld => h.1 (hholder.mp hheld), h.2⟩
  · exact ⟨fun hheld => h.1 (hholder.mp hheld), h.2⟩

/-- After a step of one call: that call, and all others as before. -/
theorem standing_set {tasks : List (Task Call ε ι α κ)} (hold : tasks[place]? = some old)
    (hself : Standing object discipline after later place task)
    (hothers : ∀ (other : Nat) (found : Task Call ε ι α κ), other ≠ place →
      tasks[other]? = some found → Standing object discipline after later other found)
    (other : Nat) (found : Task Call ε ι α κ) (hfound : (tasks.set place task)[other]? = some found) :
    Standing object discipline after later other found := by
  by_cases hsame : other = place
  · subst other
    rw [List.getElem?_set_self (List.getElem?_eq_some_iff.mp hold).1] at hfound
    obtain rfl := Option.some.inj hfound
    exact hself
  · rw [List.getElem?_set_ne (Ne.symm hsame)] at hfound
    exact hothers other found hsame hfound

theorem mem_endedTasks : place ∈ system.endedTasks ↔ ∃ (task : Task Call ε ι α κ) (result : Except ε α),
    system.tasks[place]? = some task ∧ task.stage = .ended result := by
  unfold System.endedTasks
  rw [List.mem_filterMap]
  constructor
  · rintro ⟨⟨task, found⟩, hmem, hended⟩
    have htask := List.mk_mem_zipIdx_iff_getElem?.mp hmem
    dsimp only at hended
    split at hended
    · obtain rfl := Option.some.inj hended
      exact ⟨task, _, htask, ‹_›⟩
    · cases hended
  · rintro ⟨task, result, htask, hstage⟩
    refine ⟨(task, place), List.mk_mem_zipIdx_iff_getElem?.mpr htask, ?_⟩
    simp [hstage]

theorem Steady.start (h : Steady object discipline first system) (hdisciplined : Disciplined object discipline)
    (method : ι) : Steady object discipline first (system.start object method) := by
  have hfresh : system.holder ≠ some system.tasks.length := fun hheld =>
    absurd (h.held _ hheld) (Nat.lt_irrefl _)
  refine ⟨fun place hheld => ?_, h.view, h.rest, fun place task htask => ?_, ?_⟩
  · have hbelow := h.held place hheld
    simp only [System.start, List.length_append]
    omega
  · rcases Nat.lt_trichotomy place system.tasks.length with hbelow | rfl | habove
    · simp only [System.start, List.getElem?_append_left hbelow] at htask
      exact h.standing place task htask
    · simp only [System.start, List.getElem?_concat_length] at htask
      obtain rfl := Option.some.inj htask
      cases hlocks : object.locks method with
      | true => exact ⟨hlocks, rfl, rfl, hfresh⟩
      | false =>
        simp only [Standing, hlocks, Bool.false_eq_true, ↓reduceIte]
        exact ⟨hfresh, hdisciplined.free method hlocks⟩
    · rw [System.start, List.getElem?_eq_none (by simpa using Nat.succ_le_of_lt habove)] at htask
      cases htask
  · apply h.logged.begin
    · intro result
      split <;> simp
    · exact fun other hother => mem_endedTasks.mp hother

section Move
variable (hdisciplined : Disciplined object discipline) (h : Steady object discipline first system)
  (hold : system.tasks[place]? = some old)
include hdisciplined h hold

theorem Steady.acquire (hwaiting : old.stage = .waiting) (hfree : system.holder = none) :
    Steady object discipline first
      { system.put place { old with stage := .running (object.body old.method) } with
        holder := some place } := by
  have hstanding := h.standing place old hold
  unfold Standing at hstanding
  rw [hwaiting] at hstanding
  obtain ⟨hlocks, hahead, hnone, -⟩ := hstanding
  have hplace := (List.getElem?_eq_some_iff.mp hold).1
  refine ⟨fun held hheld => ?_, h.view, nofun, standing_set hold ?_ fun other found hne hfound => ?_, ?_⟩
  · obtain rfl := Option.some.inj hheld
    simpa [System.put] using hplace
  · simp only [Standing, hlocks, ↓reduceIte, hnone, hahead, true_and]
    exact hdisciplined.locked old.method _ _ hlocks h.view (h.rest hfree)
  · refine (h.standing other found hfound).other hdisciplined ?_ fun hheld => ?_
    · simp [hfree, Ne.symm hne]
    · rw [hfree] at hheld
      cases hheld
  · exact h.logged.put hold rfl rfl rfl nofun

/-- The state after a step that is no effect. -/
theorem Steady.moved {stage : Stage Call ε α} {counting : Bool} {state : σ}
    (hview : discipline.view state system.done) (hheld : system.holder = some place ∨ state = system.state)
    (hself : Standing object discipline system.holder (state, system.done) place
      { old with stage, counting })
    (hended : ∀ result, stage = .ended result → old.effect.isSome) :
    Steady object discipline first { system.put place { old with stage, counting } with state } := by
  refine ⟨fun held hheld => ?_, hview, fun hfree => ?_,
    standing_set hold hself fun other found hne hfound => ?_, h.logged.put hold rfl rfl rfl hended⟩
  · have hbelow := h.held held hheld
    simpa [System.put] using hbelow
  · rcases hheld with hheld | rfl
    · rw [show system.holder = none from hfree] at hheld
      cases hheld
    · exact h.rest hfree
  · refine (h.standing other found hfound).other hdisciplined Iff.rfl fun hother => ?_
    rcases hheld with hheld | rfl
    · exact absurd (Option.some.inj (hother.symm.trans hheld)) hne
    · exact hdisciplined.refl _ _ _

/-- The state after a step by which a call takes effect. -/
theorem Steady.settled {stage : Stage Call ε α} {counting : Bool} {state : σ} {known : κ}
    (hnone : old.effect = none) (hallows : object.allows old.method system.done answer known)
    (hview : discipline.view state known)
    (hspares : system.holder = some place ∨
      discipline.Spares system.holding (system.state, system.done) (state, known))
    (hself : Standing object discipline system.holder (state, known) place
      { old with stage, counting, effect := some (answer, system.done) }) :
    Steady object discipline first
      { system.settle place { old with stage, counting } answer known with state } := by
  unfold System.settle
  simp only [hnone]
  refine ⟨fun held hheld => ?_, hview, fun hfree => ?_,
    standing_set hold hself fun other found hne hfound => ?_, ?_⟩
  · have hbelow := h.held held hheld
    simpa [System.put] using hbelow
  · have hholder : system.holder = none := hfree
    rcases hspares with hheld | ⟨-, hrest, -⟩
    · rw [hholder] at hheld
      cases hheld
    · refine hrest ?_ (h.rest hholder)
      rw [System.holding, hholder]
      rfl
  · refine (h.standing other found hfound).other hdisciplined Iff.rfl fun hother => ?_
    rcases hspares with hheld | ⟨-, -, hrelies⟩
    · exact absurd (Option.some.inj (hother.symm.trans hheld)) hne
    · apply hrelies
      have hother' : system.holder = some other := hother
      rw [System.holding, hother', Option.bind_some, hfound]
      rfl
  · exact @Logged.settle _ _ _ _ _ _ _ object first _ _ _ place old { old with stage, counting } h.logged
      hold rfl hnone _ _ hallows

theorem Steady.call {operation : Call β} {rest : β → Program Call ε α} {verdict : ν}
    (hstage : old.stage = .running (.call operation rest))
    (hpermits : discipline.permits old.method operation verdict system.state system.done
      system.holding (old.effect.map Prod.snd))
    (hmove : system.move object place verdict old = some next) :
    Steady object discipline first next := by
  have hstanding := h.standing place old hold
  unfold Standing at hstanding
  simp only [hstage] at hstanding
  simp only [System.move, hstage] at hmove
  obtain rfl := Option.some.inj hmove
  by_cases hlocks : object.locks old.method = true
  · rw [if_pos hlocks] at hstanding
    obtain ⟨hheld, hruns⟩ := hstanding
    have hholding : system.holding = some (old.method, old.phase) := by
      rw [System.holding, hheld, Option.bind_some, hold]
      rfl
    rw [hholding] at hpermits
    obtain heffect | ⟨⟨answer, seen⟩, heffect⟩ := Option.eq_none_or_eq_some old.effect
    · simp only [heffect] at hruns
      simp only [Task.phase, heffect] at hpermits
      have hstep := hruns _ (hdisciplined.refl _ _ _) verdict hpermits
      dsimp only at hstep
      split at hstep
      · rw [if_pos ‹_›]
        refine h.settled hdisciplined hold heffect hstep.1 hstep.2.1 (.inl hheld) ?_
        simp only [Standing, hlocks, ↓reduceIte]
        exact ⟨hheld, hstep.2.2⟩
      · rw [if_neg ‹_›]
        refine h.moved hdisciplined hold hstep.1 (.inl hheld) ?_ (fun _ hended => nomatch hended)
        simp only [Standing, hlocks, ↓reduceIte, heffect]
        exact ⟨hheld, hstep.2⟩
    · simp only [heffect] at hruns
      simp only [Task.phase, heffect] at hpermits
      have hstep := hruns _ (hdisciplined.refl _ _ _) verdict hpermits
      have hsettled : ∀ stage counting answer known,
          system.settle place { old with stage, counting } answer known =
            system.put place { old with stage, counting } := fun _ _ _ _ =>
        System.settle_some (by exact heffect) _ _
      rw [hsettled, ite_self]
      refine h.moved hdisciplined hold hstep.1 (.inl hheld) ?_ (fun _ hended => nomatch hended)
      simp only [Standing, hlocks, ↓reduceIte, heffect]
      exact ⟨hheld, hstep.2⟩
  · rw [if_neg hlocks] at hstanding
    obtain ⟨hheld, hruns⟩ := hstanding
    obtain heffect | ⟨⟨answer, seen⟩, heffect⟩ := Option.eq_none_or_eq_some old.effect
    · simp only [heffect] at hruns
      rw [heffect] at hpermits
      have hstep := hruns verdict _ _ _ h.view hpermits
      dsimp only at hstep
      split at hstep
      · rw [if_pos ‹_›]
        refine h.settled hdisciplined hold heffect hstep.1 hstep.2.1.1 (.inr hstep.2.1) ?_
        simp only [Standing, hlocks, Bool.false_eq_true, ↓reduceIte]
        exact ⟨hheld, hstep.2.2⟩
      · rw [if_neg ‹_›]
        refine h.moved hdisciplined hold ?_ (.inr hstep.1) ?_ (fun _ hended => nomatch hended)
        · rw [hstep.1]
          exact h.view
        · simp only [Standing, hlocks, Bool.false_eq_true, ↓reduceIte, heffect]
          exact ⟨hheld, hstep.2⟩
    · simp only [heffect] at hruns
      rw [heffect] at hpermits
      have hstep := hruns verdict _ _ _ h.view hpermits
      have hsettled : ∀ stage counting answer known,
          system.settle place { old with stage, counting } answer known =
            system.put place { old with stage, counting } := fun _ _ _ _ =>
        System.settle_some (by exact heffect) _ _
      rw [hsettled, ite_self]
      refine h.moved hdisciplined hold ?_ (.inr hstep.1) ?_ (fun _ hended => nomatch hended)
      · rw [hstep.1]
        exact h.view
      · simp only [Standing, hlocks, Bool.false_eq_true, ↓reduceIte, heffect]
        exact ⟨hheld, hstep.2⟩

/-- What has come to its end answers as the method carried out at once. -/
theorem Standing.outcome {program : Program Call ε α} {result : Except ε α}
    (hstage : old.stage = .running program) (hresult : program.outcome = some result) :
    (old.effect = none ∧ object.allows old.method system.done result system.done ∨
      ∃ seen, old.effect = some (result, seen)) ∧
    (object.locks old.method = true → system.holder = some place ∧
      discipline.rest system.state system.done) ∧
    (object.locks old.method ≠ true → system.holder ≠ some place) := by
  have hstanding := h.standing place old hold
  unfold Standing at hstanding
  simp only [hstage] at hstanding
  have hrefl := fun phase => hdisciplined.refl old.method phase (system.state, system.done)
  by_cases hlocks : object.locks old.method = true
  · rw [if_pos hlocks] at hstanding
    obtain ⟨hheld, hruns⟩ := hstanding
    refine (and_congr_right fun _ => and_iff_left fun hfree => absurd hlocks hfree).mpr ?_
    cases heffect : old.effect with
    | none =>
      simp only [heffect] at hruns
      cases program with
      | done value =>
        obtain rfl := Option.some.inj hresult
        exact ⟨.inl ⟨rfl, (hruns _ (hrefl _)).1⟩, fun _ => ⟨hheld, (hruns _ (hrefl _)).2⟩⟩
      | fail error =>
        obtain rfl := Option.some.inj hresult
        exact ⟨.inl ⟨rfl, (hruns _ (hrefl _)).1⟩, fun _ => ⟨hheld, (hruns _ (hrefl _)).2⟩⟩
      | call operation rest => cases hresult
    | some effect =>
      obtain ⟨answer, seen⟩ := effect
      simp only [heffect] at hruns
      cases program with
      | done value =>
        obtain rfl := Option.some.inj hresult
        obtain ⟨rfl, hrest⟩ := hruns _ (hrefl _)
        exact ⟨.inr ⟨seen, rfl⟩, fun _ => ⟨hheld, hrest⟩⟩
      | fail error =>
        obtain rfl := Option.some.inj hresult
        obtain ⟨rfl, hrest⟩ := hruns _ (hrefl _)
        exact ⟨.inr ⟨seen, rfl⟩, fun _ => ⟨hheld, hrest⟩⟩
      | call operation rest => cases hresult
  · rw [if_neg hlocks] at hstanding
    obtain ⟨hheld, hruns⟩ := hstanding
    refine ⟨?_, fun hlocked => absurd hlocked hlocks, fun _ => hheld⟩
    cases heffect : old.effect with
    | none =>
      simp only [heffect] at hruns
      cases program with
      | done value =>
        obtain rfl := Option.some.inj hresult
        exact .inl ⟨rfl, hruns system.done⟩
      | fail error =>
        obtain rfl := Option.some.inj hresult
        exact .inl ⟨rfl, hruns system.done⟩
      | call operation rest => cases hresult
    | some effect =>
      obtain ⟨answer, seen⟩ := effect
      simp only [heffect] at hruns
      cases program with
      | done value =>
        obtain rfl := Option.some.inj hresult
        exact .inr ⟨seen, hruns ▸ rfl⟩
      | fail error =>
        obtain rfl := Option.some.inj hresult
        exact .inr ⟨seen, hruns ▸ rfl⟩
      | call operation rest => cases hresult

theorem Steady.finish {program : Program Call ε α} {result : Except ε α}
    (hstage : old.stage = .running program) (hresult : program.outcome = some result) :
    Steady object discipline first (system.finish object place old result) := by
  obtain ⟨heffect, hlocked, hunlocked⟩ := Standing.outcome hdisciplined h hold hstage hresult
  have hplace := (List.getElem?_eq_some_iff.mp hold).1
  -- releasing the lock leaves everyone else without it
  have hothers : ∀ (other : Nat) (found : Task Call ε ι α κ), other ≠ place →
      system.tasks[other]? = some found →
      Standing object discipline (if object.locks old.method then none else system.holder)
        (system.state, system.done) other found := by
    intro other found hne hfound
    refine (h.standing other found hfound).other hdisciplined ?_ fun _ => hdisciplined.refl _ _ _
    by_cases hlocks : object.locks old.method = true
    · rw [if_pos hlocks, (hlocked hlocks).1]
      simp [Ne.symm hne]
    · rw [if_neg hlocks]
  have hself : (if object.locks old.method then none else system.holder) ≠ some place := by
    split
    · simp
    · exact hunlocked ‹_›
  have hrest : (if object.locks old.method then none else system.holder) = none →
      discipline.rest system.state system.done := by
    split
    · exact fun _ => (hlocked ‹_›).2
    · exact h.rest
  have hheld : ∀ held, (if object.locks old.method then none else system.holder) = some held →
      held < system.tasks.length := by
    intro held
    split
    · simp
    · exact h.held held
  rcases heffect with ⟨hnone, hallows⟩ | ⟨seen, heffect⟩
  · have hlogged := @Logged.settle _ _ _ _ _ _ _ object first _ _ _ place old
      { old with stage := .ended result } h.logged hold rfl hnone _ _ hallows
    unfold System.finish System.settle
    simp only [hnone]
    refine ⟨fun held hholds => ?_, h.view, hrest, standing_set hold ?_ hothers, hlogged⟩
    · simpa [System.put] using hheld held hholds
    · exact ⟨hself, system.done, rfl⟩
  · have hsettled : system.settle place { old with stage := .ended result } result system.done =
        system.put place { old with stage := .ended result } := System.settle_some (by exact heffect) _ _
    unfold System.finish
    rw [hsettled]
    refine ⟨fun held hholds => ?_, h.view, hrest, standing_set hold ?_ hothers, ?_⟩
    · simpa [System.put] using hheld held hholds
    · exact ⟨hself, seen, heffect⟩
    · exact h.logged.put hold rfl rfl rfl fun _ _ => by rw [heffect]; rfl

end Move

theorem Steady.step (hdisciplined : Disciplined object discipline)
    (h : Steady object discipline first system) {action : Action ι ν}
    (hpermitted : Permitted discipline system action) (hstep : step object system action = some next) :
    Steady object discipline first next := by
  cases action with
  | start method =>
    obtain rfl := Option.some.inj hstep
    exact h.start hdisciplined method
  | move place verdict =>
    obtain ⟨old, hold, hmove⟩ := Option.bind_eq_some_iff.mp hstep
    have hpermits := hpermitted old hold
    cases hstage : old.stage with
    | waiting =>
      simp only [System.move, hstage] at hmove
      split at hmove
      · obtain rfl := Option.some.inj hmove
        exact h.acquire hdisciplined hold hstage (Option.isNone_iff_eq_none.mp ‹_›)
      · cases hmove
    | running program =>
      cases program with
      | done value =>
        simp only [System.move, hstage] at hmove
        obtain rfl := Option.some.inj hmove
        exact h.finish hdisciplined hold hstage rfl
      | fail error =>
        simp only [System.move, hstage] at hmove
        obtain rfl := Option.some.inj hmove
        exact h.finish hdisciplined hold hstage rfl
      | call operation rest =>
        simp only [hstage] at hpermits
        exact h.call hdisciplined hold hstage hpermits hmove
    | ended result =>
      simp only [System.move, hstage] at hmove
      cases hmove

/-- Where every call has ended, nobody holds the lock. -/
theorem Steady.released (h : Steady object discipline first system)
    (hended : ∀ task ∈ system.tasks, ∃ result, task.stage = .ended result) : system.holder = none := by
  cases hholder : system.holder with
  | none => rfl
  | some place =>
    have hbelow := h.held place hholder
    have htask : system.tasks[place]? = some system.tasks[place] := List.getElem?_eq_getElem hbelow
    obtain ⟨result, hstage⟩ := hended _ (List.mem_of_getElem? htask)
    have hstanding := h.standing place _ htask
    simp only [Standing, hstage] at hstanding
    exact absurd hholder hstanding.1

/-- Methods that keep to their discipline are linearized by the order of their effects. -/
theorem linearized (hdisciplined : Disciplined object discipline) {state : σ} {first : κ}
    (hview : discipline.view state first) (hrest : discipline.rest state first)
    (hreach : Reaches (step object) (Permitted discipline) { state, done := first } system) :
    Linearized object first system.done system system.log ∧
      ((∀ task ∈ system.tasks, ∃ result, task.stage = .ended result) →
        discipline.rest system.state system.done) := by
  have hsteady : Steady object discipline first system := by
    refine hreach.invariant ⟨nofun, hview, fun _ => hrest, nofun, ?_⟩
      fun before action after hbefore hpermitted hstep => hbefore.step hdisciplined hpermitted hstep
    exact ⟨rfl, .nil, nofun, nofun, nofun, nofun⟩
  have hlogged := hsteady.logged
  refine ⟨⟨hlogged.sequential, hlogged.distinct, fun entry hentry => ?_,
    fun place task result htask hended => ?_, fun place task htask hplace earlier hearlier => ?_⟩,
    fun hended => hsteady.rest (hsteady.released hended)⟩
  · obtain ⟨task, _, htask, hmethod, -⟩ := hlogged.known entry hentry
    exact ⟨task, htask, hmethod⟩
  · have hstanding := hsteady.standing place task htask
    simp only [Standing, hended] at hstanding
    obtain ⟨-, seen, heffect⟩ := hstanding
    exact hlogged.effects place task result seen htask heffect
  · exact (hlogged.earlier place task htask earlier hearlier).2 hplace

end Discipline

/-- Two calls that have ended come one after the other. -/
theorem Linearized.pair {Call : Type → Type} {ε ι α σ κ ν : Type} {object : Object Call ε ι α σ κ ν}
    {first last : κ} {system : System Call ε ι α σ κ} {order : List (Entry ε ι α)}
    {left right : Task Call ε ι α κ} {answer answer' : Except ε α}
    (h : Linearized object first last system order) (htasks : system.tasks = [left, right])
    (hleft : left.stage = .ended answer) (hright : right.stage = .ended answer') :
    order = [⟨0, left.method, answer⟩, ⟨1, right.method, answer'⟩] ∨
      order = [⟨1, right.method, answer'⟩, ⟨0, left.method, answer⟩] := by
  have hzero := h.complete 0 left answer (by rw [htasks]; rfl) hleft
  have hone := h.complete 1 right answer' (by rw [htasks]; rfl) hright
  have hsame : ∀ entry ∈ order, ∀ other ∈ order, entry.task = other.task → entry = other :=
    fun entry hentry other hother heq => List.inj_on_of_nodup_map h.distinct hentry hother heq
  have hperm : order.Perm [⟨0, left.method, answer⟩, ⟨1, right.method, answer'⟩] := by
    refine (List.perm_ext_iff_of_nodup (List.Nodup.of_map _ h.distinct) (by simp)).mpr fun entry =>
      ⟨fun hentry => ?_, fun hentry => ?_⟩
    · obtain ⟨task, htask, -⟩ := h.known entry hentry
      rw [htasks] at htask
      have hbelow : entry.task < 2 := (List.getElem?_eq_some_iff.mp htask).1
      rcases (show entry.task = 0 ∨ entry.task = 1 by omega) with hplace | hplace
      · rw [hsame entry hentry _ hzero hplace]
        exact List.mem_cons_self
      · rw [hsame entry hentry _ hone hplace]
        exact List.mem_cons_of_mem _ List.mem_cons_self
    · rcases List.mem_cons.mp hentry with rfl | hentry
      · exact hzero
      · obtain rfl := List.mem_singleton.mp hentry
        exact hone
  match order, hperm.length_eq with
  | [entry, other], _ =>
    rcases List.mem_cons.mp (hperm.subset List.mem_cons_self) with rfl | hentry
    · have hrest := hperm.cons_inv
      rw [List.singleton_perm_singleton.mp hrest]
      exact .inl rfl
    · obtain rfl := List.mem_singleton.mp hentry
      have hrest := (hperm.trans (.swap _ _ _)).cons_inv
      rw [List.singleton_perm_singleton.mp hrest]
      exact .inr rfl

end HologramLive.Lib.Atomic
