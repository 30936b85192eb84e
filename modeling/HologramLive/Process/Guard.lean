import HologramLive.Lib.Interleaving
import Mathlib.Logic.Function.Basic
import Mathlib.Data.String.Basic

/-! The daemons that acquire, drop or lose the ownership of one state directory. -/

namespace HologramLive.Process
open Lib.Interleaving

abbrev Inode := Nat

/-- The state directory: the files its two names refer to, and what each file contains. A
file lives on without its name for as long as somebody has it open. -/
structure Directory where
  lockName : Option Inode
  pidName : Option Inode
  contents : Inode → String

namespace Directory

def write (directory : Directory) (file : Inode) (text : String) : Directory :=
  { directory with contents := Function.update directory.contents file text }

/-- `hologram.pid` as a reader finds it. -/
def pidFile (directory : Directory) : Option String :=
  directory.pidName.map directory.contents

end Directory

/-- How far `DaemonGuard::acquire`, and later the drop of the guard, have come. -/
inductive Phase where
  | entering
  | opening
  | locking (lock : Inode)
  | claiming (lock : Inode)
  | writing (lock pid : Inode)
  | owning (lock : Inode)
  | retiring (lock : Inode)
  | parting (lock : Inode)
  | closing (lock : Inode)
  | gone
  deriving DecidableEq

namespace Phase

/-- The file whose lock is held. Only closing it, or the end of the process, releases it. -/
def locked : Phase → Option Inode
  | .claiming lock | .writing lock _ | .owning lock | .retiring lock | .parting lock |
    .closing lock => some lock
  | _ => none

/-- The lock of an owner that has not removed the lock's name yet. -/
def claimed : Phase → Option Inode
  | .claiming lock | .writing lock _ | .owning lock | .retiring lock | .parting lock => some lock
  | _ => none

def opened : Phase → List Inode
  | .locking lock | .claiming lock | .owning lock | .retiring lock | .parting lock |
    .closing lock => [lock]
  | .writing lock pid => [lock, pid]
  | _ => []

end Phase

/-- One call of `DaemonGuard::acquire` in a process. -/
structure Task where
  pid : Nat
  phase : Phase := .entering
  deriving DecidableEq

def Task.holds (task : Task) (lock : Inode) : Bool := task.phase.locked = some lock

/-- The guard has been returned and its drop has not begun. -/
def Task.live (task : Task) : Prop := ∃ lock, task.phase = .owning lock

structure Daemons where
  directory : Directory
  tasks : List Task

/-- A file that neither a name nor an open handle refers to. -/
def Daemons.unused (daemons : Daemons) (file : Inode) : Bool :=
  daemons.directory.lockName ≠ some file && daemons.directory.pidName ≠ some file &&
    daemons.tasks.all fun task => file ∉ task.phase.opened

/-- What the operating system does with a step: it grants it, choosing a file where one is
created, or refuses it, a write perhaps after some of the text. -/
inductive Verdict where
  | granted (file : Inode)
  | refused (written : Nat)

/-- The next step of a task: `unlocked` and `unused` are those of the moment. -/
def advance (unlocked unused : Inode → Bool) (pid : Nat) (verdict : Verdict)
    (directory : Directory) : Phase → Option (Directory × Phase)
  | .entering =>
    match verdict with
    | .granted _ => some (directory, .opening)
    | .refused _ => some (directory, .gone)
  | .opening =>
    match verdict, directory.lockName with
    | .refused _, _ => some (directory, .gone)
    | .granted _, some lock => some (directory, .locking lock)
    | .granted file, none =>
      if unused file then
        some ({ directory with lockName := some file }.write file "", .locking file)
      else none
  | .locking lock =>
    match verdict with
    | .granted _ =>
      -- A lock held elsewhere is a conflict: the call ends and closes the file.
      if unlocked lock then some (directory, .claiming lock) else some (directory, .gone)
    | .refused _ => some (directory, .gone)
  | .claiming lock =>
    match verdict, directory.pidName with
    | .refused _, _ => some (directory, .closing lock)
    | .granted _, some file => some (directory.write file "", .writing lock file)
    | .granted file, none =>
      if unused file then
        some ({ directory with pidName := some file }.write file "", .writing lock file)
      else none
  | .writing lock file =>
    match verdict with
    | .granted _ => some (directory.write file (toString pid), .owning lock)
    | .refused written =>
      some (directory.write file (String.ofList ((toString pid).toList.take written)),
        .closing lock)
  | .owning _ => none
  | .retiring lock =>
    match verdict with
    | .granted _ => some ({ directory with pidName := none }, .parting lock)
    | .refused _ => some (directory, .parting lock)
  | .parting lock =>
    match verdict with
    | .granted _ => some ({ directory with lockName := none }, .closing lock)
    | .refused _ => some (directory, .closing lock)
  | .closing _ => some (directory, .gone)
  | .gone => none

inductive Event where
  | acquire (pid : Nat)
  | move (place : Nat) (verdict : Verdict)
  | drop (place : Nat)
  | crash (pid : Nat)

namespace Daemons

/-- The end of a process closes every file it has open and leaves the files themselves. -/
def crash (pid : Nat) (task : Task) : Task :=
  if task.pid = pid then { task with phase := .gone } else task

def step (daemons : Daemons) : Event → Option Daemons
  | .acquire pid => some { daemons with tasks := daemons.tasks ++ [{ pid }] }
  | .move place verdict =>
    match daemons.tasks[place]? with
    | none => none
    | some task =>
      match advance (free Task.holds daemons.tasks) daemons.unused task.pid verdict
          daemons.directory task.phase with
      | none => none
      | some (directory, phase) =>
        some { directory, tasks := daemons.tasks.set place { task with phase } }
  | .drop place =>
    match daemons.tasks[place]? with
    | none => none
    | some task =>
      match task.phase with
      | .owning lock =>
        some { daemons with tasks := daemons.tasks.set place { task with phase := .retiring lock } }
      | _ => none
  | .crash pid => some { daemons with tasks := daemons.tasks.map (crash pid) }

end Daemons

/-- A lock is only granted on the file that the lock's name refers to at that moment. -/
def Attached (daemons : Daemons) : Event → Prop
  | .move place (.granted _) => ∀ task lock, daemons.tasks[place]? = some task →
      task.phase = .locking lock → free Task.holds daemons.tasks lock = true →
      daemons.directory.lockName = some lock
  | _ => True

/-- What an owner that has not parted with the lock's name may rely on. -/
def Sound (directory : Directory) (pid : Nat) : Phase → Prop
  | .claiming lock | .parting lock => directory.lockName = some lock
  | .writing lock file => directory.lockName = some lock ∧ directory.pidName = some file
  | .owning lock | .retiring lock =>
    directory.lockName = some lock ∧ directory.pidFile = some (toString pid)
  | _ => True

theorem Sound.named (h : Sound directory pid phase) (hclaimed : phase.claimed = some lock) :
    directory.lockName = some lock := by
  cases phase with
  | claiming _ | parting _ =>
    obtain rfl := Option.some.inj hclaimed
    exact h
  | writing _ _ | owning _ | retiring _ =>
    obtain rfl := Option.some.inj hclaimed
    exact h.1
  | entering | opening | locking _ | closing _ | gone => cases hclaimed

theorem sound_of_unclaimed (h : phase.claimed = none) : Sound directory pid phase := by
  cases phase with
  | claiming _ | parting _ | writing _ _ | owning _ | retiring _ => cases h
  | entering | opening | locking _ | closing _ | gone => trivial

theorem claimed_locked {phase : Phase} (h : phase.claimed = some lock) :
    phase.locked = some lock := by
  cases phase with
  | closing _ => cases h
  | entering | opening | locking _ | gone => cases h
  | claiming _ | parting _ | writing _ _ | owning _ | retiring _ => exact h

section Advance
variable {unlocked unused : Inode → Bool}

/-- A step changes the directory only where it creates the lock file, or for an owner that
has not parted with the lock's name. -/
theorem advance_directory
    (h : advance unlocked unused pid verdict directory phase = some (directory', phase')) :
    directory' = directory ∨ directory.lockName = none ∨ ∃ lock, phase.claimed = some lock := by
  cases phase with
  | claiming lock | parting lock | writing lock _ | owning lock | retiring lock =>
    exact .inr (.inr ⟨lock, rfl⟩)
  | gone => cases h
  | closing _ =>
    cases h
    exact .inl rfl
  | entering => cases verdict <;> cases h <;> exact .inl rfl
  | locking lock =>
    cases verdict with
    | refused _ =>
      cases h
      exact .inl rfl
    | granted _ =>
      dsimp only [advance] at h
      split at h <;> cases h <;> exact .inl rfl
  | opening =>
    cases verdict with
    | refused _ =>
      cases h
      exact .inl rfl
    | granted _ =>
      cases hname : directory.lockName with
      | none => exact .inr (.inl rfl)
      | some lock =>
        simp only [advance, hname, Option.some.injEq, Prod.mk.injEq] at h
        exact .inl h.1.symm

theorem advance_sound (hsound : Sound directory pid phase)
    (hattached : ∀ file lock, verdict = .granted file → phase = .locking lock →
      unlocked lock = true → directory.lockName = some lock)
    (h : advance unlocked unused pid verdict directory phase = some (directory', phase')) :
    Sound directory' pid phase' := by
  cases phase with
  | gone => cases h
  | owning _ => cases h
  | closing _ =>
    cases h
    trivial
  | entering => cases verdict <;> cases h <;> trivial
  | opening =>
    apply sound_of_unclaimed
    dsimp only [advance] at h
    split at h
    · cases h
      rfl
    · cases h
      rfl
    · split at h <;> cases h
      rfl
  | locking lock =>
    cases verdict with
    | refused _ =>
      cases h
      trivial
    | granted file =>
      dsimp only [advance] at h
      split at h
      · rename_i hunlocked
        cases h
        exact hattached file lock rfl rfl hunlocked
      · cases h
        trivial
  | claiming lock =>
    dsimp only [advance] at h
    split at h
    · cases h
      trivial
    · rename_i hpid
      cases h
      exact ⟨hsound, hpid⟩
    · split at h <;> cases h
      exact ⟨hsound, rfl⟩
  | writing lock file =>
    cases verdict with
    | refused _ =>
      cases h
      trivial
    | granted _ =>
      cases h
      refine ⟨hsound.1, ?_⟩
      simp [Directory.pidFile, Directory.write, hsound.2]
  | retiring lock => cases verdict <;> cases h <;> exact hsound.1
  | parting lock => cases verdict <;> cases h <;> trivial

/-- Only the lock that was found free is gained. -/
theorem advance_locked
    (h : advance unlocked unused pid verdict directory phase = some (directory', phase'))
    (hlocked : phase'.locked = some lock) :
    phase.locked = some lock ∨ unlocked lock = true := by
  cases phase with
  | gone => cases h
  | owning _ => cases h
  | closing _ =>
    cases h
    cases hlocked
  | entering => cases verdict <;> cases h <;> cases hlocked
  | opening =>
    dsimp only [advance] at h
    split at h
    · cases h
      cases hlocked
    · cases h
      cases hlocked
    · split at h <;> cases h
      cases hlocked
  | locking _ =>
    cases verdict with
    | refused _ =>
      cases h
      cases hlocked
    | granted _ =>
      dsimp only [advance] at h
      split at h
      · rename_i hunlocked
        cases h
        obtain rfl := Option.some.inj hlocked
        exact .inr hunlocked
      · cases h
        cases hlocked
  | claiming _ =>
    dsimp only [advance] at h
    split at h
    · cases h
      exact .inl hlocked
    · cases h
      exact .inl hlocked
    · split at h <;> cases h
      exact .inl hlocked
  | writing _ _ => cases verdict <;> cases h <;> exact .inl hlocked
  | retiring _ => cases verdict <;> cases h <;> exact .inl hlocked
  | parting _ => cases verdict <;> cases h <;> exact .inl hlocked

end Advance

/-- No lock is held twice, and every owner finds its files in place. -/
structure Sole (daemons : Daemons) : Prop where
  exclusive : Exclusive Task.holds daemons.tasks
  sound : ∀ task ∈ daemons.tasks, Sound daemons.directory task.pid task.phase

namespace Sole
variable {daemons : Daemons} {i j place other : Nat} {left right task task' : Task}

/-- The locks of two owners are both the one the name refers to. -/
theorem claimed_unique (h : Sole daemons) (hi : daemons.tasks[i]? = some left)
    (hj : daemons.tasks[j]? = some right) (hleft : left.phase.claimed = some lock)
    (hright : right.phase.claimed = some lock') : i = j := by
  have hname := (h.sound left (List.mem_of_getElem? hi)).named hleft
  have hname' := (h.sound right (List.mem_of_getElem? hj)).named hright
  obtain rfl : lock = lock' := Option.some.inj (hname.symm.trans hname')
  exact h.exclusive i j left right lock hi hj (by simp [Task.holds, claimed_locked hleft])
    (by simp [Task.holds, claimed_locked hright])

theorem start (directory : Directory) : Sole ⟨directory, []⟩ :=
  ⟨Exclusive.nil, fun _ h => absurd h List.not_mem_nil⟩

theorem acquire (h : Sole daemons) (pid : Nat) :
    Sole { daemons with tasks := daemons.tasks ++ [{ pid }] } := by
  constructor
  · exact h.exclusive.push fun _ => rfl
  · intro task htask
    rcases List.mem_append.mp htask with hbefore | hnew
    · exact h.sound task hbefore
    · obtain rfl := List.mem_singleton.mp hnew
      trivial

/-- What one task's step does to the directory leaves the other owners alone. -/
theorem other_sound (h : Sole daemons) (hplace : daemons.tasks[place]? = some task)
    (hadvance : advance unlocked unused task.pid verdict daemons.directory task.phase =
      some (directory, phase)) (hne : other ≠ place)
    (hother : daemons.tasks[other]? = some task') :
    Sound directory task'.pid task'.phase := by
  have hbefore := h.sound task' (List.mem_of_getElem? hother)
  rcases advance_directory hadvance with hsame | hnone | ⟨lock, hclaimed⟩
  · exact hsame ▸ hbefore
  all_goals
    apply sound_of_unclaimed
    cases hother' : task'.phase.claimed with
    | none => rfl
    | some lock' => ?_
  · exact absurd (hnone.symm.trans (hbefore.named hother')) (by simp)
  · exact absurd (h.claimed_unique hother hplace hother' hclaimed) hne

theorem move (h : Sole daemons) (hplace : daemons.tasks[place]? = some task)
    (hattached : ∀ file lock, verdict = .granted file → task.phase = .locking lock →
      free Task.holds daemons.tasks lock = true → daemons.directory.lockName = some lock)
    (hadvance : advance (free Task.holds daemons.tasks) unused task.pid verdict daemons.directory
      task.phase = some (directory, phase)) :
    Sole { directory, tasks := daemons.tasks.set place { task with phase } } := by
  constructor
  · apply h.exclusive.set hplace
    intro lock hholds
    rcases advance_locked hadvance (of_decide_eq_true hholds) with hheld | hfree
    · exact .inl (by simp [Task.holds, hheld])
    · exact .inr hfree
  · intro task' htask'
    rcases mem_set_cases htask' with rfl | ⟨other, hne, hother⟩
    · exact advance_sound (h.sound task (List.mem_of_getElem? hplace)) hattached hadvance
    · exact h.other_sound hplace hadvance hne hother

theorem drop (h : Sole daemons) (hplace : daemons.tasks[place]? = some task)
    (hphase : task.phase = .owning lock) :
    Sole { daemons with tasks := daemons.tasks.set place { task with phase := .retiring lock } } := by
  constructor
  · apply h.exclusive.set hplace
    intro lock' hholds
    exact .inl (by simpa [Task.holds, hphase, Phase.locked] using hholds)
  · intro task' htask'
    rcases mem_set_cases htask' with rfl | ⟨other, _, hother⟩
    · have hbefore := h.sound task (List.mem_of_getElem? hplace)
      rw [hphase] at hbefore
      exact hbefore
    · exact h.sound task' (List.mem_of_getElem? hother)

theorem crash (h : Sole daemons) (pid : Nat) :
    Sole { daemons with tasks := daemons.tasks.map (Daemons.crash pid) } := by
  constructor
  · apply h.exclusive.map
    intro task lock hholds
    unfold Daemons.crash at hholds
    split at hholds
    · cases hholds
    · exact hholds
  · intro task' htask'
    obtain ⟨task, htask, rfl⟩ := List.mem_map.mp htask'
    unfold Daemons.crash
    split
    · trivial
    · exact h.sound task htask

theorem step (h : Sole daemons) (hattached : Attached daemons event)
    (hstep : daemons.step event = some next) : Sole next := by
  cases event with
  | acquire pid =>
    obtain rfl := Option.some.inj hstep
    exact h.acquire pid
  | crash pid =>
    obtain rfl := Option.some.inj hstep
    exact h.crash pid
  | drop place =>
    dsimp only [Daemons.step] at hstep
    split at hstep
    · cases hstep
    · rename_i task hplace
      split at hstep
      · rename_i lock hphase
        obtain rfl := Option.some.inj hstep
        exact h.drop hplace hphase
      · cases hstep
  | move place verdict =>
    dsimp only [Daemons.step] at hstep
    split at hstep
    · cases hstep
    · rename_i task hplace
      split at hstep
      · cases hstep
      · rename_i directory phase hadvance
        obtain rfl := Option.some.inj hstep
        refine h.move hplace ?_ hadvance
        intro file lock hgranted hphase hfree
        subst hgranted
        exact hattached task lock hplace hphase hfree

end Sole

/-- In a run whose locks are all granted on the named file, at most one guard is live at a
time, and the pid file is its process's. -/
theorem single_owner {directory : Directory} {daemons : Daemons}
    (h : Reaches Daemons.step Attached ⟨directory, []⟩ daemons) :
    (∀ (i j : Nat) (left right : Task), daemons.tasks[i]? = some left → daemons.tasks[j]? = some right →
      left.live → right.live → i = j) ∧
    ∀ task ∈ daemons.tasks, task.live →
      daemons.directory.pidFile = some (toString task.pid) := by
  have hsole : Sole daemons := h.invariant (Sole.start directory) fun _ _ _ => Sole.step
  constructor
  · intro i j left right hi hj ⟨lock, hleft⟩ ⟨lock', hright⟩
    exact hsole.claimed_unique hi hj (congrArg Phase.claimed hleft) (congrArg Phase.claimed hright)
  · intro task htask ⟨lock, hphase⟩
    have hsound := hsole.sound task htask
    rw [hphase] at hsound
    exact hsound.2

/-- A state directory that a crashed daemon has left its files in. -/
def staleDirectory : Directory where
  lockName := some 0
  pidName := some 1
  contents := fun file => if file = 1 then "999999" else ""

theorem attached_of_phase {daemons : Daemons} {task : Task} (place : Nat) (verdict : Verdict)
    (hplace : daemons.tasks[place]? = some task)
    (h : ∀ lock, task.phase = .locking lock → daemons.directory.lockName = some lock) :
    Attached daemons (.move place verdict) := by
  cases verdict with
  | refused _ => trivial
  | granted file =>
    intro task' lock hplace' hphase _
    obtain rfl : task = task' := Option.some.inj (hplace.symm.trans hplace')
    exact h lock hphase

theorem single_owner_stale :
    ∃ daemons, Reaches Daemons.step Attached ⟨staleDirectory, []⟩ daemons ∧
      daemons.tasks = [⟨7, .owning 0⟩] ∧
      ∀ task ∈ daemons.tasks, task.live →
        daemons.directory.pidFile = some (toString task.pid) := by
  have entering : Reaches Daemons.step Attached ⟨staleDirectory, []⟩
      ⟨staleDirectory, [⟨7, .entering⟩]⟩ :=
    Reaches.start.step (show Attached _ (.acquire 7) from trivial) rfl
  have opening : Reaches Daemons.step Attached ⟨staleDirectory, []⟩
      ⟨staleDirectory, [⟨7, .opening⟩]⟩ :=
    entering.step (attached_of_phase 0 (.granted 2) rfl fun _ h => nomatch h) rfl
  have locking : Reaches Daemons.step Attached ⟨staleDirectory, []⟩
      ⟨staleDirectory, [⟨7, .locking 0⟩]⟩ :=
    opening.step (attached_of_phase 0 (.granted 2) rfl fun _ h => nomatch h) rfl
  have claiming : Reaches Daemons.step Attached ⟨staleDirectory, []⟩
      ⟨staleDirectory, [⟨7, .claiming 0⟩]⟩ :=
    locking.step (attached_of_phase 0 (.granted 2) rfl
      fun _ h => congrArg some (Phase.locking.inj h)) rfl
  have writing : Reaches Daemons.step Attached ⟨staleDirectory, []⟩
      ⟨staleDirectory.write 1 "", [⟨7, .writing 0 1⟩]⟩ :=
    claiming.step (attached_of_phase 0 (.granted 2) rfl fun _ h => nomatch h) rfl
  have owning : Reaches Daemons.step Attached ⟨staleDirectory, []⟩
      ⟨(staleDirectory.write 1 "").write 1 "7", [⟨7, .owning 0⟩]⟩ :=
    writing.step (attached_of_phase 0 (.granted 2) rfl fun _ h => nomatch h) rfl
  exact ⟨_, owning, rfl, (single_owner owning).2⟩

/-- The second opener locks the file the first owner has removed, the third a new one. -/
def overlap : List Event :=
  [Event.acquire 1, .acquire 2] ++ List.replicate 3 (Event.move 0 (.granted 0)) ++
    List.replicate 2 (Event.move 0 (.granted 1)) ++ List.replicate 2 (Event.move 1 (.granted 0)) ++
    [Event.drop 0] ++ List.replicate 3 (Event.move 0 (.granted 0)) ++
    List.replicate 3 (Event.move 1 (.granted 1)) ++ [Event.acquire 3] ++
    List.replicate 5 (Event.move 2 (.granted 2))

theorem two_owners_at_once :
    ∃ daemons, Reaches Daemons.step (fun _ _ => True) ⟨⟨none, none, fun _ => ""⟩, []⟩ daemons ∧
      ∃ left right : Task, daemons.tasks[1]? = some left ∧ daemons.tasks[2]? = some right ∧
        left.live ∧ right.live ∧ daemons.directory.pidFile ≠ some (toString left.pid) := by
  have hends : (run Daemons.step overlap ⟨⟨none, none, fun _ => ""⟩, []⟩).map
      (fun daemons => (daemons.tasks, daemons.directory.pidFile)) =
        some ([⟨1, .gone⟩, ⟨2, .owning 0⟩, ⟨3, .owning 2⟩], some "3") := by decide
  obtain ⟨daemons, hrun, hlast⟩ := Option.map_eq_some_iff.mp hends
  obtain ⟨htasks, hpid⟩ := Prod.mk.inj hlast
  refine ⟨daemons, Reaches.start.run hrun, ⟨2, .owning 0⟩, ⟨3, .owning 2⟩, ?_, ?_, ⟨0, rfl⟩,
    ⟨2, rfl⟩, ?_⟩
  · rw [htasks]
    rfl
  · rw [htasks]
    rfl
  · rw [hpid]
    decide

end HologramLive.Process
