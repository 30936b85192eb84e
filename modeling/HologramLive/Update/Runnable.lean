import HologramLive.Update.Replace

/-! What an update or its rollback leaves of the program, whichever call fails and wherever
the process dies. -/

namespace HologramLive.Update
open Lib Lib.Files Store

/-- One way for the calls to go: at most one of them fails, and after a number of them the
process is no more, if it has not ended by then. -/
structure Trial where
  failing : Option Nat := none
  error : IoError := missing
  written : Option Nat := none
  calls : Nat

namespace Trial

def verdict (trial : Trial) (place : Nat) : Verdict :=
  if trial.failing = some place then .refused trial.error trial.written else .granted

/-- What the calls come to that are still made. -/
def verdicts (trial : Trial) (start : Nat) : List Verdict :=
  (List.range' start (trial.calls - start)).map trial.verdict

/-- What a program that has made `start` calls ends with, if it does, and what it leaves. -/
def run (trial : Trial) (start : Nat) (program : BinaryProgram LiveError α) (binaries : Binaries) :
    Option (Except LiveError α) × Binaries :=
  let (program, binaries) := Program.advance serve (trial.verdicts start) program binaries
  (program.outcome, binaries)

end Trial

/-- The path holds what it held before, or what has been there to be put in place. -/
def Kept (before after : Binaries) (current : Path) (new : Option Binary) : Prop :=
  after current = before current ∨ ∃ binary, new = some binary ∧ after current = some binary

/-- What an install leaves. An error leaves both binaries as they were; a success can be
taken back. -/
structure Installed (own : Self) (new : Option Binary) (before : Binaries)
    (result : Option (Except LiveError String)) (after : Binaries) : Prop where
  kept : Kept before after own.path new
  failed : ∀ error, result = some (.error error) →
    after own.path = before own.path ∧
    after (previousPath own.path) = before (previousPath own.path)
  done : ∀ version, result = some (.ok version) →
    after (previousPath own.path) = before own.path ∧
    ∃ calls, (Trial.run { calls } 0 own.rollback after).1 = some (.ok ()) ∧
      (Trial.run { calls } 0 own.rollback after).2 own.path = before own.path

/-- The kinds of trial in which an install loses a binary: the process dies while none is at
the path, a file of the former update is taken away for nothing, or one of the two names is
the program's own. -/
def InstallLoses (trial : Trial) (before : Binaries) (current : Path) : Prop :=
  let previous := previousPath current
  let removes := (before previous).isSome ∧ trial.failing ≠ some 2
  let aside := if removes then 4 else 3
  trial.failing ≠ some 0 ∧ trial.failing ≠ some 1 ∧ (removes → trial.failing ≠ some 3) ∧
  if previous = current then
    (before current).isSome ∧ if removes then 4 ≤ trial.calls else 5 ≤ trial.calls
  else if (before current).isSome ∧ trial.failing ≠ some aside then
    trial.calls = aside + 1 ∨
    if trial.failing = some (aside + 1) then
      trial.calls = aside + 2 ∨ aside + 2 < trial.calls ∧ removes
    else failedPath current = current ∧ aside + 2 ≤ trial.calls
  else removes ∧ aside < trial.calls

/-- The same for a rollback. -/
def RollbackLoses (trial : Trial) (before : Binaries) (current : Path) : Prop :=
  let previous := previousPath current
  let failed := failedPath current
  let removes := (before failed).isSome ∧ trial.failing ≠ some 1
  let aside := if removes then 3 else 2
  (before previous).isSome ∧ (before current).isSome ∧ trial.failing ≠ some 0 ∧
  (removes → trial.failing ≠ some 2) ∧
  if failed = current then removes ∧ 3 ≤ trial.calls
  else trial.failing ≠ some aside ∧
    (trial.calls = aside + 1 ∨
    if previous = current then
      trial.calls = aside + 2 ∨ trial.failing = some (aside + 2) ∧ aside + 3 ≤ trial.calls
    else trial.failing = some (aside + 1) ∧ trial.calls = aside + 2)

section
variable {trial : Trial} {start : Nat} {before : Binaries} {current source aside path : Path}

namespace Trial

@[simp] theorem run_done (value : α) :
    trial.run start (.done value) before = (some (.ok value), before) := by
  simp [run, Program.outcome]

@[simp] theorem run_fail (error : LiveError) :
    trial.run start (.fail error : BinaryProgram LiveError α) before
      = (some (.error error), before) := by
  simp [run, Program.outcome]

/-- One call, if the process gets to it. -/
theorem run_call (operation : BinaryCall β) (next : β → BinaryProgram LiveError α) :
    trial.run start (.call operation next) before =
      if trial.calls ≤ start then (none, before)
      else trial.run (start + 1) (next (serve operation (trial.verdict start) before).1)
        (serve operation (trial.verdict start) before).2 := by
  split
  · rename_i hcalls
    have hnone : trial.calls - start = 0 := by omega
    simp [run, verdicts, hnone, Program.outcome]
  · rename_i hcalls
    obtain ⟨more, hmore⟩ : ∃ more, trial.calls - start = more + 1 := ⟨trial.calls - start - 1, by omega⟩
    have hrest : trial.calls - (start + 1) = more := by omega
    simp [run, verdicts, hmore, hrest, List.range'_succ]

end Trial

namespace Trial

theorem verdict_failing (h : trial.failing = some start) :
    trial.verdict start = .refused trial.error trial.written := if_pos h

theorem verdict_granted (h : trial.failing ≠ some start) : trial.verdict start = .granted := if_neg h

section
variable {operation : BinaryCall (Except IoError Unit)} {after : Binaries} {error : IoError}
  {rest : Unit → BinaryProgram LiveError α}

theorem run_early (hcalls : trial.calls ≤ start) :
    trial.run start (orFail operation path >>= rest) before = (none, before) := by
  have hprogram : (orFail operation path >>= rest) = .call operation fun reply =>
      .ofExcept (reply.mapError (ioError path.display)) >>= rest := rfl
  rw [hprogram, run_call, if_pos hcalls]

theorem run_ok (hcalls : start < trial.calls)
    (h : serve operation (trial.verdict start) before = (.ok (), after)) :
    trial.run start (orFail operation path >>= rest) before
      = trial.run (start + 1) (rest ()) after := by
  have hprogram : (orFail operation path >>= rest) = .call operation fun reply =>
      .ofExcept (reply.mapError (ioError path.display)) >>= rest := rfl
  rw [hprogram, run_call, if_neg (by omega), h]
  rfl

theorem run_error (hcalls : start < trial.calls)
    (h : serve operation (trial.verdict start) before = (.error error, after)) :
    trial.run start (orFail operation path >>= rest) before
      = (some (.error (ioError path.display error)), after) := by
  have hprogram : (orFail operation path >>= rest) = .call operation fun reply =>
      .ofExcept (reply.mapError (ioError path.display)) >>= rest := rfl
  rw [hprogram, run_call, if_neg (by omega), h]
  exact run_fail _

end

/-- A file is found where it is there and can be looked at. -/
theorem run_exists (hcalls : start < trial.calls) (next : Bool → BinaryProgram LiveError α) :
    trial.run start (binaryExists path >>= next) before
      = trial.run (start + 1)
          (next (decide ((before path).isSome ∧ trial.failing ≠ some start))) before := by
  have hprogram : (binaryExists path >>= next)
      = .call (.metadata path) fun found => next found.isOk := rfl
  rw [hprogram, run_call, if_neg (by omega)]
  by_cases hfailing : trial.failing = some start
  · rw [verdict_failing hfailing]
    simp [serve, Binaries.refused, hfailing]
  · rw [verdict_granted hfailing]
    cases hfound : before path with
    | none => simp [serve, Binaries.granted, hfound]
    | some binary => simp [serve, Binaries.granted, hfound, hfailing]

theorem run_exists_early (hcalls : trial.calls ≤ start) (next : Bool → BinaryProgram LiveError α) :
    trial.run start (binaryExists path >>= next) before = (none, before) := by
  have hprogram : (binaryExists path >>= next)
      = .call (.metadata path) fun found => next found.isOk := rfl
  rw [hprogram, run_call, if_pos hcalls]

end Trial

/-- A path is cleared in one call or two, and what stood there is gone. -/
inductive Cleared (trial : Trial) (start : Nat) (path : Path) (before : Binaries)
    (rest : BinaryProgram LiveError α) : Option (Except LiveError α) → Binaries → Prop
  | early (hcalls : trial.calls ≤ start) : Cleared trial start path before rest none before
  | untouched (hfound : (before path).isSome) (hlook : trial.failing ≠ some start)
      (hcalls : trial.calls = start + 1) : Cleared trial start path before rest none before
  | kept (hfound : (before path).isSome) (hfails : trial.failing = some (start + 1))
      (hcalls : start + 1 < trial.calls) (error : LiveError) :
      Cleared trial start path before rest (some (.error error)) before
  | absent (hcalls : start < trial.calls)
      (habsent : before path = none ∨ trial.failing = some start) :
      Cleared trial start path before rest (trial.run (start + 1) rest before).1
        (trial.run (start + 1) rest before).2
  | removed (hfound : (before path).isSome) (hlook : trial.failing ≠ some start)
      (hremove : trial.failing ≠ some (start + 1)) (hcalls : start + 1 < trial.calls) :
      Cleared trial start path before rest (trial.run (start + 2) rest (before.put path none)).1
        (trial.run (start + 2) rest (before.put path none)).2

theorem run_clear (trial : Trial) (start : Nat) (path : Path) (before : Binaries)
    (rest : BinaryProgram LiveError α) :
    Cleared trial start path before rest (trial.run start (clear path >>= fun _ => rest) before).1
      (trial.run start (clear path >>= fun _ => rest) before).2 := by
  rw [clear, Program.bind_assoc]
  by_cases hcalls : trial.calls ≤ start
  · rw [Trial.run_exists_early hcalls]
    exact .early hcalls
  · rw [Trial.run_exists (by omega)]
    by_cases hlook : (before path).isSome ∧ trial.failing ≠ some start
    · obtain ⟨hsome, hlook⟩ := hlook
      obtain ⟨binary, hfound⟩ := Option.isSome_iff_exists.mp hsome
      simp only [hsome, hlook, ne_eq, not_false_eq_true, and_self, decide_true, if_true]
      by_cases hmore : trial.calls ≤ start + 1
      · rw [Trial.run_early hmore]
        exact .untouched hsome hlook (by omega)
      · by_cases hremove : trial.failing = some (start + 1)
        · have hserve : serve (.removeFile path) (trial.verdict (start + 1)) before
              = (.error trial.error, before) := by
            rw [Trial.verdict_failing hremove]
            rfl
          rw [Trial.run_error (by omega) hserve]
          exact .kept hsome hremove (by omega) _
        · have hserve : serve (.removeFile path) (trial.verdict (start + 1)) before
              = (.ok (), before.put path none) := by
            rw [Trial.verdict_granted hremove]
            simp [serve, Binaries.granted, hfound]
          rw [Trial.run_ok (by omega) hserve]
          exact .removed hsome hlook hremove (by omega)
    · have habsent : before path = none ∨ trial.failing = some start := by
        by_cases hfailing : trial.failing = some start
        · exact .inr hfailing
        · exact .inl (by simpa [hfailing] using hlook)
      rw [decide_eq_false hlook]
      exact .absent (by omega) habsent

/-- What two renames come to, of three different paths. -/
inductive Swapped (trial : Trial) (start : Nat) (before : Binaries) (source current aside : Path)
    (value : α) : Option (Except LiveError α) → Binaries → Prop
  | early (hcalls : trial.calls ≤ start) :
      Swapped trial start before source current aside value none before
  | refused (hcalls : start < trial.calls)
      (hfails : before current = none ∨ trial.failing = some start) (error : LiveError) :
      Swapped trial start before source current aside value (some (.error error)) before
  | between (hfound : (before current).isSome) (hfirst : trial.failing ≠ some start)
      (hcalls : trial.calls = start + 1 ∨
        trial.failing = some (start + 1) ∧ trial.calls = start + 2)
      (after : Binaries) (hcurrent : after current = none) :
      Swapped trial start before source current aside value none after
  | undone (hfound : (before current).isSome) (hsecond : trial.failing = some (start + 1))
      (hcalls : start + 2 < trial.calls) (error : LiveError) (after : Binaries)
      (hcurrent : after current = before current) (haside : after aside = none) :
      Swapped trial start before source current aside value (some (.error error)) after
  | placed (hfound : (before current).isSome) (hfirst : trial.failing ≠ some start)
      (hsecond : trial.failing ≠ some (start + 1)) (hcalls : start + 1 < trial.calls)
      (after : Binaries) (hcurrent : after current = before source)
      (haside : after aside = before current) :
      Swapped trial start before source current aside value (some (.ok value)) after

theorem swap_bind (source current aside : Path) (value : α) :
    (swap source current aside >>= fun _ => .done value)
      = (orFail (.rename current aside) current >>= fun _ =>
        .call (.rename source current) fun reply =>
          (match reply with
          | .ok () => .done ()
          | .error error => .call (.rename aside current) fun _ =>
            .fail (ioError current.display error)) >>= fun _ => .done value) := by
  rw [swap, Program.bind_assoc]
  rfl

/-- Nothing is moved where there is nothing to move aside. -/
theorem run_swap_absent (trial : Trial) (start : Nat) (source aside : Path) (value : α)
    (h : before current = none) :
    ((trial.run start (swap source current aside >>= fun _ => .done value) before).1 = none ∨
      ∃ error, (trial.run start (swap source current aside >>= fun _ => .done value) before).1
        = some (.error error)) ∧
    (trial.run start (swap source current aside >>= fun _ => .done value) before).2 = before := by
  rw [swap_bind]
  by_cases hcalls : trial.calls ≤ start
  · rw [Trial.run_early hcalls]
    exact ⟨.inl rfl, rfl⟩
  · obtain ⟨error, hserve⟩ : ∃ error, serve (.rename current aside) (trial.verdict start) before
        = (.error error, before) := by
      by_cases hfailing : trial.failing = some start
      · rw [Trial.verdict_failing hfailing]
        exact ⟨trial.error, rfl⟩
      · rw [Trial.verdict_granted hfailing]
        exact ⟨missing, by simp [serve, Binaries.granted, h]⟩
    rw [Trial.run_error (by omega) hserve]
    exact ⟨.inr ⟨_, rfl⟩, rfl⟩

/-- A file that is moved onto itself stays there until the other is moved over it. -/
theorem run_swap_over (trial : Trial) (start : Nat) (value : α) (hsource : (before source).isSome)
    (hne : source ≠ current) (hcurrent : (before current).isSome)
    (hfirst : trial.failing ≠ some start) (hsecond : trial.failing ≠ some (start + 1)) :
    (trial.calls ≤ start + 1 ∧
      (trial.run start (swap source current current >>= fun _ => .done value) before).1 = none ∧
      (trial.run start (swap source current current >>= fun _ => .done value) before).2 current
        = before current) ∨
    (start + 1 < trial.calls ∧
      (trial.run start (swap source current current >>= fun _ => .done value) before).1
        = some (.ok value) ∧
      (trial.run start (swap source current current >>= fun _ => .done value) before).2 current
        = before source) := by
  obtain ⟨old, hold⟩ := Option.isSome_iff_exists.mp hcurrent
  obtain ⟨new, hnew⟩ := Option.isSome_iff_exists.mp hsource
  rw [swap_bind]
  by_cases hcalls : trial.calls ≤ start
  · rw [Trial.run_early hcalls]
    exact .inl ⟨by omega, rfl, rfl⟩
  · have hserve : serve (.rename current current) (trial.verdict start) before
        = (.ok (), (before.put current none).put current (some old)) := by
      rw [Trial.verdict_granted hfirst]
      simp [serve, Binaries.granted, hold]
    rw [Trial.run_ok (by omega) hserve, Trial.run_call]
    by_cases hmore : trial.calls ≤ start + 1
    · rw [if_pos hmore]
      exact .inl ⟨hmore, rfl, by simp [hold]⟩
    · have hmoved : (before.put current none).put current (some old) source = some new := by
        rw [Binaries.put_other hne, Binaries.put_other hne, hnew]
      have hplaced : (serve (.rename source current) (trial.verdict (start + 1))
          ((before.put current none).put current (some old))).1 = .ok () ∧
          (serve (.rename source current) (trial.verdict (start + 1))
            ((before.put current none).put current (some old))).2 current = some new := by
        rw [Trial.verdict_granted hsecond]
        simp [serve, Binaries.granted, hmoved]
      rw [if_neg hmore, hplaced.1]
      change _ ∨ _ ∧ (trial.run (start + 2) (.done value) _).1 = _ ∧
        (trial.run (start + 2) (.done value) _).2 current = _
      rw [Trial.run_done]
      exact .inr ⟨by omega, rfl, by rw [hplaced.2, hnew]⟩

/-- A file that is to be moved into its own place is gone once it is moved aside, and comes
back by the last call. -/
theorem run_swap_itself (trial : Trial) (start : Nat) (value : α) (haside : aside ≠ current)
    (hcurrent : (before current).isSome) :
    (trial.run start (swap current current aside >>= fun _ => .done value) before).1
      ≠ some (.ok value) ∧
    (trial.run start (swap current current aside >>= fun _ => .done value) before).2 current
      = (if trial.failing ≠ some start ∧ (trial.calls = start + 1 ∨ trial.calls = start + 2 ∨
          trial.failing = some (start + 2) ∧ start + 3 ≤ trial.calls) then none
        else before current) := by
  obtain ⟨old, hold⟩ := Option.isSome_iff_exists.mp hcurrent
  rw [swap_bind]
  by_cases hcalls : trial.calls ≤ start
  · rw [Trial.run_early hcalls, if_neg (by omega)]
    exact ⟨by simp, rfl⟩
  · by_cases hfirst : trial.failing = some start
    · have hserve : serve (.rename current aside) (trial.verdict start) before
          = (.error trial.error, before) := by
        rw [Trial.verdict_failing hfirst]
        rfl
      rw [Trial.run_error (by omega) hserve, if_neg fun h => h.1 hfirst]
      exact ⟨by simp, rfl⟩
    · have hserve : serve (.rename current aside) (trial.verdict start) before
          = (.ok (), (before.put current none).put aside (some old)) := by
        rw [Trial.verdict_granted hfirst]
        simp [serve, Binaries.granted, hold]
      have hgone : (before.put current none).put aside (some old) current = none := by
        rw [Binaries.put_other haside.symm, Binaries.put_same]
      rw [Trial.run_ok (by omega) hserve, Trial.run_call]
      by_cases hmore : trial.calls ≤ start + 1
      · rw [if_pos hmore, if_pos ⟨hfirst, .inl (by omega)⟩]
        exact ⟨by simp, hgone⟩
      · obtain ⟨error, hfails⟩ : ∃ error,
            serve (.rename current current) (trial.verdict (start + 1))
              ((before.put current none).put aside (some old))
            = (.error error, (before.put current none).put aside (some old)) := by
          by_cases hsecond : trial.failing = some (start + 1)
          · rw [Trial.verdict_failing hsecond]
            exact ⟨_, rfl⟩
          · rw [Trial.verdict_granted hsecond]
            exact ⟨missing, by simp [serve, Binaries.granted, hgone]⟩
        rw [if_neg hmore, hfails]
        change (trial.run (start + 2) (.call (.rename aside current) fun _ =>
            .fail (ioError current.display error)) _).1 ≠ _ ∧
          (trial.run (start + 2) (.call (.rename aside current) fun _ =>
            .fail (ioError current.display error)) _).2 current = _
        rw [Trial.run_call]
        by_cases hlast : trial.calls ≤ start + 2
        · rw [if_pos hlast, if_pos ⟨hfirst, .inr (.inl (by omega))⟩]
          exact ⟨by simp, hgone⟩
        · rw [if_neg hlast, Trial.run_fail]
          refine ⟨by simp, ?_⟩
          by_cases hthird : trial.failing = some (start + 2)
          · rw [Trial.verdict_failing hthird,
              if_pos ⟨hfirst, .inr (.inr ⟨hthird, by omega⟩)⟩]
            exact hgone
          · have hback : ¬ (trial.failing ≠ some start ∧ (trial.calls = start + 1 ∨
                trial.calls = start + 2 ∨ trial.failing = some (start + 2) ∧ start + 3 ≤ trial.calls)) := by
              simp only [hthird, false_and, or_false]
              omega
            rw [Trial.verdict_granted hthird, if_neg hback]
            simp [serve, Binaries.granted, hold]

theorem run_swap (trial : Trial) (start : Nat) (value : α) (hsource : (before source).isSome)
    (hne : source ≠ current) (hapart : source ≠ aside) (haside : aside ≠ current) :
    Swapped trial start before source current aside value
      (trial.run start (swap source current aside >>= fun _ => .done value) before).1
      (trial.run start (swap source current aside >>= fun _ => .done value) before).2 := by
  rw [swap_bind]
  by_cases hcalls : trial.calls ≤ start
  · rw [Trial.run_early hcalls]
    exact .early hcalls
  · by_cases hfirst : before current = none ∨ trial.failing = some start
    · obtain ⟨error, hserve⟩ : ∃ error, serve (.rename current aside) (trial.verdict start) before
          = (.error error, before) := by
        by_cases hfailing : trial.failing = some start
        · rw [Trial.verdict_failing hfailing]
          exact ⟨trial.error, rfl⟩
        · rw [Trial.verdict_granted hfailing]
          have hnone := hfirst.resolve_right hfailing
          exact ⟨missing, by simp [serve, Binaries.granted, hnone]⟩
      rw [Trial.run_error (by omega) hserve]
      exact .refused (by omega) hfirst _
    · obtain ⟨hcurrent, hfailing⟩ := not_or.mp hfirst
      obtain ⟨old, hold⟩ := Option.ne_none_iff_exists'.mp hcurrent
      obtain ⟨new, hnew⟩ := Option.isSome_iff_exists.mp hsource
      have hfound : (before current).isSome := by simp [hold]
      have hserve : serve (.rename current aside) (trial.verdict start) before
          = (.ok (), (before.put current none).put aside (some old)) := by
        rw [Trial.verdict_granted hfailing]
        simp [serve, Binaries.granted, hold]
      rw [Trial.run_ok (by omega) hserve, Trial.run_call]
      have hgone : (before.put current none).put aside (some old) current = none := by
        rw [Binaries.put_other haside.symm, Binaries.put_same]
      have hmoved : (before.put current none).put aside (some old) source = some new := by
        rw [Binaries.put_other hapart, Binaries.put_other hne, hnew]
      by_cases hmore : trial.calls ≤ start + 1
      · rw [if_pos hmore]
        exact .between hfound hfailing (.inl (by omega)) _ hgone
      · rw [if_neg hmore]
        by_cases hsecond : trial.failing = some (start + 1)
        · rw [Trial.verdict_failing hsecond]
          change Swapped _ _ _ _ _ _ _
            (trial.run (start + 2) (.call (.rename aside current) fun _ =>
              .fail (ioError current.display trial.error)) _).1
            (trial.run (start + 2) (.call (.rename aside current) fun _ =>
              .fail (ioError current.display trial.error)) _).2
          rw [Trial.run_call]
          by_cases hlast : trial.calls ≤ start + 2
          · rw [if_pos hlast]
            exact .between hfound hfailing (.inr ⟨hsecond, by omega⟩) _ hgone
          · rw [if_neg hlast, Trial.run_fail]
            have hthird : trial.failing ≠ some (start + 2) := by
              rw [hsecond]
              simp
            rw [Trial.verdict_granted hthird]
            refine .undone hfound hsecond (by omega) _ _ ?_ ?_
            · simp [serve, Binaries.granted, Binaries.refused, hold]
            · simp [serve, Binaries.granted, Binaries.refused, Binaries.put_other haside]
        · have hplaced : serve (.rename source current) (trial.verdict (start + 1))
              ((before.put current none).put aside (some old))
              = (.ok (), (((before.put current none).put aside (some old)).put source none).put current
                (some new)) := by
            rw [Trial.verdict_granted hsecond]
            simp only [serve, Binaries.granted, hmoved]
          rw [hplaced]
          change Swapped _ _ _ _ _ _ _ (trial.run (start + 2) (.done value) _).1
            (trial.run (start + 2) (.done value) _).2
          rw [Trial.run_done]
          refine .placed hfound hfailing hsecond (by omega) _ ?_ ?_ <;> dsimp only
          · rw [Binaries.put_same, hnew]
          · rw [Binaries.put_other haside, Binaries.put_other hapart.symm, Binaries.put_same, hold]

theorem temporary_ne (self : Self) (current : Path) : self.temporary current ≠ current := by
  apply withExtension_ne
  change 0 < dots ("update." ++ toString self.pid)
  rw [dots_append]
  exact Nat.lt_of_lt_of_le (by decide : 0 < dots "update.") (Nat.le_add_right _ _)

theorem temporary_ne_previous (self : Self) (current : Path) :
    self.temporary current ≠ previousPath current := by
  intro heq
  have hnames := congrArg (dots ·.name) heq
  have hdots : dots s!"update.{self.pid}" = 1 + dots (toString self.pid) := by
    change dots ("update." ++ toString self.pid) = _
    rw [dots_append]
    rfl
  simp only [Self.temporary, previousPath, dots_withExtension, hdots] at hnames
  have hprevious : dots "previous" = 0 := by decide
  omega

theorem failedPath_ne_previousPath (current : Path) : failedPath current ≠ previousPath current := by
  intro heq
  have hnames := congrArg (·.name.toList) heq
  simp [failedPath, previousPath, Path.withExtension] at hnames

/-- The new file is written and made a program before anything else happens. -/
theorem run_prepare (trial : Trial) (self : Self) (bytes : Contents)
    (rest : BinaryProgram LiveError α) :
    let program := orFail (.write (self.temporary current) bytes) (self.temporary current) >>=
      fun _ => orFail (.setPermissions (self.temporary current) 0o755) (self.temporary current) >>=
      fun _ => rest
    ((trial.calls ≤ 1 ∨ trial.failing = some 0 ∨ trial.failing = some 1) ∧
      ((trial.run 0 program before).1 = none ∨
        ∃ error, (trial.run 0 program before).1 = some (.error error)) ∧
      ∀ other ≠ self.temporary current, (trial.run 0 program before).2 other = before other) ∨
    (1 < trial.calls ∧ trial.failing ≠ some 0 ∧ trial.failing ≠ some 1 ∧
      trial.run 0 program before = trial.run 2 rest
        (before.put (self.temporary current) (some ⟨bytes, 0o755⟩))) := by
  intro program
  by_cases hcalls : trial.calls ≤ 0
  · left
    rw [Trial.run_early hcalls]
    exact ⟨.inl (by omega), .inl rfl, fun _ _ => rfl⟩
  · by_cases hwrite : trial.failing = some 0
    · left
      have hserve : ∃ left, serve (.write (self.temporary current) bytes) (trial.verdict 0) before =
          (.error trial.error, left) ∧ ∀ other ≠ self.temporary current, left other = before other := by
        rw [Trial.verdict_failing hwrite]
        refine ⟨_, rfl, fun other hother => ?_⟩
        cases trial.written with
        | none => rfl
        | some count => exact Binaries.put_other hother _
      obtain ⟨left, hserve, hleft⟩ := hserve
      rw [Trial.run_error (by omega) hserve]
      exact ⟨.inr (.inl hwrite), .inr ⟨_, rfl⟩, hleft⟩
    · have hserve : serve (.write (self.temporary current) bytes) (trial.verdict 0) before
          = (.ok (), before.written (self.temporary current) bytes) := by
        rw [Trial.verdict_granted hwrite]
        rfl
      have hwritten : ∀ other ≠ self.temporary current,
          before.written (self.temporary current) bytes other = before other :=
        fun other hother => Binaries.put_other hother _
      rw [Trial.run_ok (by omega) hserve]
      by_cases hmore : trial.calls ≤ 1
      · left
        rw [Trial.run_early (by omega)]
        exact ⟨.inl hmore, .inl rfl, hwritten⟩
      · by_cases hmode : trial.failing = some 1
        · left
          have hfails : serve (.setPermissions (self.temporary current) 0o755) (trial.verdict (0 + 1))
              (before.written (self.temporary current) bytes)
              = (.error trial.error, before.written (self.temporary current) bytes) := by
            rw [Trial.verdict_failing hmode]
            rfl
          rw [Trial.run_error (by omega) hfails]
          exact ⟨.inr (.inr hmode), .inr ⟨_, rfl⟩, hwritten⟩
        · right
          have hdone : serve (.setPermissions (self.temporary current) 0o755) (trial.verdict (0 + 1))
              (before.written (self.temporary current) bytes)
              = (.ok (), before.put (self.temporary current) (some ⟨bytes, 0o755⟩)) := by
            rw [Trial.verdict_granted hmode]
            simp [serve, Binaries.granted, Binaries.written, Binaries.put]
          rw [Trial.run_ok (by omega) hdone]
          exact ⟨by omega, hwrite, hmode, rfl⟩

/-- What moving the former binary back does, once the way is clear. -/
theorem kept_swap_back (trial : Trial) {middle : Binaries}
    (hcurrent : middle current = before current)
    (hprevious : middle (previousPath current) = before (previousPath current))
    (hsome : (before (previousPath current)).isSome) (hfailed : failedPath current ≠ current) :
    Kept before (trial.run start (swap (previousPath current) current (failedPath current) >>=
        fun _ => .done ()) middle).2 current (before (previousPath current)) ↔
      ¬ ((before current).isSome ∧ trial.failing ≠ some start ∧
        (trial.calls = start + 1 ∨
        if previousPath current = current then
          trial.calls = start + 2 ∨ trial.failing = some (start + 2) ∧ start + 3 ≤ trial.calls
        else trial.failing = some (start + 1) ∧ trial.calls = start + 2)) := by
  obtain ⟨old, hold⟩ := Option.isSome_iff_exists.mp hsome
  by_cases hsame : previousPath current = current
  · have hfound : (before current).isSome := by rw [← hsame]; exact hsome
    rw [hsame] at hold ⊢
    obtain ⟨-, hrun⟩ := run_swap_itself trial start () hfailed (hcurrent ▸ hfound)
    unfold Kept
    rw [hrun, hold, hcurrent, hold]
    simp only [if_true, Option.isSome_some, true_and]
    split
    · rename_i hlost
      simp [hlost]
    · rename_i hkept
      simp only [true_or, true_iff]
      exact hkept
  · have hends := run_swap trial start () (hprevious ▸ hsome) hsame
      (failedPath_ne_previousPath current).symm hfailed
    rw [if_neg hsame]
    generalize trial.run start (swap (previousPath current) current (failedPath current) >>=
      fun _ => .done ()) middle = ended at hends ⊢
    obtain ⟨result, after⟩ := ended
    dsimp only at hends ⊢
    cases hends with
    | early hcalls =>
      refine iff_of_true (.inl hcurrent) fun h => ?_
      omega
    | refused hcalls hfails error =>
      refine iff_of_true (.inl hcurrent) fun h => ?_
      rcases hfails with hnone | hfails
      · simp [← hcurrent, hnone] at h
      · exact h.2.1 hfails
    | between hfound hfirst hcalls _ hgone =>
      refine iff_of_false ?_ (not_not.mpr ⟨hcurrent ▸ hfound, hfirst, hcalls⟩)
      obtain ⟨binary, hbinary⟩ := Option.isSome_iff_exists.mp hfound
      simp [Kept, hgone, ← hcurrent, hbinary]
    | undone hfound hsecond hcalls error _ hback =>
      refine iff_of_true (.inl (hback.trans hcurrent)) fun h => ?_
      omega
    | placed hfound hfirst hsecond hcalls _ hplaced =>
      refine iff_of_true (.inr ⟨old, hold, (hplaced.trans hprevious).trans hold⟩) fun h => ?_
      rcases h.2.2 with hcalls' | hfails
      · omega
      · exact hsecond hfails.1

theorem RollbackLoses.calls (h : RollbackLoses trial before current) : 3 ≤ trial.calls := by
  obtain ⟨-, -, -, -, hkind⟩ := h
  by_cases hfailed : failedPath current = current
  · simp only [hfailed, if_true] at hkind
    exact hkind.2
  · simp only [hfailed, if_false] at hkind
    grind

/-- Where the way is not cleared, an executable with the failed version's name is only moved
onto itself. -/
theorem kept_over (trial : Trial) (hsome : (before (previousPath current)).isSome)
    (hfailed : failedPath current = current)
    (habsent : before current = none ∨ trial.failing = some 1) :
    Kept before (trial.run 2 (swap (previousPath current) current current >>=
      fun _ => .done ()) before).2 current (before (previousPath current)) := by
  by_cases hcurrent : before current = none
  · exact .inl (by rw [(run_swap_absent trial _ _ _ _ hcurrent).2])
  · have hfailing : trial.failing = some 1 := habsent.resolve_left hcurrent
    have hne : previousPath current ≠ current := fun hsame =>
      failedPath_ne_previousPath _ (hfailed.trans hsame.symm)
    have hfirst : trial.failing ≠ some 2 := by simp [hfailing]
    have hsecond : trial.failing ≠ some (2 + 1) := by simp [hfailing]
    rcases run_swap_over trial 2 () hsome hne (Option.isSome_iff_ne_none.mpr hcurrent)
      hfirst hsecond with ⟨-, -, hkept⟩ | ⟨-, -, hkept⟩
    · exact .inl hkept
    · obtain ⟨old, hold⟩ := Option.isSome_iff_exists.mp hsome
      exact .inr ⟨old, hold, hkept.trans hold⟩

/-- From where the former binary has been found. -/
theorem kept_way_back (trial : Trial) (hsome : (before (previousPath current)).isSome)
    (hlook : trial.failing ≠ some 0) :
    Kept before (trial.run 1 (clear (failedPath current) >>= fun _ =>
        swap (previousPath current) current (failedPath current) >>= fun _ => .done ()) before).2
        current (before (previousPath current)) ↔
      ¬ RollbackLoses trial before current := by
  have hends := run_clear trial 1 (failedPath current) before
    (swap (previousPath current) current (failedPath current) >>= fun _ => .done ())
  generalize trial.run 1 (clear (failedPath current) >>= fun _ =>
    swap (previousPath current) current (failedPath current) >>= fun _ => .done ()) before
    = ended at hends ⊢
  obtain ⟨result, after⟩ := ended
  dsimp only at hends ⊢
  cases hends with
  | early hcalls =>
    refine iff_of_true (.inl rfl) fun h => ?_
    have := h.calls
    omega
  | untouched hfound hfirst hcalls =>
    refine iff_of_true (.inl rfl) fun h => ?_
    have := h.calls
    omega
  | kept hfound hfails hcalls error =>
    have hfirst : trial.failing ≠ some 1 := by simp [hfails]
    exact iff_of_true (.inl rfl) fun h => h.2.2.2.1 ⟨hfound, hfirst⟩ hfails
  | absent hcalls habsent =>
    have hremoves : ¬ ((before (failedPath current)).isSome ∧ trial.failing ≠ some 1) := by
      rcases habsent with habsent | habsent <;> simp [habsent]
    by_cases hfailed : failedPath current = current
    · have hnot : ¬ RollbackLoses trial before current := by
        simp only [RollbackLoses, hremoves, if_pos hfailed, false_and, and_false,
          not_false_eq_true]
      rw [hfailed] at habsent ⊢
      exact iff_of_true (kept_over trial hsome hfailed habsent) hnot
    · rw [kept_swap_back trial rfl rfl hsome hfailed]
      simp only [RollbackLoses, hremoves, if_neg hfailed, hsome, hlook, if_false, ne_eq,
        not_false_eq_true, true_and, false_implies]
  | removed hfound hfirst hremove hcalls =>
    have hremoves : (before (failedPath current)).isSome ∧ trial.failing ≠ some 1 :=
      ⟨hfound, hfirst⟩
    by_cases hfailed : failedPath current = current
    · have hcurrent : (before current).isSome := hfailed ▸ hfound
      have hloses : RollbackLoses trial before current := by
        refine ⟨hsome, hcurrent, hlook, fun _ => hremove, ?_⟩
        rw [if_pos hfailed]
        exact ⟨hremoves, by omega⟩
      have hnone : before.put (failedPath current) none current = none := by
        rw [hfailed, Binaries.put_same]
      obtain ⟨binary, hbinary⟩ := Option.isSome_iff_exists.mp hcurrent
      refine iff_of_false ?_ (not_not.mpr hloses)
      rw [Kept, (run_swap_absent trial _ _ _ _ hnone).2, hnone, hbinary]
      simp
    · have hcurrent : before.put (failedPath current) none current = before current :=
        Binaries.put_other (Ne.symm hfailed) _
      have hprevious : before.put (failedPath current) none (previousPath current)
          = before (previousPath current) :=
        Binaries.put_other (failedPath_ne_previousPath _).symm _
      rw [kept_swap_back trial hcurrent hprevious hsome hfailed]
      simp only [RollbackLoses, hremoves, if_neg hfailed, hsome, hlook, hremove, if_true, ne_eq,
        not_false_eq_true, true_and, implies_true, and_self]

/-- A rollback leaves what was there or what it brings back, unless it is cut off at the
wrong place. -/
theorem rollback_keeps (self : Self) (trial : Trial) (before : Binaries) :
    Kept before (trial.run 0 self.rollback before).2 self.path (before (previousPath self.path)) ↔
      ¬ (self.unresolved = none ∧ RollbackLoses trial before self.path) := by
  cases hresolved : self.unresolved with
  | some error =>
    have hprogram : self.rollback
        = .fail (.io s!"resolve current executable: {error.text}") := by
      rw [Self.rollback, Self.currentExe, hresolved]
      rfl
    rw [hprogram, Trial.run_fail]
    exact iff_of_true (.inl rfl) (by simp)
  | none =>
    have hprogram : self.rollback = binaryExists (previousPath self.path) >>= fun found =>
        if found then
          clear (failedPath self.path) >>= fun _ =>
            swap (previousPath self.path) self.path (failedPath self.path)
        else .fail (.notFound s!"no previous binary at {(previousPath self.path).display}") := by
      rw [Self.rollback, Self.currentExe, hresolved]
      rfl
    simp only [true_and]
    rw [hprogram]
    by_cases hcalls : trial.calls ≤ 0
    · rw [Trial.run_exists_early hcalls]
      refine iff_of_true (.inl rfl) fun h => ?_
      have := h.calls
      omega
    · rw [Trial.run_exists (by omega)]
      by_cases hlook : (before (previousPath self.path)).isSome ∧ trial.failing ≠ some 0
      · obtain ⟨hsome, hlook⟩ := hlook
        simp only [hsome, hlook, ne_eq, not_false_eq_true, and_self, decide_true, if_true]
        have hswap : swap (previousPath self.path) self.path (failedPath self.path)
            = (swap (previousPath self.path) self.path (failedPath self.path) >>= fun _ => .done ()) :=
          (Program.bind_done _).symm
        rw [hswap]
        exact kept_way_back trial hsome hlook
      · rw [decide_eq_false hlook]
        refine iff_of_true (.inl ?_) fun h => hlook ⟨h.1, h.2.2.1⟩
        rw [if_neg (by simp), Trial.run_fail]

theorem rollback_eq {self : Self} (h : self.unresolved = none) :
    self.rollback = binaryExists (previousPath self.path) >>= fun found =>
      if found then
        clear (failedPath self.path) >>= fun _ =>
          swap (previousPath self.path) self.path (failedPath self.path) >>= fun _ => .done ()
      else .fail (.notFound s!"no previous binary at {(previousPath self.path).display}") := by
  have hswap : (swap (previousPath self.path) self.path (failedPath self.path) >>= fun _ => .done ())
      = swap (previousPath self.path) self.path (failedPath self.path) := Program.bind_done _
  rw [hswap, Self.rollback, Self.currentExe, h]
  rfl

/-- With every call granted a rollback puts the former binary back. -/
theorem rollback_restores {self : Self} (h : self.unresolved = none)
    (hcurrent : (before self.path).isSome) (hprevious : (before (previousPath self.path)).isSome)
    (hsame : previousPath self.path ≠ self.path) (hfailed : failedPath self.path ≠ self.path) :
    (Trial.run { calls := 6 } 0 self.rollback before).1 = some (.ok ()) ∧
      (Trial.run { calls := 6 } 0 self.rollback before).2 self.path
        = before (previousPath self.path) := by
  have hplaces : ∀ (start : Nat) (middle : Binaries), start ≤ 4 → (middle self.path).isSome →
      middle (previousPath self.path) = before (previousPath self.path) →
      (Trial.run { calls := 6 } start (swap (previousPath self.path) self.path
        (failedPath self.path) >>= fun _ => .done ()) middle).1 = some (.ok ()) ∧
      (Trial.run { calls := 6 } start (swap (previousPath self.path) self.path
        (failedPath self.path) >>= fun _ => .done ()) middle).2 self.path
        = before (previousPath self.path) := by
    intro start middle hstart hfound hmiddle
    have hends := run_swap { calls := 6 } start () (hmiddle ▸ hprevious) hsame
      (failedPath_ne_previousPath self.path).symm hfailed
    generalize Trial.run { calls := 6 } start (swap (previousPath self.path) self.path
      (failedPath self.path) >>= fun _ => .done ()) middle = ended at hends ⊢
    obtain ⟨result, after⟩ := ended
    dsimp only at hends ⊢
    cases hends with
    | early hcalls => exact absurd hcalls (by dsimp only; omega)
    | refused hcalls hfails error =>
      rcases hfails with hnone | hfails
      · simp [hnone] at hfound
      · cases hfails
    | between hfound hfirst hcalls _ hgone =>
      rcases hcalls with hcalls | ⟨hfails, -⟩
      · dsimp only at hcalls
        omega
      · cases hfails
    | undone hfound hsecond hcalls error _ hback => cases hsecond
    | placed hfound hfirst hsecond hcalls _ hplaced => exact ⟨rfl, hplaced.trans hmiddle⟩
  rw [rollback_eq h, Trial.run_exists (by decide)]
  simp only [hprevious, ne_eq, not_false_eq_true, and_self, decide_true, if_true, reduceCtorEq]
  have hends := run_clear { calls := 6 } 1 (failedPath self.path) before
    (swap (previousPath self.path) self.path (failedPath self.path) >>= fun _ => .done ())
  generalize Trial.run { calls := 6 } 1 (clear (failedPath self.path) >>= fun _ =>
    swap (previousPath self.path) self.path (failedPath self.path) >>= fun _ => .done ()) before
    = ended at hends ⊢
  obtain ⟨result, after⟩ := ended
  dsimp only at hends ⊢
  cases hends with
  | early hcalls => exact absurd hcalls (by decide)
  | untouched hfound hfirst hcalls => exact absurd hcalls (by decide)
  | kept hfound hfails hcalls error => cases hfails
  | absent hcalls habsent => exact hplaces 2 before (by decide) hcurrent rfl
  | removed hfound hfirst hremove hcalls =>
    have hkept : ∀ other ≠ failedPath self.path,
        before.put (failedPath self.path) none other = before other :=
      fun other hother => Binaries.put_other hother _
    have hother := hkept self.path hfailed.symm
    exact hplaces 3 _ (by decide) (hother ▸ hcurrent)
      (hkept _ (failedPath_ne_previousPath _).symm)

/-- Where one of the other two names is the program's own, there is no way back. -/
theorem rollback_fails {self : Self} (h : self.unresolved = none) (trial : Trial)
    (hcurrent : (before self.path).isSome) (hfailing : trial.failing = none)
    (hsame : previousPath self.path = self.path ∨ failedPath self.path = self.path) :
    (trial.run 0 self.rollback before).1 ≠ some (.ok ()) := by
  rw [rollback_eq h]
  by_cases hcalls : trial.calls ≤ 0
  · rw [Trial.run_exists_early hcalls]
    simp
  · rw [Trial.run_exists (by omega)]
    split
    · have hends := run_clear trial (0 + 1) (failedPath self.path) before
        (swap (previousPath self.path) self.path (failedPath self.path) >>= fun _ => .done ())
      generalize trial.run (0 + 1) (clear (failedPath self.path) >>= fun _ =>
        swap (previousPath self.path) self.path (failedPath self.path) >>= fun _ => .done ()) before
        = ended at hends ⊢
      obtain ⟨result, after⟩ := ended
      dsimp only at hends ⊢
      by_cases hfailed : failedPath self.path = self.path
      · cases hends with
        | early hcalls => simp
        | untouched hfound hfirst hcalls => simp
        | kept hfound hfails hcalls error => simp
        | absent hcalls habsent =>
          rw [hfailed, hfailing] at habsent
          simp only [reduceCtorEq, or_false] at habsent
          simp [habsent] at hcurrent
        | removed hfound hfirst hremove hcalls =>
          have hnone : before.put (failedPath self.path) none self.path = none := by
            rw [hfailed, Binaries.put_same]
          rcases (run_swap_absent trial (0 + 1 + 2) (previousPath self.path) (failedPath self.path) ()
            hnone).1 with hresult | ⟨error, hresult⟩
          · simp [hresult]
          · simp [hresult]
      · have hprevious := hsame.resolve_right hfailed
        rw [hprevious] at hends
        cases hends with
        | early hcalls => simp
        | untouched hfound hfirst hcalls => simp
        | kept hfound hfails hcalls error => simp
        | absent hcalls habsent => exact (run_swap_itself trial _ () hfailed hcurrent).1
        | removed hfound hfirst hremove hcalls =>
          have hkept : before.put (failedPath self.path) none self.path = before self.path :=
            Binaries.put_other (Ne.symm hfailed) _
          exact (run_swap_itself trial _ () hfailed (hkept ▸ hcurrent)).1
    · simp

theorem InstallLoses.calls (h : InstallLoses trial before current) : 4 ≤ trial.calls := by
  obtain ⟨-, -, -, hkind⟩ := h
  by_cases hsame : previousPath current = current
  · simp only [hsame, if_true] at hkind
    grind
  · simp only [hsame, if_false] at hkind
    grind

/-- Without an end, or with an error and nothing changed, nothing is lost. -/
theorem installed_unchanged {self : Self} {new : Option Binary} {result : Option (Except LiveError String)}
    {after : Binaries} (hresult : result = none ∨ ∃ error, result = some (.error error))
    (hcurrent : after self.path = before self.path)
    (hprevious : after (previousPath self.path) = before (previousPath self.path)) :
    Installed self new before result after := by
  refine ⟨.inl hcurrent, fun _ _ => ⟨hcurrent, hprevious⟩, fun version hdone => ?_⟩
  rcases hresult with hnone | ⟨error, herror⟩
  · simp [hnone] at hdone
  · simp [herror] at hdone

section
variable {self : Self} {new : Binary} {middle : Binaries} {version : String} {removes : Prop}
  [Decidable removes]

/-- What moving the new file into place comes to. `removes` tells that a file of the former
update has been taken away. -/
theorem installed_swap (hself : self.unresolved = none) (trial : Trial)
    (hnew : middle (self.temporary self.path) = some new)
    (hcurrent : middle self.path = before self.path)
    (hprevious : middle (previousPath self.path)
      = if removes then none else before (previousPath self.path))
    (hremoves : removes → (before (previousPath self.path)).isSome)
    (hkept : ¬ removes → before (previousPath self.path) = none ∨ trial.failing = some 2)
    (hstart : 3 ≤ start) (hsame : previousPath self.path ≠ self.path) :
    Installed self (some new) before
        (trial.run start (swap (self.temporary self.path) self.path (previousPath self.path) >>=
          fun _ => .done version) middle).1
        (trial.run start (swap (self.temporary self.path) self.path (previousPath self.path) >>=
          fun _ => .done version) middle).2 ↔
      ¬ (if (before self.path).isSome ∧ trial.failing ≠ some start then
          trial.calls = start + 1 ∨
          if trial.failing = some (start + 1) then
            trial.calls = start + 2 ∨ start + 2 < trial.calls ∧ removes
          else failedPath self.path = self.path ∧ start + 2 ≤ trial.calls
        else removes ∧ start < trial.calls) := by
  have hsource : (middle (self.temporary self.path)).isSome := by rw [hnew]; rfl
  have hends := run_swap trial start version hsource (temporary_ne self self.path)
    (temporary_ne_previous self self.path) hsame
  generalize trial.run start (swap (self.temporary self.path) self.path (previousPath self.path) >>=
    fun _ => .done version) middle = ended at hends ⊢
  obtain ⟨result, after⟩ := ended
  dsimp only at hends ⊢
  cases hends with
  | early hcalls =>
    refine iff_of_true ⟨.inl hcurrent, by simp, by simp⟩ fun h => ?_
    split at h
    · split at h <;> omega
    · omega
  | refused hcalls hfails error =>
    have hnot : ¬ ((before self.path).isSome ∧ trial.failing ≠ some start) := by
      rcases hfails with hnone | hfails
      · simp [← hcurrent, hnone]
      · simp [hfails]
    rw [if_neg hnot]
    by_cases hgone : removes
    · refine iff_of_false (fun h => ?_) (not_not.mpr ⟨hgone, hcalls⟩)
      have hback := (h.failed error rfl).2
      rw [hprevious, if_pos hgone] at hback
      have hsome := hremoves hgone
      rw [← hback] at hsome
      cases hsome
    · rw [if_neg hgone] at hprevious
      exact iff_of_true (installed_unchanged (.inr ⟨_, rfl⟩) hcurrent hprevious) fun h => hgone h.1
  | between hfound hfirst hcalls _ hgone =>
    have hsome : (before self.path).isSome := hcurrent ▸ hfound
    rw [if_pos ⟨hsome, hfirst⟩]
    refine iff_of_false (fun h => ?_) (not_not.mpr ?_)
    · rcases h.kept with hkept | ⟨binary, -, hkept⟩
      · rw [← hkept, hgone] at hsome
        cases hsome
      · rw [hgone] at hkept
        cases hkept
    · rcases hcalls with hcalls | ⟨hsecond, hcalls⟩
      · exact .inl hcalls
      · right
        rw [if_pos hsecond]
        exact .inl hcalls
  | undone hfound hsecond hcalls error _ hback hnone =>
    have hfirst : trial.failing ≠ some start := by simp [hsecond]
    rw [if_pos ⟨hcurrent ▸ hfound, hfirst⟩, if_pos hsecond]
    by_cases hgone : removes
    · refine iff_of_false (fun h => ?_) (not_not.mpr (.inr (.inr ⟨hcalls, hgone⟩)))
      have hsome := hremoves hgone
      rw [← (h.failed error rfl).2, hnone] at hsome
      cases hsome
    · have hfailing : trial.failing ≠ some 2 := by
        rw [hsecond]
        simp
        omega
      have hbefore := (hkept hgone).resolve_right hfailing
      refine iff_of_true (installed_unchanged (.inr ⟨_, rfl⟩) (hback.trans hcurrent)
        (hnone.trans hbefore.symm)) fun h => ?_
      rcases h with h | h | h
      · omega
      · omega
      · exact hgone h.2
  | placed hfound hfirst hsecond hcalls _ hplaced haside =>
    have hsome : (before self.path).isSome := hcurrent ▸ hfound
    have hafter : (after self.path).isSome := by rw [hplaced, hnew]; rfl
    have hold : after (previousPath self.path) = before self.path := haside.trans hcurrent
    rw [if_pos ⟨hsome, hfirst⟩, if_neg hsecond]
    by_cases hfailed : failedPath self.path = self.path
    · refine iff_of_false (fun h => ?_) (not_not.mpr (.inr ⟨hfailed, hcalls⟩))
      obtain ⟨-, calls, hok, -⟩ := h.done version rfl
      exact rollback_fails hself { calls } hafter rfl (.inr hfailed) hok
    · obtain ⟨hok, hback⟩ := rollback_restores hself hafter (hold ▸ hsome) hsame hfailed
      refine iff_of_true ⟨.inr ⟨new, rfl, hplaced.trans hnew⟩, by simp, fun _ _ => ?_⟩ fun h => ?_
      · exact ⟨hold, 6, hok, hback.trans hold⟩
      · rcases h with h | h
        · omega
        · exact hfailed h.1

/-- A program under the name of its former version that is not cleared away: it is moved onto
itself, and there is no former version to go back to. -/
theorem installed_over (hself : self.unresolved = none) (trial : Trial)
    (hwrite : trial.failing ≠ some 0) (hmode : trial.failing ≠ some 1)
    (hnew : middle (self.temporary self.path) = some new)
    (hcurrent : middle self.path = before self.path)
    (hsame : previousPath self.path = self.path)
    (habsent : before self.path = none ∨ trial.failing = some 2) :
    Installed self (some new) before
        (trial.run 3 (swap (self.temporary self.path) self.path self.path >>=
          fun _ => .done version) middle).1
        (trial.run 3 (swap (self.temporary self.path) self.path self.path >>=
          fun _ => .done version) middle).2 ↔
      ¬ InstallLoses trial before self.path := by
  have hprevious : middle (previousPath self.path) = before (previousPath self.path) := by
    rw [hsame]
    exact hcurrent
  by_cases hnone : before self.path = none
  · obtain ⟨hresult, hafter⟩ := run_swap_absent trial 3 (self.temporary self.path) self.path version
      (hcurrent.trans hnone)
    rw [hafter]
    refine iff_of_true (installed_unchanged hresult hcurrent hprevious) fun h => ?_
    simp [InstallLoses, hsame, hnone] at h
  · have hfailing := habsent.resolve_left hnone
    have hsome : (before self.path).isSome := Option.isSome_iff_ne_none.mpr hnone
    have hfirst : trial.failing ≠ some 3 := by simp [hfailing]
    have hsecond : trial.failing ≠ some (3 + 1) := by simp [hfailing]
    have hloses : InstallLoses trial before self.path ↔ 5 ≤ trial.calls := by
      simp [InstallLoses, hsame, hsome, hfailing]
    rw [hloses]
    rcases run_swap_over trial 3 version (by rw [hnew]; rfl) (temporary_ne self self.path)
      (hcurrent ▸ hsome) hfirst hsecond with ⟨hcalls, hresult, hkept⟩ | ⟨hcalls, hresult, hplaced⟩
    · refine iff_of_true ?_ (by omega)
      have hback := hkept.trans hcurrent
      exact installed_unchanged (.inl hresult) hback (by rw [hsame]; exact hback)
    · refine iff_of_false (fun h => ?_) (by omega)
      have hafter := (hplaced.trans hnew).symm
      obtain ⟨-, calls, hok, -⟩ := h.done version hresult
      exact rollback_fails hself { calls } (by rw [← hafter]; rfl) rfl (.inl hsame) hok

/-- From where the new file is ready. -/
theorem installed_ready (hself : self.unresolved = none) (trial : Trial) (hcalls : 1 < trial.calls)
    (hwrite : trial.failing ≠ some 0) (hmode : trial.failing ≠ some 1) :
    Installed self (some new) before
        (trial.run 2 (clear (previousPath self.path) >>= fun _ =>
          swap (self.temporary self.path) self.path (previousPath self.path) >>=
          fun _ => .done version) (before.put (self.temporary self.path) (some new))).1
        (trial.run 2 (clear (previousPath self.path) >>= fun _ =>
          swap (self.temporary self.path) self.path (previousPath self.path) >>=
          fun _ => .done version) (before.put (self.temporary self.path) (some new))).2 ↔
      ¬ InstallLoses trial before self.path := by
  have hcurrent : before.put (self.temporary self.path) (some new) self.path = before self.path :=
    Binaries.put_other (temporary_ne self self.path).symm _
  have hprevious : before.put (self.temporary self.path) (some new) (previousPath self.path)
      = before (previousPath self.path) :=
    Binaries.put_other (temporary_ne_previous self self.path).symm _
  have hends := run_clear trial 2 (previousPath self.path)
    (before.put (self.temporary self.path) (some new))
    (swap (self.temporary self.path) self.path (previousPath self.path) >>= fun _ => .done version)
  generalize trial.run 2 (clear (previousPath self.path) >>= fun _ =>
    swap (self.temporary self.path) self.path (previousPath self.path) >>= fun _ => .done version)
    (before.put (self.temporary self.path) (some new)) = ended at hends ⊢
  obtain ⟨result, after⟩ := ended
  dsimp only at hends ⊢
  cases hends with
  | early hcalls =>
    refine iff_of_true (installed_unchanged (.inl rfl) hcurrent hprevious) fun h => ?_
    have := h.calls
    omega
  | untouched hfound hlook hcalls =>
    refine iff_of_true (installed_unchanged (.inl rfl) hcurrent hprevious) fun h => ?_
    have := h.calls
    omega
  | kept hfound hfails hcalls error =>
    have hlook : trial.failing ≠ some 2 := by simp [hfails]
    exact iff_of_true (installed_unchanged (.inr ⟨_, rfl⟩) hcurrent hprevious)
      fun h => h.2.2.1 ⟨hprevious ▸ hfound, hlook⟩ hfails
  | absent hcalls habsent =>
    rw [hprevious] at habsent
    have hremoves : ¬ ((before (previousPath self.path)).isSome ∧ trial.failing ≠ some 2) := by
      rcases habsent with habsent | habsent <;> simp [habsent]
    by_cases hsame : previousPath self.path = self.path
    · rw [hsame] at habsent ⊢
      exact installed_over hself trial hwrite hmode (Binaries.put_same ..) hcurrent hsame habsent
    · rw [@installed_swap _ _ _ _ _ _ False _ hself trial (Binaries.put_same ..) hcurrent
        (by rw [if_neg not_false]; exact hprevious) False.elim (fun _ => habsent) (by omega) hsame]
      simp only [InstallLoses, hremoves, if_neg hsame, hwrite, hmode, if_false, ne_eq,
        not_false_eq_true, true_and, false_implies]
  | removed hfound hlook hremove hcalls =>
    rw [hprevious] at hfound
    have hremoves : (before (previousPath self.path)).isSome ∧ trial.failing ≠ some 2 :=
      ⟨hfound, hlook⟩
    have hother : ∀ other ≠ previousPath self.path,
        (before.put (self.temporary self.path) (some new)).put (previousPath self.path) none other
          = before.put (self.temporary self.path) (some new) other :=
      fun other hne => Binaries.put_other hne _
    by_cases hsame : previousPath self.path = self.path
    · rw [hsame] at hfound hremoves ⊢
      have hloses : InstallLoses trial before self.path := by
        refine ⟨hwrite, hmode, fun _ => hremove, ?_⟩
        rw [if_pos hsame, hsame, if_pos hremoves]
        exact ⟨hfound, by omega⟩
      have hnone : (before.put (self.temporary self.path) (some new)).put self.path none self.path
          = none := Binaries.put_same ..
      refine iff_of_false (fun h => ?_) (not_not.mpr hloses)
      have hkept := h.kept
      rw [(run_swap_absent trial _ _ _ _ hnone).2, Kept, hnone] at hkept
      rcases hkept with hkept | ⟨binary, -, hkept⟩
      · rw [← hkept] at hfound
        cases hfound
      · cases hkept
    · have hnew := (hother _ (temporary_ne_previous self self.path)).trans (Binaries.put_same ..)
      have hstays := (hother _ (Ne.symm hsame)).trans hcurrent
      rw [@installed_swap _ _ _ _ _ _ True _ hself trial hnew hstays
        (by rw [if_pos trivial, Binaries.put_same]) (fun _ => hfound) (fun h => absurd trivial h)
        (by omega) hsame]
      simp only [InstallLoses, hremoves, if_neg hsame, hwrite, hmode, hremove, if_true, ne_eq,
        not_false_eq_true, true_and, implies_true, and_self]

end

/-- What the update is to put in place. -/
def Release.new (release : Release) : Option Binary :=
  release.fetch.toOption.map fun fetched => ⟨fetched.2, 0o755⟩

/-- An install that finds an update leaves what it should unless it is cut off or fails at
the wrong place. -/
theorem install_keeps (release : Release) (self : Self) (trial : Trial) (before : Binaries) :
    Installed self release.new before (trial.run 0 (release.install self) before).1
        (trial.run 0 (release.install self) before).2 ↔
      ¬ (release.fetch.isOk ∧ self.unresolved = none ∧ InstallLoses trial before self.path) := by
  cases hfetch : release.fetch with
  | error error =>
    have hprogram : release.install self = .fail error := by
      rw [Release.install, hfetch]
      rfl
    rw [hprogram, Trial.run_fail]
    refine iff_of_true (installed_unchanged (.inr ⟨error, rfl⟩) rfl rfl) fun h => ?_
    cases h.1
  | ok fetched =>
    obtain ⟨version, bytes⟩ := fetched
    have hprogram : release.install self
        = self.replaceCurrentBinary bytes >>= fun _ => .done version := by
      rw [Release.install, hfetch]
      rfl
    have hnew : release.new = some ⟨bytes, 0o755⟩ := by
      rw [Release.new, hfetch]
      rfl
    rw [hprogram, hnew]
    cases hresolved : self.unresolved with
    | some error =>
      have hreplace : self.replaceCurrentBinary bytes
          = .fail (.io s!"resolve current executable: {error.text}") := by
        rw [Self.replaceCurrentBinary, Self.currentExe, hresolved]
        rfl
      rw [hreplace, Program.fail_bind, Trial.run_fail]
      refine iff_of_true (installed_unchanged (.inr ⟨_, rfl⟩) rfl rfl) fun h => ?_
      cases h.2.1
    | none =>
      have hreplace : (self.replaceCurrentBinary bytes >>= fun _ => .done version)
          = (orFail (.write (self.temporary self.path) bytes) (self.temporary self.path) >>= fun _ =>
            orFail (.setPermissions (self.temporary self.path) 0o755) (self.temporary self.path) >>=
            fun _ => clear (previousPath self.path) >>= fun _ =>
              swap (self.temporary self.path) self.path (previousPath self.path) >>= fun _ =>
              .done version) := by
        rw [Self.replaceCurrentBinary, Self.currentExe, hresolved]
        simp only [Program.done_bind, Program.bind_assoc]
      rw [hreplace]
      have hready := @run_prepare before self.path _ trial self bytes
        (clear (previousPath self.path) >>= fun _ =>
          swap (self.temporary self.path) self.path (previousPath self.path) >>= fun _ =>
          .done version)
      rcases hready with ⟨hends, hresult, hother⟩ | ⟨hcalls, hwrite, hmode, hrun⟩
      · have hcurrent := hother _ (temporary_ne self self.path).symm
        have hprevious := hother _ (temporary_ne_previous self self.path).symm
        refine iff_of_true (installed_unchanged hresult hcurrent hprevious) fun h => ?_
        have hcalls := h.2.2.calls
        rcases hends with hends | hends | hends
        · omega
        · exact h.2.2.1 hends
        · exact h.2.2.2.1 hends
      · rw [hrun, installed_ready hresolved trial hcalls hwrite hmode]
        simp [Except.isOk, Except.toBool]

/-- An update and its rollback leave a program at the path, and lose no former one that they
should keep, just where the trial is not one of the kinds that lose it. -/
theorem update_runnable (release : Release) (self : Self) (trial : Trial) (before : Binaries) :
    (Installed self release.new before (trial.run 0 (release.install self) before).1
        (trial.run 0 (release.install self) before).2 ↔
      ¬ (release.fetch.isOk ∧ self.unresolved = none ∧ InstallLoses trial before self.path)) ∧
    (Kept before (trial.run 0 self.rollback before).2 self.path (before (previousPath self.path)) ↔
      ¬ (self.unresolved = none ∧ RollbackLoses trial before self.path)) :=
  ⟨install_keeps release self trial before, rollback_keeps self trial before⟩

end

def ownProgram : Self := { path := ⟨["bin"], "hologram"⟩, pid := 7 }

def newerRelease : Release where
  manifestUrl := some "https://updates.example.com"
  channel := "stable"
  targetKey := "x86_64-unknown-linux-gnu"
  manifest _ := .ok ⟨1, "0.2.0", "stable", 1, 1,
    [("x86_64-unknown-linux-gnu", ⟨"https://updates.example.com/hologram", "blake3:00", 1⟩)]⟩
  download _ := .ok [2]
  digest _ := "blake3:00"
  debug text := text

/-- The program with its former version. -/
def twoVersions : Binaries :=
  (Binaries.put (fun _ => none) ownProgram.path (some ⟨[1], 0o755⟩)).put
    (previousPath ownProgram.path) (some ⟨[0], 0o755⟩)

/-- A process that dies between the renames leaves no program, and a rename that fails leaves
no former version. -/
theorem binary_lost :
    (¬ Installed ownProgram newerRelease.new twoVersions
      (Trial.run { calls := 5 } 0 (newerRelease.install ownProgram) twoVersions).1
      (Trial.run { calls := 5 } 0 (newerRelease.install ownProgram) twoVersions).2) ∧
    (¬ Installed ownProgram newerRelease.new twoVersions
      (Trial.run { failing := some 5, calls := 9 } 0 (newerRelease.install ownProgram) twoVersions).1
      (Trial.run { failing := some 5, calls := 9 } 0 (newerRelease.install ownProgram) twoVersions).2) ∧
    ¬ Kept twoVersions (Trial.run { calls := 3 } 0 ownProgram.rollback twoVersions).2
      ownProgram.path (twoVersions (previousPath ownProgram.path)) := by
  refine ⟨fun h => ?_, fun h => ?_, fun h => ?_⟩
  · have hnone : (Trial.run { calls := 5 } 0 (newerRelease.install ownProgram) twoVersions).2
        ownProgram.path = none := by decide
    rcases h.kept with hkept | ⟨binary, -, hkept⟩
    · rw [hnone] at hkept
      exact absurd hkept (by decide)
    · rw [hnone] at hkept
      cases hkept
  · have herror : (Trial.run { failing := some 5, calls := 9 } 0 (newerRelease.install ownProgram)
        twoVersions).1 = some (.error (ioError ownProgram.path.display missing)) := by decide
    exact absurd (h.failed _ herror).2 (by decide)
  · have hnone : (Trial.run { calls := 3 } 0 ownProgram.rollback twoVersions).2
        ownProgram.path = none := by decide
    rcases h with hkept | ⟨binary, -, hkept⟩
    · rw [hnone] at hkept
      exact absurd hkept (by decide)
    · rw [hnone] at hkept
      cases hkept

end HologramLive.Update
