import HologramLive.Store.Records

namespace HologramLive.Store
open Lib Lib.Atomic Lib.Files

/-- What a method does with the records of a directory. -/
inductive Role (ρ : Type) where
  | idle
  | reader (key : String)
  | lister
  | remover (key : String)
  /-- Rewrites the record it finds, unless it quits over it. -/
  | writer (key : String) (quits : Option ρ → Bool)
  | creator (key : String)
  /-- Puts a file beside the records. -/
  | keeper (path : Path)

namespace Role
variable {ρ : Type}

/-- The record that a method counts on. -/
def own : Role ρ → Phase → Option String
  | .writer key _, .counting => some key
  | _, _ => none

def updates : Role ρ → Bool
  | .writer _ _ | .creator _ | .keeper _ => true
  | _ => false

/-- The record that a method stores. -/
def target : Role ρ → Option String
  | .writer key _ | .creator key => some key
  | _ => none

theorem updates_of_target {role : Role ρ} {key : String} (h : role.target = some key) :
    role.updates = true := by
  cases role <;> first | rfl | cases h

end Role

/-- The calls at which an update may take effect. -/
def decides {β : Type} : FileCall β → Bool
  | .read _ | .rename _ _ => true
  | _ => false

/-- The methods over a directory of records. `fresh` says what a creating method may count
on. -/
structure Service {ρ κ θ : Type} (ledger : Ledger ρ κ θ) (ι α : Type) where
  role : ι → Role ρ
  locks : ι → Bool
  body : ι → DirProgram LiveError α
  allows : ι → κ → Except LiveError α → κ → Prop
  apply : ι → List String → κ → Except LiveError α × κ
  fresh : κ → String → Prop

namespace Ledger
variable {ρ κ θ : Type} (ledger : Ledger ρ κ θ)

/-- What reading the file of a record comes to. -/
def reading : Option ρ → Except IoError Contents
  | some record => .ok (ledger.toVecPretty record)
  | none => .error missing

theorem granted_read {ledger : Ledger ρ κ θ} {files : FileSystem} {path : Path} {record : Option ρ}
    (h : files path = record.map ledger.toVecPretty) :
    files.granted (.read path) = (ledger.reading record, files) := by
  simp only [FileSystem.granted, h]
  cases record with
  | none => rfl
  | some record => rfl

/-- A record that is known is not away. -/
def Present (key : String) (files : FileSystem) (known : κ) : Prop :=
  (ledger.find known key).isSome → (files (ledger.path key)).isSome

/-- The step by which a method takes effect. -/
def commits : Role ρ → ∀ {β : Type}, DirCall β → FileSystem → Bool
  | .reader _, _, .left (.read _), _ => true
  | .lister, _, .right (.readDir _), _ => true
  | .remover _, _, .left (.metadata path), files => (files path).isNone
  | .remover _, _, .left (.removeFile _), _ => true
  | .writer _ quits, _, .left (.read path), files =>
    quits ((files path).bind fun bytes => (ledger.fromSlice bytes).toOption)
  | .writer key _, _, .left (.rename _ target), _ => target = ledger.path key
  | .creator key, _, .left (.rename _ target), _ => target = ledger.path key
  | .keeper path, _, .left (.rename _ target), _ => target = path
  | _, _, _, _ => false

def marks : Role ρ → ∀ {β : Type}, DirCall β → Bool
  | .writer _ _, _, .left (.read _) => true
  | _, _, _ => false

/-- When a method's step finds what the method counts on. A record is found unless it is
away; a list finds the records as they were when it read the directory; a record that is
removed is there, and nobody is rewriting it; a record that is created is new. -/
def permits (fresh : κ → String → Prop) : Role ρ → ∀ {β : Type}, DirCall β → List String →
    FileSystem → κ → Option String → Option κ → Prop
  | .reader key, _, .left (.read _), _, files, known, _, _ => ledger.Present key files known
  | .lister, _, .right (.readDir directory), names, files, known, _, _ =>
    Lists files directory names ∧ ∀ digest, ValidDigest digest → ledger.Present digest files known
  | .lister, _, .left (.read path), _, files, _, _, some seen => ∀ digest, path = ledger.path digest →
    files path = (ledger.find seen digest).map ledger.toVecPretty
  | .remover key, _, .left (.metadata _), _, files, known, _, _ => ledger.Present key files known
  | .remover key, _, .left (.removeFile path), _, files, _, own, _ =>
    (files path).isSome ∧ own ≠ some key
  | .creator key, _, _, _, _, known, _, _ => ledger.find known key = none ∧ fresh known key
  | _, _, _, _, _, _, _, _ => True

/-- The other calls of an update are on its way. -/
theorem quiet {ledger : Ledger ρ κ θ} {role : Role ρ} (hrole : role.updates = true) {β : Type}
    {operation : FileCall β} (h : decides operation = false) (files : FileSystem) :
    ledger.commits role (.left operation) files = false ∧ marks role (.left operation) = false := by
  cases role <;> cases operation <;> simp_all [Role.updates, decides, commits, marks]

theorem commits_target {ledger : Ledger ρ κ θ} {role : Role ρ} {key : String}
    (h : role.target = some key) (source : Path) (files : FileSystem) :
    ledger.commits role (.left (.rename source (ledger.path key))) files = true := by
  cases role <;> simp_all [Role.target, commits]

end Ledger

namespace Service
variable {ρ κ θ ι α : Type} {ledger : Ledger ρ κ θ} (service : Service ledger ι α)

def object : Object DirCall LiveError ι α FileSystem κ (List String) where
  serve := serveDir
  locks := service.locks
  body := service.body
  allows := service.allows
  commits := fun method => ledger.commits (service.role method)
  apply := service.apply
  marks := fun method => Ledger.marks (service.role method)

def discipline : Discipline DirCall ι FileSystem κ (List String) where
  permits := fun method _ operation names files known holding seen =>
    ledger.permits service.fresh (service.role method) operation names files known
      (holding.bind fun held => (service.role held.1).own held.2) seen
  view := fun files known => ∃ away, ledger.Kept away files known
  rest := fun files known => ledger.Kept none files known ∧ ledger.apart files (ledger.aside known)
  relies := fun method phase => ledger.Spared ((service.role method).own phase)

/-- What a method under the lock counts on. -/
def counts (method : ι) (counting : Bool) : Option String :=
  (service.role method).own (unsettled counting)

/-- The rest of a method under the lock, over files alone. -/
@[irreducible] def Runs (method : ι) (counting : Bool) (program : FileProgram LiveError α)
    (point : FileSystem × κ) : Prop :=
  Locked service.object service.discipline method counting (program.translate .left) point

/-- What a step of a method under the lock may count on. -/
def Allowed (method : ι) (counting : Bool) {β : Type} (operation : FileCall β)
    (point : FileSystem × κ) : Prop :=
  ∃ names, ledger.permits service.fresh (service.role method) (.left operation) names point.1 point.2
    (service.counts method counting) none

variable {service} {method : ι} {counting : Bool} {point : FileSystem × κ} {answer : α}
  {operation : FileCall (Except IoError β)} {mapErr : IoError → LiveError}

/-- Nothing beside the lock disturbs what is to hold when the lock is free. -/
theorem rest_spared {own : Option String} {before after : FileSystem × κ}
    (h : service.discipline.rest before.1 before.2) (hspared : ledger.Spared own before after) :
    service.discipline.rest after.1 after.2 := by
  refine ⟨hspared.kept none nofun h.1, ?_⟩
  rw [hspared.aside]
  exact ledger.apart_congr _ _ _ (fun path hpath => hspared.outside hpath) h.2

theorem Runs.locked {program : FileProgram LiveError α} (h : service.Runs method counting program point) :
    Locked service.object service.discipline method counting (program.translate .left) point := by
  unfold Runs at h
  exact h

theorem runs_done (h : ∀ later, ledger.Spared (service.counts method counting) point later →
    service.allows method later.2 (.ok answer) later.2 ∧ service.discipline.rest later.1 later.2) :
    service.Runs method counting (.done answer) point := by
  unfold Runs
  exact h

theorem runs_fail {error : LiveError}
    (h : ∀ later, ledger.Spared (service.counts method counting) point later →
      service.allows method later.2 (.error error) later.2 ∧
        service.discipline.rest later.1 later.2) :
    service.Runs method counting (.fail error) point := by
  unfold Runs
  exact h

/-- The step by which a method takes effect ends it: it has only to answer. -/
def Commits (service : Service ledger ι α) (method : ι) {β : Type} (operation : FileCall β)
    (next : β → FileProgram LiveError α) (point : FileSystem × κ) : Prop :=
  ledger.commits (service.role method) (.left operation) point.1 = true ∧
    ∀ names, ∃ answer after, service.apply method names point.2 = (answer, after) ∧
      service.allows method point.2 answer after ∧
      next (point.1.granted operation).1 = .ofExcept answer ∧
      service.discipline.rest (point.1.granted operation).2 after

theorem ends_ofExcept {answer : Except LiveError α} {seen : κ}
    (h : service.discipline.rest point.1 point.2) :
    LockedEnds service.object service.discipline method answer seen
      ((Program.ofExcept answer : FileProgram LiveError α).translate .left) point := by
  cases answer with
  | ok value => exact fun later hlater => ⟨rfl, rest_spared h hlater⟩
  | error error => exact fun later hlater => ⟨rfl, rest_spared h hlater⟩

theorem runs_call {operation : FileCall β} {next : β → FileProgram LiveError α}
    (h : ∀ later, ledger.Spared (service.counts method counting) point later →
      service.Allowed method counting operation later →
      service.Commits method operation next later ∨
      ledger.commits (service.role method) (.left operation) later.1 = false ∧
        service.discipline.view (later.1.granted operation).2 later.2 ∧
        service.Runs method (counting || Ledger.marks (service.role method) (.left operation))
          (next (later.1.granted operation).1) ((later.1.granted operation).2, later.2)) :
    service.Runs method counting (.call operation next) point := by
  unfold Runs at h ⊢
  intro later hlater names hpermits
  change if ledger.commits (service.role method) (.left operation) later.1 then
    service.allows method later.2 (service.apply method names later.2).1
        (service.apply method names later.2).2 ∧
      service.discipline.view (later.1.granted operation).2 (service.apply method names later.2).2 ∧
      LockedEnds service.object service.discipline method (service.apply method names later.2).1
        later.2 ((next (later.1.granted operation).1).translate .left)
        ((later.1.granted operation).2, (service.apply method names later.2).2)
    else _
  rcases h later hlater ⟨names, hpermits⟩ with ⟨hcommits, heffect⟩ | ⟨hquiet, hstep⟩
  · obtain ⟨answer, after, happly, hallows, hnext, hrest⟩ := heffect names
    rw [hcommits, if_pos rfl, happly, hnext]
    exact ⟨hallows, ⟨none, hrest.1⟩, ends_ofExcept hrest⟩
  · rw [hquiet]
    exact hstep

/-- What the first step counts on may be taken for granted from the start. -/
theorem runs_permitted {operation : FileCall β} {next : β → FileProgram LiveError α}
    (h : ∀ later, ledger.Spared (service.counts method counting) point later →
      service.Allowed method counting operation later →
      service.Runs method counting (.call operation next) later) :
    service.Runs method counting (.call operation next) point := by
  unfold Runs at h ⊢
  intro later hlater names hpermits
  exact h later hlater ⟨names, hpermits⟩ later (Ledger.Spared.refl _ _) names hpermits

/-- A step on the way that cannot fail. -/
theorem runs_attempt {operation : FileCall (Except IoError β)} {value : β}
    {mapErr : IoError → LiveError} {rest : β → FileProgram LiveError α}
    (hrole : (service.role method).updates = true) (hoperation : decides operation = false)
    (h : ∀ later, ledger.Spared (service.counts method counting) point later →
      (later.1.granted operation).1 = .ok value ∧
        service.discipline.view (later.1.granted operation).2 later.2 ∧
        service.Runs method counting (rest value) ((later.1.granted operation).2, later.2)) :
    service.Runs method counting (attempt operation mapErr >>= rest) point := by
  rw [attempt_bind]
  refine runs_call fun later hlater _ => .inr ?_
  obtain ⟨hquiet, hmarks⟩ := @Ledger.quiet _ _ _ ledger _ hrole _ _ hoperation later.1
  refine ⟨hquiet, ?_⟩
  obtain ⟨hreply, hview, hruns⟩ := h later hlater
  rw [hreply, hmarks, Bool.or_false]
  exact ⟨hview, hruns⟩

theorem runs_exists {path : Path} {rest : Bool → FileProgram LiveError α}
    (hrole : (service.role method).updates = true)
    (h : ∀ later, ledger.Spared (service.counts method counting) point later →
      service.discipline.view later.1 later.2 ∧
        service.Runs method counting (rest (later.1 path).isSome) later) :
    service.Runs method counting (pathExists path >>= rest) point := by
  rw [pathExists_bind]
  refine runs_call fun later hlater _ => .inr ?_
  obtain ⟨hquiet, hmarks⟩ := @Ledger.quiet _ _ _ ledger _ hrole _ (.metadata path) rfl later.1
  refine ⟨hquiet, ?_⟩
  obtain ⟨hfound, hfiles⟩ := serve_metadata .granted later.1 path
  rw [serve_granted] at hfound hfiles
  rw [hfound, hfiles, hmarks, Bool.or_false]
  exact h later hlater

/-- The part of an update before the new file moves in place: `holds` is kept by what
others do, by scratch work and by the removal of the old file. -/
theorem runs_atomicWrite {holds : FileSystem × κ → Prop} {pid : Nat} {path : Path}
    {bytes : Contents} {rest : Unit → FileProgram LiveError α}
    (hrole : (service.role method).updates = true)
    (hstable : ∀ before after, holds before →
      ledger.Spared (service.counts method counting) before after → holds after)
    (hfile : ∀ before after, holds before →
      ledger.Spared (service.counts method counting) before after → after.1 path = before.1 path)
    (hview : ∀ before, holds before → service.discipline.view before.1 before.2)
    (hscratched : ∀ before, holds before → holds (before.1.write (temporaryFor pid path) bytes, before.2))
    (hremoved : ∀ before, holds before → (before.1 path).isSome → holds (before.1.remove path, before.2))
    (hrest : ∀ before, holds before → before.1 (temporaryFor pid path) = some bytes →
      service.Runs method counting
        (attempt (.rename (temporaryFor pid path) path) (ioError path.display) >>= rest) before)
    (h : holds point) :
    service.Runs method counting (atomicWrite pid path bytes >>= rest) point := by
  have hbody : (atomicWrite pid path bytes >>= rest) =
      (attempt (.createDirAll path.parent) (ioError ("/".intercalate path.parent)) >>= fun _ =>
        attempt (.write (temporaryFor pid path) bytes) (ioError (temporaryFor pid path).display)
          >>= fun _ => pathExists path >>= fun there =>
            if there then attempt (.removeFile path) (ioError path.display) >>= fun _ =>
              attempt (.rename (temporaryFor pid path) path) (ioError path.display) >>= rest
            else attempt (.rename (temporaryFor pid path) path) (ioError path.display) >>= rest) := by
    simp only [atomicWrite, Program.bind_assoc]
    congr 1
    funext _
    congr 1
    funext _
    congr 1
    funext there
    cases there with
    | true => simp only [↓reduceIte, Program.bind_assoc]
    | false => rfl
  rw [hbody]
  refine runs_attempt hrole rfl fun first hfirst => ⟨rfl, ?_⟩
  have hholds := hstable _ _ h hfirst
  refine ⟨hview _ hholds, runs_attempt hrole rfl fun second hsecond => ⟨rfl, ?_⟩⟩
  have hwritten := hscratched _ (hstable _ _ hholds hsecond)
  refine ⟨hview _ hwritten, runs_exists hrole fun third hthird => ?_⟩
  have hthere := hstable _ _ hwritten hthird
  have htemporary : third.1 (temporaryFor pid path) = some bytes := by
    rw [hthird.temporary]
    exact FileSystem.write_same ..
  refine ⟨hview _ hthere, ?_⟩
  cases hfound : (third.1 path).isSome with
  | false => exact hrest _ hthere htemporary
  | true =>
    refine @runs_attempt _ _ _ _ _ _ _ _ _ _ _ _ () _ _ hrole rfl fun fourth hfourth => ?_
    have hlast := hstable _ _ hthere hfourth
    rw [← hfile _ _ hthere hfourth] at hfound
    obtain ⟨old, hold⟩ := Option.isSome_iff_exists.mp hfound
    simp only [FileSystem.granted, hold, true_and]
    have hgone := hremoved _ hlast hfound
    refine ⟨hview _ hgone, hrest _ hgone ?_⟩
    dsimp only
    rw [FileSystem.remove_other (temporaryFor_ne pid path), hfourth.temporary]
    exact htemporary

/-- Where a method has come to that is about to store a record: what it found under the key,
and what is beside the records by then. -/
structure Held (ledger : Ledger ρ κ θ) (beside rewritten : θ) (key : String) (existing : Option ρ)
    (away : Option String) (point : FileSystem × κ) : Prop where
  kept : ledger.Kept away point.1 point.2
  aside : ledger.aside point.2 = beside
  apart : ledger.apart point.1 rewritten
  found : ledger.find point.2 key = existing

variable {beside rewritten : θ} {key : String} {existing : Option ρ} {record : ρ}
  {away own : Option String} {before after : FileSystem × κ}

theorem Held.spared (h : Held ledger beside rewritten key existing away before)
    (hspared : ledger.Spared own before after) (hown : own = some key ∨ existing = none)
    (haway : ∀ digest, away = some digest → own = some digest) :
    Held ledger beside rewritten key existing away after where
  kept := hspared.kept away haway h.kept
  aside := hspared.aside.trans h.aside
  apart := ledger.apart_congr _ _ _ (fun path hpath => hspared.outside hpath) h.apart
  found := by
    rcases hown with hown | rfl
    · exact (hspared.counted key hown).trans h.found
    · exact hspared.absent key h.found

theorem Held.file (h : Held ledger beside rewritten key existing away before)
    (hvalid : ValidDigest key) (haway : away = none ∨ away = some key) :
    before.1 (ledger.path key) =
      if away = none then existing.map ledger.toVecPretty else none := by
  rcases haway with rfl | rfl
  · rw [if_pos rfl, h.kept.file key hvalid nofun, h.found]
  · exact (h.kept.gone key rfl).2

theorem counted_away (h : away = none ∨ away = some key ∧ own = some key) (digest : String)
    (haway : away = some digest) : own = some digest := by
  rcases h with rfl | ⟨rfl, hown⟩
  · cases haway
  · exact hown.trans haway

/-- A record is replaced: it may be away in between, and the new one counts from the moment
it moves in place. -/
theorem runs_replace {pid : Nat} (htarget : (service.role method).target = some key)
    (hvalid : ValidDigest key) (hown : service.counts method counting = some key ∨ existing = none)
    (hcommit : ∀ known names, ledger.aside known = beside → ledger.find known key = existing →
      (service.role method = .creator key → service.fresh known key) →
      ∃ after, service.apply method names known = (.ok answer, after) ∧
        service.allows method known (.ok answer) after ∧
        ledger.records after =
          (key, record) :: (ledger.records known).filter (fun record => record.1 ≠ key) ∧
        ledger.aside after = rewritten)
    (h : Held ledger beside rewritten key existing none point) :
    service.Runs method counting
      (atomicWrite pid (ledger.path key) (ledger.toVecPretty record) >>= fun _ => .done answer)
      point := by
  have hrole := Role.updates_of_target htarget
  apply @runs_atomicWrite _ _ _ _ _ ledger service method counting point fun before =>
    ∃ away, (away = none ∨ away = some key ∧ service.counts method counting = some key) ∧
      Held ledger beside rewritten key existing away before
  case hrole => exact hrole
  case hstable =>
    rintro before after ⟨away, haway, hheld⟩ hspared
    exact ⟨away, haway, hheld.spared hspared hown (counted_away haway)⟩
  case hfile =>
    rintro before after ⟨away, haway, hheld⟩ hspared
    have hplaces : away = none ∨ away = some key := haway.imp_right And.left
    rw [hheld.file hvalid hplaces,
      (hheld.spared hspared hown (counted_away haway)).file hvalid hplaces]
  case hview =>
    rintro before ⟨away, -, hheld⟩
    exact ⟨away, hheld.kept⟩
  case hscratched =>
    rintro before ⟨away, haway, hheld⟩
    refine ⟨away, haway, hheld.kept.scratched _ _ _, hheld.aside, ?_, hheld.found⟩
    refine ledger.apart_congr _ _ _ (fun path hpath => FileSystem.write_other ?_ _) hheld.apart
    rintro rfl
    exact hpath rfl
  case hremoved =>
    rintro before ⟨away, haway, hheld⟩ hthere
    obtain rfl : away = none := by
      rcases haway with rfl | ⟨rfl, -⟩
      · rfl
      · rw [(hheld.kept.gone key rfl).2] at hthere
        cases hthere
    have hcounts : service.counts method counting = some key := by
      rcases hown with hown | rfl
      · exact hown
      · rw [hheld.file hvalid (.inl rfl)] at hthere
        cases hthere
    refine ⟨some key, .inr ⟨rfl, hcounts⟩, hheld.kept.removed hvalid, hheld.aside, ?_, hheld.found⟩
    refine ledger.apart_congr _ _ _ (fun path hpath => FileSystem.remove_other ?_) hheld.apart
    rintro rfl
    exact hpath rfl
  case hrest =>
    rintro before ⟨away, haway, hheld⟩ htemporary
    rw [attempt_bind]
    refine runs_call fun later hlater hallowed => .inl ?_
    have hlast := hheld.spared hlater hown (counted_away haway)
    rw [← hlater.temporary] at htemporary
    refine ⟨Ledger.commits_target htarget _ _, fun names => ?_⟩
    · obtain ⟨after, happly, hallows, hrecords, haside⟩ := hcommit later.2 names hlast.aside
        hlast.found (by
          intro hcreator
          obtain ⟨_, hpermits⟩ := hallowed
          rw [hcreator] at hpermits
          exact hpermits.2)
      simp only [FileSystem.granted, htemporary]
      refine ⟨.ok answer, after, happly, hallows, rfl, ?_, ?_⟩
      · exact (hlast.kept.cleared pid _).stored (haway.imp_right And.left) hvalid hrecords
      · rw [haside]
        refine ledger.apart_congr _ _ _ (fun path hpath => ?_) hlast.apart
        have hne : path ≠ ledger.path key ∧ path ≠ temporaryFor pid (ledger.path key) := by
          constructor
          · rintro rfl
            exact hpath rfl
          · rintro rfl
            exact hpath rfl
        rw [FileSystem.write_other hne.1, FileSystem.remove_other hne.2]
  case h => exact ⟨none, .inl rfl, h⟩

/-- A method that rewrites a record reads it first. What it finds then stays as it is. -/
theorem runs_read {quits : Option ρ → Bool} {next : Except IoError Contents → FileProgram LiveError α}
    (hrole : service.role method = .writer key quits) (hvalid : ValidDigest key)
    (hkept : ledger.Kept none point.1 point.2) (haside : ledger.aside point.2 = beside)
    (hapart : ledger.apart point.1 rewritten)
    (hquits : ∀ known names, ledger.aside known = beside →
      quits (ledger.find known key) = true → beside = rewritten ∧ ∃ answer,
        service.apply method names known = (answer, known) ∧
        service.allows method known answer known ∧
        next (ledger.reading (ledger.find known key)) = .ofExcept answer)
    (hgoes : ∀ existing later, quits existing = false →
      Held ledger beside rewritten key existing none later →
      service.Runs method true (next (ledger.reading existing)) later) :
    service.Runs method false (.call (.read (ledger.path key)) next) point := by
  refine runs_call fun later hlater _ => ?_
  have hlast := hlater.kept none nofun hkept
  have hbeside := hlater.aside.trans haside
  have hthere := ledger.apart_congr _ _ _ (fun path hpath => hlater.outside hpath) hapart
  have hfile := hlast.file key hvalid nofun
  have hgranted : later.1.granted (.read (ledger.path key)) =
      (ledger.reading (ledger.find later.2 key), later.1) := Ledger.granted_read hfile
  have hcommits : ledger.commits (service.role method) (.left (.read (ledger.path key))) later.1 =
      quits (ledger.find later.2 key) := by
    rw [hrole]
    simp only [Ledger.commits, hfile]
    cases ledger.find later.2 key with
    | none => rfl
    | some record => simp [ledger.fromSlice_toVecPretty, Except.toOption]
  unfold Commits
  rw [hgranted, hcommits]
  cases hquit : quits (ledger.find later.2 key) with
  | true =>
    refine .inl ⟨rfl, fun names => ?_⟩
    obtain ⟨rfl, answer, happly, hallows, hnext⟩ := hquits later.2 names hbeside hquit
    refine ⟨answer, later.2, happly, hallows, hnext, hlast, ?_⟩
    rw [hbeside]
    exact hthere
  | false =>
    refine .inr ⟨rfl, ⟨none, hlast⟩, ?_⟩
    have hmarks : Ledger.marks (service.role method) (.left (.read (ledger.path key))) = true := by
      rw [hrole]
      rfl
    rw [hmarks]
    exact hgoes _ _ hquit ⟨hlast, hbeside, hthere, rfl⟩

/-! Methods beside the lock. -/

theorem freeEnds_ofExcept {result : Except LiveError α} {seen : κ} :
    FreeEnds service.object service.discipline method result seen
      ((Program.ofExcept result : FileProgram LiveError α).translate .left) := by
  cases result with
  | ok value => rfl
  | error error => rfl

theorem free_ofExcept {result : Except LiveError α}
    (h : ∀ known, service.allows method known result known) :
    Free service.object service.discipline method
      ((Program.ofExcept result : FileProgram LiveError α).translate .left) := by
  cases result with
  | ok value => exact h
  | error error => exact h

/-- Where nothing happens, nobody is disturbed. -/
theorem spares_refl {files : FileSystem} {known : κ} {holding : Option (ι × Phase)}
    (h : service.discipline.view files known) :
    service.discipline.Spares holding (files, known) (files, known) :=
  ⟨h, fun _ => id, fun _ _ _ => Ledger.Spared.refl _ _⟩

theorem view_file {files : FileSystem} {known : κ} (hview : service.discipline.view files known)
    (hvalid : ValidDigest key) (hpresent : ledger.Present key files known) :
    files (ledger.path key) = (ledger.find known key).map ledger.toVecPretty := by
  obtain ⟨away, hkept⟩ := hview
  by_cases haway : away = some key
  · have hgone := (hkept.gone key haway).2
    cases hfind : ledger.find known key with
    | none => exact hgone
    | some record =>
      have := hpresent (by rw [hfind]; rfl)
      rw [hgone] at this
      cases this
  · exact hkept.file key hvalid haway

theorem free_call {operation : DirCall β} {next : β → DirProgram LiveError α}
    (h : ∀ names files known holding, service.discipline.view files known →
      ledger.permits service.fresh (service.role method) operation names files known
        (holding.bind fun held : ι × Phase => (service.role held.1).own held.2) none →
      (ledger.commits (service.role method) operation files = true ∧
        ∃ answer after, service.apply method names known = (answer, after) ∧
          service.allows method known answer after ∧
          service.discipline.Spares holding (files, known) ((serveDir operation names files).2, after) ∧
          FreeEnds service.object service.discipline method answer known
            (next (serveDir operation names files).1)) ∨
      ledger.commits (service.role method) operation files = false ∧
        (serveDir operation names files).2 = files ∧
        Free service.object service.discipline method (next (serveDir operation names files).1)) :
    Free service.object service.discipline method (.call operation next) := by
  intro names files known holding hview hpermits
  change if ledger.commits (service.role method) operation files then
    service.allows method known (service.apply method names known).1
        (service.apply method names known).2 ∧
      service.discipline.Spares holding (files, known)
        ((serveDir operation names files).2, (service.apply method names known).2) ∧
      FreeEnds service.object service.discipline method (service.apply method names known).1 known
        (next (serveDir operation names files).1)
    else _
  rcases h names files known holding hview hpermits with ⟨hcommits, heffect⟩ | ⟨hquiet, hstep⟩
  · obtain ⟨answer, after, happly, heffect⟩ := heffect
    rw [hcommits, if_pos rfl, happly]
    exact heffect
  · rw [hquiet]
    exact hstep

theorem free_read {next : Except IoError Contents → FileProgram LiveError α}
    (hrole : service.role method = .reader key) (hvalid : ValidDigest key)
    (hends : ∀ known names, ∃ answer, service.apply method names known = (answer, known) ∧
      service.allows method known answer known ∧
      next (ledger.reading (ledger.find known key)) = .ofExcept answer) :
    Free service.object service.discipline method
      ((Program.call (.read (ledger.path key)) next : FileProgram LiveError α).translate .left) := by
  refine free_call fun names files known holding hview hpermits => .inl ?_
  rw [hrole] at hpermits ⊢
  obtain ⟨answer, happly, hallows, hnext⟩ := hends known names
  have hserve : serveDir (.left (.read (ledger.path key))) names files =
      (ledger.reading (ledger.find known key), files) :=
    Ledger.granted_read (view_file hview hvalid hpermits)
  rw [hserve, hnext]
  exact ⟨rfl, answer, known, happly, hallows, spares_refl hview, freeEnds_ofExcept⟩

/-- A record that was not there goes without a trace. -/
theorem spares_absent {files : FileSystem} {known : κ} {holding : Option (ι × Phase)}
    (hview : service.discipline.view files known) (habsent : ledger.find known key = none) :
    service.discipline.Spares holding (files, known) (files, ledger.drop known key) := by
  obtain ⟨away, hkept⟩ := hview
  refine ⟨⟨away, hkept.undropped habsent⟩, fun _ hrest => ⟨hrest.1.undropped habsent, ?_⟩,
    fun method phase _ => ⟨fun _ _ => rfl, ledger.aside_drop _ _, fun digest hnone => ?_,
      fun digest _ => ?_, fun _ _ h => h.undropped habsent⟩⟩
  · rw [ledger.aside_drop]
    exact hrest.2
  · rw [Ledger.find_drop, hnone, ite_self]
  · rw [Ledger.find_drop]
    split
    · rename_i heq
      rw [heq, habsent]
    · rfl

/-- A record that goes is none that the holder of the lock counts on. -/
theorem spares_drop {files : FileSystem} {known : κ} {holding : Option (ι × Phase)}
    (hview : service.discipline.view files known) (hvalid : ValidDigest key)
    (hthere : (files (ledger.path key)).isSome)
    (hfree : (holding.bind fun held : ι × Phase => (service.role held.1).own held.2) ≠ some key) :
    service.discipline.Spares holding (files, known)
      (files.remove (ledger.path key), ledger.drop known key) := by
  have hhere : ∀ away, ledger.Kept away files known → away ≠ some key := by
    rintro away hkept rfl
    rw [(hkept.gone key rfl).2] at hthere
    cases hthere
  obtain ⟨away, hkept⟩ := hview
  refine ⟨⟨away, hkept.dropped (hhere away hkept)⟩,
    fun _ hrest => ⟨hrest.1.dropped nofun, ?_⟩, fun method phase hholding =>
      ⟨fun path hpath => FileSystem.remove_other (hpath key hvalid), ledger.aside_drop _ _,
        fun digest hnone => ?_, fun digest hown => ?_,
        fun away _ h => h.dropped (hhere away h)⟩⟩
  · rw [ledger.aside_drop]
    refine ledger.apart_congr _ _ _ (fun path hpath => FileSystem.remove_other ?_) hrest.2
    rintro rfl
    exact hpath rfl
  · rw [Ledger.find_drop, hnone, ite_self]
  · rw [Ledger.find_drop, if_neg]
    rintro rfl
    rw [hholding] at hfree
    exact hfree hown

theorem free_remove {mapErr : IoError → LiveError} (hrole : service.role method = .remover key)
    (hvalid : ValidDigest key)
    (happly : ∀ known names, service.apply method names known = (.ok answer, ledger.drop known key) ∧
      service.allows method known (.ok answer) (ledger.drop known key)) :
    Free service.object service.discipline method
      ((pathExists (ledger.path key) >>= fun there =>
        (if there then attempt (.removeFile (ledger.path key)) mapErr else pure ()) >>= fun _ =>
          .done answer : FileProgram LiveError α).translate .left) := by
  rw [pathExists_bind]
  refine free_call fun names files known holding hview hpermits => ?_
  rw [hrole] at hpermits ⊢
  have hfile := view_file hview hvalid hpermits
  obtain ⟨happly', hallows⟩ := happly known names
  obtain ⟨hfound, hfiles⟩ := serve_metadata .granted files (ledger.path key)
  have hserve : serveDir (.left (.metadata (ledger.path key))) names files =
      files.granted (.metadata (ledger.path key)) := rfl
  rw [hserve]
  rw [serve_granted] at hfound hfiles
  rw [hfiles]
  beta_reduce
  rw [hfound, found, hfile]
  cases hfind : ledger.find known key with
  | none =>
    have hcommits : ledger.commits (.remover key) (.left (.metadata (ledger.path key))) files = true := by
      simp [Ledger.commits, hfile, hfind]
    exact .inl ⟨hcommits, .ok answer, _, happly', hallows, spares_absent hview hfind,
      @freeEnds_ofExcept _ _ _ _ _ _ service method (.ok answer) known⟩
  | some record =>
    have hquiet : ledger.commits (.remover key) (.left (.metadata (ledger.path key))) files = false := by
      simp [Ledger.commits, hfile, hfind]
    refine .inr ⟨hquiet, rfl, ?_⟩
    change Free service.object service.discipline method
      (.call (.left (.removeFile (ledger.path key))) fun reply =>
        (onReply mapErr reply >>= fun _ => .done answer : FileProgram LiveError α).translate .left)
    refine free_call fun names files known holding hview hpermits => .inl ?_
    rw [hrole] at hpermits ⊢
    obtain ⟨hthere, hfree⟩ := hpermits
    obtain ⟨happly', hallows⟩ := happly known names
    obtain ⟨bytes, hbytes⟩ := Option.isSome_iff_exists.mp hthere
    have hserve : serveDir (.left (.removeFile (ledger.path key))) names files =
        (.ok (), files.remove (ledger.path key)) := by
      simp [serveDir, FileSystem.granted, hbytes]
    rw [hserve]
    exact ⟨rfl, .ok answer, _, happly', hallows, spares_drop hview hvalid hthere hfree,
      @freeEnds_ofExcept _ _ _ _ _ _ service method (.ok answer) known⟩

/-- The reads of a list that has taken effect find what was there when it did. -/
theorem ends_readRecords {result : Except LiveError α} {seen : κ} {wanted : ρ → Bool}
    (hrole : service.role method = .lister) {names : List String}
    (hnames : ∀ name ∈ names, fileExtension name = some "json" → ∃ digest record,
      ValidDigest digest ∧ name = digest ++ ".json" ∧ ledger.find seen digest = some record)
    {rest : List ρ → DirProgram LiveError α}
    (hrest : FreeEnds service.object service.discipline method result seen
      (rest (ledger.listed wanted seen names))) :
    FreeEnds service.object service.discipline method result seen
      (readRecords ledger.directory ledger.fromSlice wanted (names.map .ok) >>= rest) := by
  induction names generalizing rest with
  | nil => exact hrest
  | cons name names ih =>
    have hnext := fun {rest} => @ih (fun other hother => hnames other (List.mem_cons_of_mem _ hother)) rest
    by_cases hextension : fileExtension name = some "json"
    · obtain ⟨digest, record, hvalid, rfl, hfind⟩ := hnames name List.mem_cons_self hextension
      have hlisted : ledger.listed wanted seen ((digest ++ ".json") :: names) =
          if wanted record then record :: ledger.listed wanted seen names
          else ledger.listed wanted seen names := by
        simp [Ledger.listed, (record_name hvalid).1, (record_name hvalid).2, hfind, List.filter_cons]
      rw [hlisted] at hrest
      have hbody : readRecords ledger.directory ledger.fromSlice wanted
            (((digest ++ ".json") :: names).map .ok) >>= rest =
          .call (.left (.read (ledger.path digest))) fun reply =>
            (onReply (ioError (ledger.path digest).display) reply).translate .left >>= fun bytes =>
              .ofExcept ((ledger.fromSlice bytes).mapError .protocol) >>= fun record =>
                readRecords ledger.directory ledger.fromSlice wanted (names.map .ok) >>= fun output =>
                  rest (if wanted record then record :: output else output) := by
        simp only [List.map_cons, readRecords, Except.mapError, Program.ofExcept, Program.done_bind,
          hextension, ne_eq, not_true_eq_false, ↓reduceIte, Program.bind_assoc, Program.pure_eq]
        rfl
      rw [hbody]
      intro _ files known holding hview hpermits
      change ledger.permits service.fresh (service.role method) _ _ _ _ _ _ at hpermits
      rw [hrole] at hpermits
      have hfile := hpermits digest rfl
      rw [hfind] at hfile
      have hserve : service.object.serve (.left (.read (ledger.path digest))) ‹_› files =
          (.ok (ledger.toVecPretty record), files) := Ledger.granted_read hfile
      have hrecord : (ledger.fromSlice (ledger.toVecPretty record)).mapError LiveError.protocol =
          .ok record := by
        rw [ledger.fromSlice_toVecPretty]
        rfl
      rw [hserve]
      refine ⟨rfl, ?_⟩
      simp only [onReply_ok, Program.translate, Program.done_bind, hrecord]
      refine @hnext (fun output => rest (if wanted record then record :: output else output)) ?_
      split at hrest
      · rw [if_pos ‹_›]
        exact hrest
      · rw [if_neg ‹_›]
        exact hrest
    · have hskipped : ledger.listed wanted seen (name :: names) = ledger.listed wanted seen names := by
        simp [Ledger.listed, hextension]
      have hbody : readRecords ledger.directory ledger.fromSlice wanted ((name :: names).map .ok) =
          readRecords ledger.directory ledger.fromSlice wanted (names.map .ok) := by
        simp [readRecords, hextension, Except.mapError, Program.ofExcept]
      rw [hskipped] at hrest
      rw [hbody]
      exact hnext hrest

theorem free_list {wanted : ρ → Bool} {finish : List ρ → α} {mapErr : IoError → LiveError}
    (hrole : service.role method = .lister)
    (happly : ∀ known names, service.apply method names known =
      (.ok (finish (ledger.listed wanted known names)), known))
    (hallows : ∀ known output,
      output.Perm (((ledger.records known).map Prod.snd).filter wanted) →
      service.allows method known (.ok (finish output)) known) :
    Free service.object service.discipline method
      (.call (.right (.readDir ledger.directory)) fun reply =>
        .ofExcept (reply.mapError mapErr) >>= fun entries =>
          readRecords ledger.directory ledger.fromSlice wanted entries >>= fun output =>
            .done (finish output)) := by
  refine free_call fun names files known holding hview hpermits => .inl ?_
  rw [hrole] at hpermits ⊢
  obtain ⟨hlists, hpresent⟩ := hpermits
  have hfile := fun digest hvalid => view_file hview hvalid (hpresent digest hvalid)
  obtain ⟨away, hkept⟩ := hview
  refine ⟨rfl, _, known, happly known names, hallows known _ (Ledger.listed_perm hkept hlists hfile),
    spares_refl ⟨away, hkept⟩, ?_⟩
  refine ends_readRecords hrole (fun name hname hextension => ?_) rfl
  have hthere := (hlists.mem name).mp hname
  obtain ⟨digest, hvalid, rfl⟩ := hkept.tidy name hthere hextension
  have hrecord : ((ledger.find known digest).map ledger.toVecPretty).isSome := by
    rw [← hfile digest hvalid]
    exact hthere
  rw [Option.isSome_map] at hrecord
  obtain ⟨record, hfind⟩ := Option.isSome_iff_exists.mp hrecord
  exact ⟨digest, record, hvalid, rfl, hfind⟩

end Service
end HologramLive.Store
