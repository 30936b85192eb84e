import HologramLive.ModelHub.Archive

/-! What the runs of the archive leave of its ledger. -/

namespace HologramLive.ModelHub.Archive
open Lib Lib.Interleaving

def Host.days (host : Host) : List Day :=
  match host.ledger with
  | some (.whole ledger) => ledger.days
  | _ => []

/-- A whole document or none yet, a day at most once and the days in order. -/
structure Complete (host : Host) : Prop where
  whole : host.ledger ≠ some .part
  increasing : host.days.Pairwise fun left right => left.date < right.date

/-- Each entry names the one directly before it. -/
def Linked : Option String → List Day → Prop
  | _, [] => True
  | prev, day :: rest => day.prev = prev ∧ Linked (some day.cid) rest

/-- The run is for a day later than any that was archived, or for one that was, or it stops
before it puts the new ledger in place. -/
def Run.Daily (host : Host) (run : Run) : Prop :=
  run.answers.length < 14 ∨ listed run.date host.ledger = true ∨
    ∀ day ∈ host.days, day.date < run.date

/-- All that a run can do to the ledger. -/
def Records (before : Host) (date : String) (after : Host) : Prop :=
  after.ledger = before.ledger ∨ ∃ ledger entry, loadLedger before.ledger = .done ledger ∧
    listed date before.ledger = false ∧ (∀ prev, (entry prev).date = date ∧ (entry prev).prev = prev) ∧
    after.ledger = some (.whole (ledger.record entry))

section Run
variable {before after : Host} {date : String} {holds : Host → Prop}

theorem ensures_check {ok : Bool} {code : Nat} {rest : Unit → ArchiveProgram Unit}
    (hnow : holds after) (h : ok = true →
      Program.Ensures serve (fun _ => True) holds (fun _ _ => True) (rest ()) after) :
    Program.Ensures serve (fun _ => True) holds (fun _ _ => True) (check ok code >>= rest) after := by
  cases ok with
  | true => exact h rfl
  | false => exact ⟨hnow, trivial⟩

theorem ensures_require {value : Option α} {code : Nat} {rest : α → ArchiveProgram Unit}
    (hnow : holds after)
    (h : ∀ found, Program.Ensures serve (fun _ => True) holds (fun _ _ => True) (rest found) after) :
    Program.Ensures serve (fun _ => True) holds (fun _ _ => True) (require value code >>= rest)
      after := by
  cases value with
  | some found => exact h found
  | none => exact ⟨hnow, trivial⟩

theorem ensures_last (ok : Bool) (code : Nat) (hnow : holds after) :
    Program.Ensures serve (fun _ => True) holds (fun _ _ => True) (check ok code) after := by
  cases ok with
  | true => exact ⟨hnow, trivial⟩
  | false => exact ⟨hnow, trivial⟩

theorem ensures_keepCid {rest : Unit → ArchiveProgram Unit} (pinned : String) (hnow : holds after)
    (hcid : ∀ cid, holds { after with cid })
    (h : ∀ host, holds host →
      Program.Ensures serve (fun _ => True) holds (fun _ _ => True) (rest ()) host) :
    Program.Ensures serve (fun _ => True) holds (fun _ _ => True) (keepCid pinned >>= rest) after := by
  unfold keepCid
  split
  · exact h after hnow
  · refine ⟨hnow, fun written _ => ?_⟩
    cases hok : written.ok with
    | false =>
      simp only [serve, Program.bind, hok]
      exact ⟨hnow, trivial⟩
    | true =>
      simp only [serve, Program.bind, hok]
      exact h _ (hcid _)

theorem ensures_announce (hnow : holds after) (hcid : ∀ cid, holds { after with cid }) :
    Program.Ensures serve (fun _ => True) holds (fun _ _ => True) announce after := by
  refine ⟨hnow, fun answer _ => ensures_keepCid _ hnow hcid fun host hhost => ?_⟩
  exact ⟨hhost, fun _ _ => ensures_last _ 1 hhost⟩

theorem archive_records (before : Host) (date : String) :
    Program.Ensures serve (fun _ => True) (Records before date) (fun _ _ => True) (archive date)
      before := by
  have hnow : Records before date before := .inl rfl
  refine ⟨hnow, fun _ _ => ensures_check hnow fun _ => ?_⟩
  refine ⟨hnow, fun _ _ => ensures_check hnow fun hlisted => ?_⟩
  refine ⟨hnow, fun _ _ => ensures_check hnow fun _ => ?_⟩
  refine ⟨hnow, fun _ _ => ensures_require hnow fun root => ?_⟩
  refine ⟨hnow, fun _ _ => ?_⟩
  refine ⟨hnow, fun _ _ => ensures_check hnow fun _ => ?_⟩
  refine ⟨hnow, fun _ _ => ensures_require hnow fun index => ?_⟩
  refine ⟨hnow, fun _ _ => ?_⟩
  refine ⟨hnow, fun _ _ => ensures_require hnow fun figures => ?_⟩
  refine ⟨hnow, fun _ _ => ?_⟩
  cases hledger : loadLedger before.ledger with
  | call operation next =>
    unfold loadLedger at hledger
    split at hledger <;> cases hledger
  | fail code =>
    simp only [serve, Program.bind, hledger]
    exact ⟨hnow, trivial⟩
  | done ledger =>
    simp only [serve, Program.bind, hledger]
    refine ⟨hnow, fun clock _ => ⟨hnow, fun catalog _ => ?_⟩⟩
    refine ⟨hnow, fun written _ => ?_⟩
    have hwritten : ∀ temporary, Records before date { before with temporary } := fun _ => .inl rfl
    cases hok : written.ok with
    | false =>
      simp only [serve, Program.bind, hok]
      exact ⟨hwritten _, trivial⟩
    | true =>
      simp only [serve, Program.bind, hok]
      refine ⟨hwritten _, fun replaced _ => ?_⟩
      cases hreplaced : replaced.ok with
      | false =>
        simp only [serve, Program.bind, hreplaced]
        exact ⟨hwritten _, trivial⟩
      | true =>
        simp only [serve, Program.bind, hreplaced]
        rw [Bool.not_eq_true'] at hlisted
        refine ensures_announce ?_ fun cid => ?_
        · refine .inr ⟨ledger, _, hledger, hlisted, ?_, rfl⟩
          exact fun prev => ⟨rfl, rfl⟩
        · refine .inr ⟨ledger, _, hledger, hlisted, ?_, rfl⟩
          exact fun prev => ⟨rfl, rfl⟩

/-- The calls that leave the ledger alone. -/
def Leaves {β : Type} : ArchiveCall β → Prop
  | .replace => False
  | _ => True

theorem opens_check {ok : Bool} {code count : Nat} {rest : Unit → ArchiveProgram Unit}
    (h : (rest ()).Opens Leaves count) : (check ok code >>= rest).Opens Leaves count := by
  cases ok with
  | true => exact h
  | false => trivial

theorem opens_require {value : Option α} {code count : Nat} {rest : α → ArchiveProgram Unit}
    (h : ∀ found, (rest found).Opens Leaves count) :
    (require value code >>= rest).Opens Leaves count := by
  cases value with
  | some found => exact h found
  | none => trivial

theorem archive_opens (date : String) : (archive date).Opens Leaves 13 := by
  refine ⟨trivial, fun _ => opens_check ⟨trivial, fun _ => opens_check ?_⟩⟩
  refine ⟨trivial, fun _ => opens_check ⟨trivial, fun _ => opens_require fun root => ?_⟩⟩
  refine ⟨trivial, fun _ => ⟨trivial, fun _ => opens_check ?_⟩⟩
  refine ⟨trivial, fun _ => opens_require fun index => ⟨trivial, fun _ => ?_⟩⟩
  refine ⟨trivial, fun _ => opens_require fun figures => ⟨trivial, fun ledger => ?_⟩⟩
  cases hledger : loadLedger ledger with
  | call operation next =>
    unfold loadLedger at hledger
    split at hledger <;> cases hledger
  | fail code =>
    simp only [Program.bind, hledger]
    trivial
  | done ledger =>
    simp only [Program.bind, hledger]
    refine ⟨trivial, fun _ => ⟨trivial, fun _ => ⟨trivial, fun _ => opens_check ?_⟩⟩⟩
    trivial

/-- A run that stops before the new ledger is put in place leaves the old one. -/
theorem stopped {answers : List Answer} (h : answers.length < 14) :
    (Program.advance serve answers (archive date) before).2.ledger = before.ledger := by
  have hkeeps : ∀ {β : Type} (operation : ArchiveCall β) answer (host : Host), Leaves operation →
      host.ledger = before.ledger → (serve operation answer host).2.ledger = before.ledger := by
    intro β operation answer host hleaves hsame
    cases operation with
    | replace => exact hleaves.elim
    | writeCid cid =>
      simp only [serve]
      split
      · exact hsame
      · exact hsame
    | _ => exact hsame
  have hkept := (archive_opens date).kept hkeeps (Nat.le_of_lt_succ h) (show before.ledger = _ from rfl)
  exact hkept

end Run

/-! ### The entries -/

section Entries
variable {ledger : Ledger} {days : List Day} {day : Day} {prev : Option String}

theorem linked_concat : Linked prev (days ++ [day]) ↔
    Linked prev days ∧ day.prev = (days.getLast?.map (·.cid)).or prev := by
  induction days generalizing prev with
  | nil => simp [Linked]
  | cons first rest ih =>
    rw [List.cons_append, Linked, Linked, ih, and_assoc]
    cases hlast : rest.getLast? with
    | none => simp [List.getLast?_cons, hlast]
    | some last => simp [List.getLast?_cons, hlast]

theorem loadLedger_done {document : Option Document} (h : loadLedger document = .done ledger) :
    Host.days { ledger := document } = ledger.days ∧
      (∀ date, listed date document = false ↔ ∀ day ∈ ledger.days, day.date ≠ date) := by
  match document with
  | some (.whole found) =>
    cases h
    simp [Host.days, listed]
  | some .part => cases h
  | none =>
    cases h
    simp [Host.days, listed]

/-- The new entry among the others. -/
theorem record_increasing {entry : Option String → Day}
    (h : ledger.days.Pairwise fun left right => left.date < right.date)
    (hnew : ∀ prev, ∀ day ∈ ledger.days, day.date ≠ (entry prev).date) :
    (ledger.record entry).days.Pairwise (fun left right => left.date < right.date) ∧
      ledger.days.Sublist (ledger.record entry).days := by
  have hsorted := List.pairwise_insertionSort (fun left right : Day => left.date ≤ right.date)
    (ledger.days ++ [entry (ledger.days.getLast?.map (·.cid))])
  have hperm := List.perm_insertionSort (fun left right : Day => left.date ≤ right.date)
    (ledger.days ++ [entry (ledger.days.getLast?.map (·.cid))])
  have hdistinct : (ledger.days ++ [entry (ledger.days.getLast?.map (·.cid))]).Pairwise
      fun left right => left.date ≠ right.date := by
    rw [List.pairwise_append]
    refine ⟨h.imp fun hlt => hlt.ne, List.pairwise_singleton _ _, ?_⟩
    intro day hday last hlast
    rw [List.mem_singleton.mp hlast]
    exact hnew _ day hday
  constructor
  · have hboth := hsorted.and (hperm.symm.pairwise hdistinct fun hne => hne.symm)
    exact hboth.imp fun hpair => lt_of_le_of_ne hpair.1 hpair.2
  · exact List.sublist_insertionSort (h.imp fun hlt => hlt.le) (List.sublist_append_left ..)

theorem record_late {entry : Option String → Day}
    (h : ledger.days.Pairwise fun left right => left.date < right.date)
    (hlate : ∀ prev, ∀ day ∈ ledger.days, day.date < (entry prev).date) :
    (ledger.record entry).days = ledger.days ++ [entry (ledger.days.getLast?.map (·.cid))] := by
  apply List.Pairwise.insertionSort_eq
  rw [List.pairwise_append]
  refine ⟨h.imp fun hlt => hlt.le, List.pairwise_singleton _ _, ?_⟩
  intro day hday last hlast
  rw [List.mem_singleton.mp hlast]
  exact (hlate _ day hday).le

end Entries

section Runs
variable {before after : Host} {run : Run}

theorem Host.days_of_ledger (h : after.ledger = before.ledger) : after.days = before.days := by
  unfold Host.days
  rw [h]

/-- What a run makes of the days. -/
theorem step_days (hcomplete : Complete before) (h : step before run = some after) :
    Complete after ∧ before.days.Sublist after.days ∧
      (run.Daily before → Linked none before.days → Linked none after.days) := by
  have hstep : after = (Program.advance serve run.answers (archive run.date) before).2 :=
    (Option.some.inj h).symm
  have hanswers : ∀ answer ∈ run.answers, (fun _ => True) answer := fun _ _ => trivial
  have hrecords := ((archive_records before run.date).sound hanswers).1
  rw [← hstep] at hrecords
  rcases hrecords with hsame | ⟨ledger, entry, hloaded, hlisted, hentry, hafter⟩
  · rw [Host.days_of_ledger hsame]
    exact ⟨⟨hsame ▸ hcomplete.whole, (Host.days_of_ledger hsame).symm ▸ hcomplete.increasing⟩,
      .refl _, fun _ => id⟩
  · obtain ⟨hdays, hlists⟩ := loadLedger_done hloaded
    have hbefore : before.days = ledger.days := hdays
    have hdone : after.days = (ledger.record entry).days := by
      rw [Host.days, hafter]
    have hincreasing := hcomplete.increasing
    rw [hbefore] at hincreasing
    have hnew : ∀ prev, ∀ day ∈ ledger.days, day.date ≠ (entry prev).date := fun prev day hday =>
      (hentry prev).1 ▸ (hlists run.date).mp hlisted day hday
    obtain ⟨hsorted, hsublist⟩ := record_increasing hincreasing hnew
    refine ⟨⟨hafter ▸ nofun, hdone ▸ hsorted⟩, hbefore ▸ hdone ▸ hsublist, fun hdaily hlinked => ?_⟩
    rcases hdaily with hstops | hlisted' | hlate
    · rw [Host.days_of_ledger (hstep ▸ stopped hstops)]
      exact hlinked
    · rw [hlisted] at hlisted'
      cases hlisted'
    · rw [hbefore] at hlinked hlate
      rw [hdone, record_late hincreasing fun prev => (hentry prev).1 ▸ hlate, linked_concat]
      exact ⟨hlinked, by simp [hentry]⟩

theorem complete_new : Complete {} := ⟨nofun, List.Pairwise.nil⟩

theorem Complete.reached {allowed : Host → Run → Prop} (hcomplete : Complete before)
    (h : Reaches step allowed before after) : Complete after ∧ before.days.Sublist after.days := by
  have hfirst : Complete before ∧ before.days.Sublist before.days := ⟨hcomplete, .refl _⟩
  refine @Reaches.invariant _ _ _ _ _ _
    (fun host => Complete host ∧ before.days.Sublist host.days) h hfirst ?_
  intro host run next hhost _ hstep
  obtain ⟨hnext, hsublist, -⟩ := step_days hhost.1 hstep
  exact ⟨hnext, hhost.2.trans hsublist⟩

theorem linked_reached (h : Reaches step (fun host run => run.Daily host) {} after) :
    Linked none after.days := by
  have hfirst : Complete {} ∧ Linked none (Host.days {}) := ⟨complete_new, trivial⟩
  have hlast : Complete after ∧ Linked none after.days := by
    refine @Reaches.invariant _ _ _ _ _ _ (fun host => Complete host ∧ Linked none host.days) h
      hfirst ?_
    intro host run next hhost hdaily hstep
    obtain ⟨hnext, -, hlinks⟩ := step_days hhost.1 hstep
    exact ⟨hnext, hlinks hdaily hhost.2⟩
  exact hlast.2

/-- After every run the ledger is whole and in order and has all that it had. It is a chain as
long as the days are archived in their order. -/
theorem ledger_chained (host : Host) :
    (Reaches step (fun _ _ => True) {} host → Complete host ∧
      ∀ later, Reaches step (fun _ _ => True) host later → host.days.Sublist later.days) ∧
    (Reaches step (fun host run => run.Daily host) {} host → Linked none host.days) := by
  refine ⟨fun h => ?_, fun h => linked_reached h⟩
  have hcomplete := (complete_new.reached h).1
  exact ⟨hcomplete, fun later hlater => (hcomplete.reached hlater).2⟩

end Runs

/-! ### Two days -/

/-- A run in which every step goes well. -/
def smooth (date cid : String) : Run where
  date := date
  answers := List.replicate 17
    { text := cid, found := some cid, figures := some ⟨1, 1, 2, 10, none⟩, catalog := some none }

def dates (host : Host) : List (String × String × Option String) :=
  host.days.map fun day => (day.date, day.cid, day.prev)

/-- The day before is archived later. Its entry names the day after it, whose own names none. -/
theorem ledger_unchained : ∃ host, Reaches step (fun _ _ => True) {} host ∧
    dates host = [("2026-09-01", "bafyone", some "bafytwo"), ("2026-09-02", "bafytwo", none)] ∧
    ¬ Linked none host.days := by
  have hobserved : (run step [smooth "2026-09-02" "bafytwo", smooth "2026-09-01" "bafyone"] {}).map
      dates = some [("2026-09-01", "bafyone", some "bafytwo"), ("2026-09-02", "bafytwo", none)] := by
    decide
  obtain ⟨host, hrun, hhost⟩ := Option.map_eq_some_iff.mp hobserved
  refine ⟨host, Reaches.start.run hrun, hhost, fun hlinked => ?_⟩
  cases hdays : host.days with
  | nil =>
    rw [dates, hdays] at hhost
    cases hhost
  | cons first rest =>
    rw [dates, hdays, List.map_cons] at hhost
    rw [hdays] at hlinked
    have hprev := (Prod.mk.inj (Prod.mk.inj (List.cons.inj hhost).1).2).2
    rw [hlinked.1] at hprev
    cases hprev

/-- Decides `Run.Daily`. -/
def Run.daily (host : Host) (run : Run) : Bool :=
  listed run.date host.ledger || host.days.all fun day => day.date < run.date

theorem ledger_chained_daily : ∃ host,
    dates host = [("2026-09-01", "bafyone", none), ("2026-09-02", "bafytwo", some "bafyone")] ∧
    Linked none host.days := by
  have hobserved : (checked step (fun host run => run.daily host)
      [smooth "2026-09-01" "bafyone", smooth "2026-09-02" "bafytwo"] {}).map dates =
        some [("2026-09-01", "bafyone", none), ("2026-09-02", "bafytwo", some "bafyone")] := by
    decide
  obtain ⟨host, hrun, hhost⟩ := Option.map_eq_some_iff.mp hobserved
  refine ⟨host, hhost, (ledger_chained host).2 (Reaches.start.checked ?_ hrun)⟩
  intro state run hdaily
  rcases Bool.or_eq_true_iff.mp hdaily with hlisted | hlate
  · exact .inr (.inl hlisted)
  · exact .inr (.inr fun day hday => of_decide_eq_true (List.all_eq_true.mp hlate day hday))

end HologramLive.ModelHub.Archive
