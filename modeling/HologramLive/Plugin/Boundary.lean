import HologramLive.Plugin.Supervisor
import Mathlib.Data.List.Nodup

/-! What gets past the registry to a plugin's process. -/

namespace HologramLive.Plugin
open Client Config Lib Lib.Interleaving Transport

/-- The hash of what was spawned is the one that the allowlist pins. -/
def Verified (sha256 : Bytes → Vector UInt8 32) (spec : PluginModuleConfig) (process : Process) :
    Prop :=
  Store.hex (sha256 process.executable).toList = toAsciiLowercase spec.sha256

def Declares (process : Process) (operation : String) : Prop :=
  ∃ declared, process.declared = some declared ∧ operation ∈ declared

/-- The operations that were registered for a plugin. -/
def registered (registry : PluginRegistry) (plugin : Nat) : List (String × OperationKind) :=
  ((registry.entries[plugin]?).map (·.operations)).getD []

def System.deliveriesOf (system : System) (number : Nat) : Nat :=
  system.deliveries.countP fun delivery => delivery.call = number

/-- What is asked of the boundary. A call is one of a read when its operation was registered as
one. -/
structure Bounded (sha256 : Bytes → Vector UInt8 32) (system : System) : Prop where
  requested : ∀ delivery ∈ system.deliveries, ∃ call, system.calls[delivery.call]? = some call ∧
    call.operation = delivery.operation
  declared : ∀ delivery ∈ system.deliveries, ∃ own process,
    system.supervisors[delivery.plugin]? = some own ∧
      own.processes[delivery.process]? = some process ∧ Declares process delivery.operation
  verified : ∀ own ∈ system.supervisors, ∀ process ∈ own.processes, Verified sha256 own.spec process
  once : ∀ (number : Nat) (call : Call), system.calls[number]? = some call →
    (call.operation, .read) ∉ registered system.registry call.plugin →
      system.deliveriesOf number ≤ 1

/-- The steps that keep to the registration: a call is let through by the operations registered
for its plugin, a process that is started later declares these too, and a request for another
operation than a read that has reached a process is not sent again. -/
def Action.Regular (fromStr : String → Except String Json) (system : System) : Action → Prop
  | .invoke plugin operation payload => ∀ place,
      admission fromStr system.registry plugin operation payload = .ok place →
        registered system.registry place ≠ []
  | .start plugin answers => ∀ descriptor, answers.described = .ok descriptor →
      ∀ operation ∈ registered system.registry plugin,
        operation.1 ∈ descriptor.operations.map (·.id)
  | .deliver plugin reached outcome => reached = true → ∀ own number restarts call,
      system.supervisors[plugin]? = some own → own.current = some (number, restarts) →
        system.calls[number]? = some call →
          (call.operation, .read) ∉ registered system.registry call.plugin →
            ∀ status, outcome = .error status → restartable status = true → maxRestarts ≤ restarts
  | _ => True

/-! ### One start -/

theorem foldl_or_eq_zero (pairs : List (UInt8 × UInt8)) (difference : UInt8) :
    pairs.foldl (fun difference pair => difference ||| (pair.1 ^^^ pair.2)) difference = 0 ↔
      difference = 0 ∧ ∀ pair ∈ pairs, pair.1 = pair.2 := by
  induction pairs generalizing difference with
  | nil => simp
  | cons pair rest ih =>
    rw [List.foldl_cons, ih, UInt8.or_eq_zero_iff, UInt8.xor_eq_zero_iff, List.forall_mem_cons,
      and_assoc]

theorem eq_of_zip {left right : Bytes} (hlength : left.length = right.length)
    (h : ∀ pair ∈ left.zip right, pair.1 = pair.2) : left = right := by
  induction left generalizing right with
  | nil => exact (List.length_eq_zero_iff.mp hlength.symm).symm
  | cons a left ih =>
    cases right with
    | nil => cases hlength
    | cons b right =>
      rw [List.zip_cons_cons, List.forall_mem_cons] at h
      obtain ⟨hsame, hrest⟩ := h
      rw [show a = b from hsame, ih (Nat.succ.inj hlength) hrest]

theorem constantTimeEq_eq {left right : Bytes} (h : constantTimeEq left right = true) :
    left = right := by
  unfold constantTimeEq at h
  split at h
  · cases h
  · rename_i hlength
    rw [ne_eq, Decidable.not_not] at hlength
    rw [decide_eq_true_eq, foldl_or_eq_zero] at h
    exact eq_of_zip hlength h.2

section Start
variable {sha256 : Bytes → Vector UInt8 32} {spec : PluginModuleConfig}
  {own next : PluginSupervisor} {answers : StartAnswers}

theorem verifySha256_ok {executable : Except LiveError Bytes} {bytes : Bytes}
    (h : verifySha256 sha256 spec executable = .ok bytes) :
    Store.hex (sha256 bytes).toList = toAsciiLowercase spec.sha256 := by
  cases executable with
  | error error => cases h
  | ok read =>
    simp only [verifySha256, Result.ok_bind] at h
    split at h
    · cases h
    · rename_i hsame
      obtain rfl := Except.ok.inj h
      rw [Bool.not_eq_true', Bool.not_eq_false] at hsame
      exact Utf8.encode_injective (constantTimeEq_eq hsame)

theorem handshake_ok {expectedId : String} {described : Except LiveError PluginDescriptor}
    {pinged : Except LiveError Unit} {descriptor : PluginDescriptor}
    (h : handshake expectedId described pinged = .ok descriptor) : described = .ok descriptor := by
  cases described with
  | error error => cases h
  | ok found =>
    simp only [handshake, Result.ok_bind] at h
    split at h
    · cases h
    · split at h
      · cases h
      · cases pinged with
        | error error => cases h
        | ok _ => exact h

/-- The calls that a supervisor still has to answer. -/
def pending (own : PluginSupervisor) : List Nat := (own.current.toList.map Prod.fst) ++ own.mailbox

/-- All that a start can do. -/
structure Starts (sha256 : Bytes → Vector UInt8 32) (own next : PluginSupervisor)
    (answers : StartAnswers) (result : Except LiveError PluginDescriptor) : Prop where
  spec : next.spec = own.spec
  current : next.current = own.current
  mailbox : next.mailbox = own.mailbox
  processes : next.processes = own.processes ∨ ∃ process, Verified sha256 own.spec process ∧
    next.processes = own.processes ++ [process]
  client : ∀ number, next.client = some number → ∃ descriptor executable,
    result = .ok descriptor ∧ answers.described = .ok descriptor ∧
      next.processes = own.processes ++ [⟨executable, some (descriptor.operations.map (·.id))⟩] ∧
      number = own.processes.length

theorem startVerified_starts {result : Except LiveError PluginDescriptor}
    (hclient : own.client = none) (h : own.startVerified sha256 answers = (result, next)) :
    Starts sha256 own next answers result := by
  have hnone : ∀ {number : Nat}, own.client ≠ some number := by
    intro number heq
    rw [hclient] at heq
    cases heq
  unfold PluginSupervisor.startVerified at h
  split at h
  · obtain ⟨rfl, rfl⟩ := Prod.mk.inj h
    exact ⟨rfl, rfl, rfl, .inl rfl, fun _ heq => absurd heq hnone⟩
  · rename_i executable hexecutable
    have hverified := verifySha256_ok hexecutable
    split at h
    · obtain ⟨rfl, rfl⟩ := Prod.mk.inj h
      exact ⟨rfl, rfl, rfl, .inl rfl, fun _ heq => absurd heq hnone⟩
    · split at h
      · obtain ⟨rfl, rfl⟩ := Prod.mk.inj h
        exact ⟨rfl, rfl, rfl, .inr ⟨⟨executable, _⟩, hverified, rfl⟩, fun _ heq => absurd heq hnone⟩
      · split at h
        · obtain ⟨rfl, rfl⟩ := Prod.mk.inj h
          exact ⟨rfl, rfl, rfl, .inr ⟨⟨executable, _⟩, hverified, rfl⟩, fun _ heq => absurd heq hnone⟩
        · rename_i descriptor hshaken
          obtain ⟨rfl, rfl⟩ := Prod.mk.inj h
          refine ⟨rfl, rfl, rfl, .inr ⟨⟨executable, _⟩, hverified, rfl⟩, fun number heq => ?_⟩
          obtain rfl := Option.some.inj heq
          exact ⟨descriptor, executable, rfl, handshake_ok hshaken, rfl, rfl⟩

theorem start_starts {result : Except LiveError PluginDescriptor}
    (h : own.start sha256 answers = (result, next)) : Starts sha256 own next answers result := by
  unfold PluginSupervisor.start at h
  split at h
  · rename_i descriptor started hstarted
    obtain ⟨rfl, rfl⟩ := Prod.mk.inj h
    obtain ⟨hspec, hcurrent, hmailbox, hprocesses, hclient⟩ := startVerified_starts rfl hstarted
    exact ⟨hspec, hcurrent, hmailbox, hprocesses, hclient⟩
  · rename_i error started hstarted
    obtain ⟨rfl, rfl⟩ := Prod.mk.inj h
    obtain ⟨hspec, hcurrent, hmailbox, hprocesses, -⟩ := startVerified_starts rfl hstarted
    exact ⟨hspec, hcurrent, hmailbox, hprocesses, nofun⟩

end Start

/-! ### One supervisor -/

/-- What is known of a supervisor, under what was registered for its plugin, the calls and the
deliveries. -/
structure Sound (sha256 : Bytes → Vector UInt8 32) (system : System) (plugin : Nat)
    (own : PluginSupervisor) : Prop where
  verified : ∀ process ∈ own.processes, Verified sha256 own.spec process
  client : ∀ number, own.client = some number → ∃ process, own.processes[number]? = some process ∧
    ∀ operation ∈ registered system.registry plugin, Declares process operation.1
  nodup : (pending own).Nodup
  pending : ∀ number ∈ pending own, ∃ call, system.calls[number]? = some call ∧
    call.plugin = plugin ∧ call.operation ∈ (registered system.registry plugin).map Prod.fst ∧
      ((call.operation, .read) ∉ registered system.registry plugin → system.deliveriesOf number = 0)

/-- What every step keeps. -/
structure AllSound (sha256 : Bytes → Vector UInt8 32) (system : System) : Prop where
  lengths : system.registry.entries.length = system.supervisors.length
  supervisors : ∀ (plugin : Nat) (own : PluginSupervisor), system.supervisors[plugin]? = some own →
    Sound sha256 system plugin own
  placed : ∀ call ∈ system.calls, call.plugin < system.registry.entries.length
  bounded : Bounded sha256 system

section Steps
variable {sha256 : Bytes → Vector UInt8 32} {fromStr : String → Except String Json}
  {system next : System} {plugin : Nat} {own moved : PluginSupervisor}

/-- A supervisor that moves keeps its processes, and the calls it has yet to answer. -/
theorem AllSound.put (h : AllSound sha256 system) (hplace : system.supervisors[plugin]? = some own)
    (hmoved : Sound sha256 system plugin moved) (hprocesses : own.processes <+: moved.processes) :
    AllSound sha256 (system.put plugin moved) := by
  have hlt := (List.getElem?_eq_some_iff.mp hplace).1
  constructor
  case lengths => exact h.lengths.trans List.length_set.symm
  case supervisors =>
    intro other found hfound
    by_cases hsame : other = plugin
    · subst hsame
      rw [System.put, List.getElem?_set_self hlt] at hfound
      obtain rfl := Option.some.inj hfound
      exact ⟨hmoved.verified, hmoved.client, hmoved.nodup, hmoved.pending⟩
    · rw [System.put, List.getElem?_set_ne (Ne.symm hsame)] at hfound
      obtain ⟨hverified, hclient, hnodup, hpending⟩ := h.supervisors other found hfound
      exact ⟨hverified, hclient, hnodup, hpending⟩
  case placed => exact h.placed
  case bounded =>
    constructor
    case requested => exact h.bounded.requested
    case once => exact h.bounded.once
    case verified =>
      intro found hfound
      rcases List.mem_or_eq_of_mem_set hfound with hold | rfl
      · exact h.bounded.verified found hold
      · exact hmoved.verified
    case declared =>
      intro delivery hdelivery
      obtain ⟨found, process, hfound, hprocess, hdeclares⟩ := h.bounded.declared delivery hdelivery
      by_cases hsame : delivery.plugin = plugin
      · rw [hsame] at hfound
        obtain rfl := Option.some.inj (hplace.symm.trans hfound)
        refine ⟨moved, process, ?_, ?_, hdeclares⟩
        · rw [hsame, System.put, List.getElem?_set_self hlt]
        · obtain ⟨more, hmore⟩ := hprocesses
          rw [← hmore, List.getElem?_append_left (List.getElem?_eq_some_iff.mp hprocess).1, hprocess]
      · refine ⟨found, process, ?_, hprocess, hdeclares⟩
        rw [System.put, List.getElem?_set_ne (Ne.symm hsame), hfound]

/-- Answers are not looked at again. -/
theorem AllSound.replied (h : AllSound sha256 system) (replies : List (Nat × Except LiveError String)) :
    AllSound sha256 { system with replies } where
  lengths := h.lengths
  supervisors := fun plugin own hplace =>
    let ⟨hverified, hclient, hnodup, hpending⟩ := h.supervisors plugin own hplace
    ⟨hverified, hclient, hnodup, hpending⟩
  placed := h.placed
  bounded := ⟨h.bounded.requested, h.bounded.declared, h.bounded.verified, h.bounded.once⟩

/-- A supervisor with fewer calls to answer, and nothing else that matters changed. -/
theorem Sound.fewer (h : Sound sha256 system plugin own) (hspec : moved.spec = own.spec)
    (hprocesses : moved.processes = own.processes)
    (hclient : moved.client = own.client ∨ moved.client = none)
    (hpending : (Plugin.pending moved).Sublist (Plugin.pending own)) : Sound sha256 system plugin moved where
  verified := by
    rw [hprocesses, hspec]
    exact h.verified
  client := by
    intro number heq
    rcases hclient with hsame | hnone
    · rw [hprocesses]
      exact h.client number (hsame ▸ heq)
    · rw [hnone] at heq
      cases heq
  nodup := hpending.nodup h.nodup
  pending := fun number hnumber => h.pending number (hpending.subset hnumber)

/-- A supervisor that is started: its new process declares what was registered. -/
theorem Sound.started {answers : StartAnswers} {result : Except LiveError PluginDescriptor}
    (h : Sound sha256 system plugin own) (hstarts : Starts sha256 own moved answers result)
    (hregular : ∀ descriptor, answers.described = .ok descriptor →
      ∀ operation ∈ registered system.registry plugin,
        operation.1 ∈ descriptor.operations.map (·.id)) : Sound sha256 system plugin moved where
  verified := by
    rw [hstarts.spec]
    intro process hprocess
    rcases hstarts.processes with hsame | ⟨spawned, hverified, hmore⟩
    · exact h.verified process (hsame ▸ hprocess)
    · rw [hmore] at hprocess
      rcases List.mem_append.mp hprocess with hold | hnew
      · exact h.verified process hold
      · exact List.mem_singleton.mp hnew ▸ hverified
  client := by
    intro number heq
    obtain ⟨descriptor, executable, -, hdescribed, hmore, rfl⟩ := hstarts.client number heq
    refine ⟨⟨executable, some (descriptor.operations.map (·.id))⟩, ?_, fun operation hoperation => ?_⟩
    · rw [hmore, List.getElem?_concat_length]
    · exact ⟨_, rfl, hregular descriptor hdescribed operation hoperation⟩
  nodup := by
    rw [Plugin.pending, hstarts.current, hstarts.mailbox]
    exact h.nodup
  pending := by
    rw [Plugin.pending, hstarts.current, hstarts.mailbox]
    exact h.pending

theorem Starts.keeps {answers : StartAnswers} {result : Except LiveError PluginDescriptor}
    (h : Starts sha256 own moved answers result) : own.processes <+: moved.processes := by
  rcases h.processes with hsame | ⟨process, -, hmore⟩
  · exact ⟨[], by rw [hsame, List.append_nil]⟩
  · exact ⟨[process], hmore.symm⟩

/-- What follows a call of the client, whatever came of it. -/
theorem AllSound.settled {number restarts : Nat} (h : AllSound sha256 system)
    (hplace : system.supervisors[plugin]? = some own) (hcurrent : own.current = some (number, restarts))
    (outcome : Except Status InvokeResponse) :
    AllSound sha256 (settle system plugin number restarts own outcome) := by
  have hown := h.supervisors plugin own hplace
  have hsublist : own.mailbox.Sublist (pending own) := List.sublist_append_right ..
  cases outcome with
  | ok response =>
    have hput : AllSound sha256 (system.put plugin { own with current := none }) :=
      h.put hplace (hown.fewer rfl rfl (.inl rfl) hsublist) (List.prefix_refl _)
    exact hput.replied _
  | error status =>
    simp only [settle]
    split
    · refine h.put hplace (hown.fewer rfl rfl (.inr rfl) ?_) (List.prefix_refl _)
      rw [pending, pending, hcurrent]
      exact .refl _
    · have hput : AllSound sha256 (system.put plugin
          { own with lastError := some (statusError status), current := none }) :=
        h.put hplace (hown.fewer rfl rfl (.inl rfl) hsublist) (List.prefix_refl _)
      exact hput.replied _

/-- A request that reaches a process. The call's earlier deliveries count, if it is not a read. -/
theorem AllSound.delivered {delivery : Delivery} {call : Call} (h : AllSound sha256 system)
    (hcall : system.calls[delivery.call]? = some call) (hoperation : call.operation = delivery.operation)
    (hdeclared : ∃ own process, system.supervisors[delivery.plugin]? = some own ∧
      own.processes[delivery.process]? = some process ∧ Declares process delivery.operation)
    (hfree : (call.operation, .read) ∈ registered system.registry call.plugin ∨
      system.deliveriesOf delivery.call = 0 ∧ ∀ (plugin : Nat) (own : PluginSupervisor),
        system.supervisors[plugin]? = some own → delivery.call ∉ pending own) :
    AllSound sha256 { system with deliveries := system.deliveries ++ [delivery] } := by
  have hcount : ∀ {number : Nat}, number ≠ delivery.call →
      System.deliveriesOf { system with deliveries := system.deliveries ++ [delivery] } number =
        system.deliveriesOf number := by
    intro number hne
    simp [System.deliveriesOf, Ne.symm hne]
  have hmem : ∀ found ∈ system.deliveries ++ [delivery],
      found ∈ system.deliveries ∨ found = delivery := fun found hfound =>
    (List.mem_append.mp hfound).imp id List.mem_singleton.mp
  constructor
  case lengths => exact h.lengths
  case supervisors =>
    intro plugin own hplace
    obtain ⟨hverified, hclient, hnodup, hpending⟩ := h.supervisors plugin own hplace
    refine ⟨hverified, hclient, hnodup, fun number hnumber => ?_⟩
    obtain ⟨found, hfound, hplugin, hregistered, hzero⟩ := hpending number hnumber
    refine ⟨found, hfound, hplugin, hregistered, fun hwrites => ?_⟩
    by_cases hsame : number = delivery.call
    · subst hsame
      obtain rfl := Option.some.inj (hcall.symm.trans hfound)
      rcases hfree with hreads | ⟨-, hidle⟩
      · exact absurd (hplugin ▸ hreads) hwrites
      · exact absurd hnumber (hidle plugin own hplace)
    · rw [hcount hsame]
      exact hzero hwrites
  case placed => exact h.placed
  case bounded =>
    constructor
    case requested =>
      intro found hfound
      rcases hmem found hfound with hold | rfl
      · exact h.bounded.requested found hold
      · exact ⟨call, hcall, hoperation⟩
    case declared =>
      intro found hfound
      rcases hmem found hfound with hold | rfl
      · exact h.bounded.declared found hold
      · exact hdeclared
    case verified => exact h.bounded.verified
    case once =>
      intro number found hfound hwrites
      by_cases hsame : number = delivery.call
      · subst hsame
        obtain rfl := Option.some.inj (hcall.symm.trans hfound)
        rcases hfree with hreads | ⟨hzero, -⟩
        · exact absurd hreads hwrites
        · simp only [System.deliveriesOf] at hzero ⊢
          simp [hzero]
      · rw [hcount hsame]
        exact h.bounded.once number found hfound hwrites

theorem registered_add {registry : PluginRegistry} (start : PluginStart)
    (hlt : plugin < registry.entries.length) :
    registered (registry.add start) plugin = registered registry plugin := by
  rw [registered, registered, PluginRegistry.add, List.getElem?_append_left hlt]

theorem registered_added (registry : PluginRegistry) (start : PluginStart) :
    registered (registry.add start) registry.entries.length = start.declared := by
  rw [registered, PluginRegistry.add, List.getElem?_concat_length]
  rfl

/-- A supervisor that has just been started for the first time. -/
theorem Starts.first {spec : PluginModuleConfig} {answers : StartAnswers}
    {result : Except LiveError PluginDescriptor}
    (h : Starts sha256 (PluginSupervisor.new spec) own answers result)
    (hregistered : registered system.registry plugin = PluginStart.declared ⟨spec.id, result⟩) :
    Sound sha256 system plugin own := by
  have hpending : Plugin.pending own = [] := by
    rw [Plugin.pending, h.current, h.mailbox]
    rfl
  constructor
  case verified =>
    rw [h.spec]
    intro process hprocess
    rcases h.processes with hsame | ⟨spawned, hverified, hmore⟩
    · rw [hsame] at hprocess
      cases hprocess
    · rw [hmore] at hprocess
      exact List.mem_singleton.mp hprocess ▸ hverified
  case client =>
    intro number heq
    obtain ⟨descriptor, executable, rfl, -, hmore, rfl⟩ := h.client number heq
    refine ⟨_, by rw [hmore, List.getElem?_concat_length], fun operation hoperation => ⟨_, rfl, ?_⟩⟩
    rw [hregistered] at hoperation
    obtain ⟨described, hdescribed, rfl⟩ := List.mem_map.mp hoperation
    exact List.mem_map.mpr ⟨described, hdescribed, rfl⟩
  case nodup =>
    rw [hpending]
    exact List.nodup_nil
  case pending =>
    rw [hpending]
    exact nofun

theorem AllSound.added {spec : PluginModuleConfig} {answers : StartAnswers}
    {started : Except LiveError PluginDescriptor} (h : AllSound sha256 system)
    (hstarts : Starts sha256 (.new spec) own answers started) :
    AllSound sha256 { system with
      registry := system.registry.add ⟨spec.id, started⟩
      supervisors := system.supervisors ++ [own] } := by
  have hgrown : (system.registry.add ⟨spec.id, started⟩).entries.length =
      system.registry.entries.length + 1 := by
    rw [PluginRegistry.add, List.length_append, List.length_singleton]
  constructor
  case lengths =>
    rw [List.length_append, List.length_singleton, ← h.lengths]
    exact hgrown
  case placed =>
    intro call hcall
    rw [hgrown]
    exact Nat.lt_succ_of_lt (h.placed call hcall)
  case supervisors =>
    intro plugin own hplace
    rcases Nat.lt_or_ge plugin system.supervisors.length with hlt | hge
    · rw [List.getElem?_append_left hlt] at hplace
      obtain ⟨hverified, hclient, hnodup, hpending⟩ := h.supervisors plugin own hplace
      have hlower : plugin < system.registry.entries.length := h.lengths ▸ hlt
      have hsame := registered_add ⟨spec.id, started⟩ hlower
      constructor
      case verified => exact hverified
      case nodup => exact hnodup
      case client => exact hsame ▸ hclient
      case pending => exact hsame ▸ hpending
    · have hplugin : plugin = system.supervisors.length := by
        have hshort := (List.getElem?_eq_some_iff.mp hplace).1
        rw [List.length_append, List.length_singleton] at hshort
        omega
      subst hplugin
      rw [List.getElem?_concat_length] at hplace
      obtain rfl := Option.some.inj hplace
      refine hstarts.first ?_
      rw [← h.lengths]
      exact registered_added ..
  case bounded =>
    constructor
    case requested => exact h.bounded.requested
    case declared =>
      intro delivery hdelivery
      obtain ⟨own, process, hplace, hprocess⟩ := h.bounded.declared delivery hdelivery
      refine ⟨own, process, ?_, hprocess⟩
      rw [List.getElem?_append_left (List.getElem?_eq_some_iff.mp hplace).1, hplace]
    case verified =>
      intro own hown
      rcases List.mem_append.mp hown with hold | hnew
      · exact h.bounded.verified own hold
      · obtain rfl := List.mem_singleton.mp hnew
        intro process hprocess
        rw [hstarts.spec]
        rcases hstarts.processes with hsame | ⟨spawned, hverified, hmore⟩
        · rw [hsame] at hprocess
          cases hprocess
        · rw [hmore] at hprocess
          exact List.mem_singleton.mp hprocess ▸ hverified
    case once =>
      intro number call hcall hwrites
      rw [registered_add _ (h.placed call (List.mem_of_getElem? hcall))] at hwrites
      exact h.bounded.once number call hcall hwrites

theorem admission_ok {registry : PluginRegistry} {name operation payload : String} {place : Nat}
    (h : admission fromStr registry name operation payload = .ok place)
    (hdeclared : registered registry place ≠ []) :
    place < registry.entries.length ∧ operation ∈ (registered registry place).map Prod.fst := by
  unfold admission at h
  obtain ⟨-, -, h⟩ := Result.bind_ok.mp h
  split at h
  · cases h
  · rename_i found hfound
    dsimp only at h
    split at h
    · cases h
    · rename_i hprovided
      obtain rfl := Except.ok.inj h
      refine ⟨(List.findIdx?_eq_some_iff_findIdx_eq.mp hfound).1, ?_⟩
      rw [← registered, not_and, Decidable.not_not] at hprovided
      obtain ⟨declared, hmem, hname⟩ := List.any_eq_true.mp (hprovided hdeclared)
      exact List.mem_map.mpr ⟨declared, hmem, of_decide_eq_true hname⟩

/-- A call that is new to the system has not reached any process. -/
theorem AllSound.unused (h : AllSound sha256 system) : system.deliveriesOf system.calls.length = 0 := by
  rw [System.deliveriesOf, List.countP_eq_zero]
  intro delivery hdelivery heq
  obtain ⟨call, hcall, -⟩ := h.bounded.requested delivery hdelivery
  have hlt := (List.getElem?_eq_some_iff.mp hcall).1
  rw [of_decide_eq_true heq] at hlt
  exact absurd hlt (Nat.lt_irrefl _)

/-- A call that no supervisor has been asked yet. -/
theorem AllSound.asked {call : Call} (h : AllSound sha256 system)
    (hplaced : call.plugin < system.registry.entries.length) :
    AllSound sha256 { system with calls := system.calls ++ [call] } := by
  have hold : ∀ {number : Nat} {found : Call}, system.calls[number]? = some found →
      (system.calls ++ [call])[number]? = some found := by
    intro number found hfound
    rw [List.getElem?_append_left (List.getElem?_eq_some_iff.mp hfound).1, hfound]
  constructor
  case lengths => exact h.lengths
  case placed =>
    intro found hfound
    rcases List.mem_append.mp hfound with hmem | hnew
    · exact h.placed found hmem
    · exact List.mem_singleton.mp hnew ▸ hplaced
  case supervisors =>
    intro plugin own hplace
    obtain ⟨hverified, hclient, hnodup, hpending⟩ := h.supervisors plugin own hplace
    refine ⟨hverified, hclient, hnodup, fun number hnumber => ?_⟩
    obtain ⟨found, hfound, hrest⟩ := hpending number hnumber
    exact ⟨found, hold hfound, hrest⟩
  case bounded =>
    constructor
    case requested =>
      intro delivery hdelivery
      obtain ⟨found, hfound, hoperation⟩ := h.bounded.requested delivery hdelivery
      exact ⟨found, hold hfound, hoperation⟩
    case declared => exact h.bounded.declared
    case verified => exact h.bounded.verified
    case once =>
      intro number found hfound hwrites
      rcases Nat.lt_or_ge number system.calls.length with hlt | hge
      · rw [List.getElem?_append_left hlt] at hfound
        exact h.bounded.once number found hfound hwrites
      · have hnumber : number = system.calls.length := by
          have hshort := (List.getElem?_eq_some_iff.mp hfound).1
          rw [List.length_append, List.length_singleton] at hshort
          omega
        subst hnumber
        exact h.unused.le.trans (Nat.zero_le 1)

/-- A new call waits for its supervisor. -/
theorem AllSound.invoked {operation payload : String} (h : AllSound sha256 system)
    (hplace : system.supervisors[plugin]? = some own)
    (hregistered : operation ∈ (registered system.registry plugin).map Prod.fst) :
    AllSound sha256 { system.put plugin { own with mailbox := own.mailbox ++ [system.calls.length] } with
      calls := system.calls ++ [⟨plugin, operation, payload⟩] } := by
  have hplaced : plugin < system.registry.entries.length := by
    rw [h.lengths]
    exact (List.getElem?_eq_some_iff.mp hplace).1
  have hasked : AllSound sha256 { system with
      calls := system.calls ++ [⟨plugin, operation, payload⟩] } := h.asked hplaced
  have hpending : Plugin.pending { own with mailbox := own.mailbox ++ [system.calls.length] } =
      Plugin.pending own ++ [system.calls.length] := (List.append_assoc ..).symm
  have hfresh : system.calls.length ∉ Plugin.pending own := by
    intro hmem
    obtain ⟨call, hcall, -⟩ := (h.supervisors plugin own hplace).pending _ hmem
    exact absurd (List.getElem?_eq_some_iff.mp hcall).1 (Nat.lt_irrefl _)
  obtain ⟨hverified, hclient, hnodup, hknown⟩ := hasked.supervisors plugin own hplace
  refine hasked.put hplace ⟨hverified, hclient, ?_, ?_⟩ (List.prefix_refl _)
  · rw [hpending]
    exact hnodup.append (List.nodup_singleton _) (List.disjoint_singleton.mpr hfresh)
  · rw [hpending]
    intro number hnumber
    rcases List.mem_append.mp hnumber with hold | hnew
    · exact hknown number hold
    · obtain rfl := List.mem_singleton.mp hnew
      exact ⟨_, List.getElem?_concat_length, rfl, hregistered, fun _ => h.unused⟩

/-- All that settling a call can do: it is answered, or it is tried again. -/
theorem settle_moves (system : System) (plugin number restarts : Nat) (own : PluginSupervisor)
    (outcome : Except Status InvokeResponse) :
    ∃ moved replies, settle system plugin number restarts own outcome =
        { system.put plugin moved with replies } ∧ moved.processes = own.processes ∧
      (Plugin.pending moved = own.mailbox ∨ ∃ status, outcome = .error status ∧
        restartable status = true ∧ restarts < maxRestarts) := by
  cases outcome with
  | ok response => exact ⟨_, _, rfl, rfl, .inl rfl⟩
  | error status =>
    simp only [settle]
    split
    · rename_i hagain
      exact ⟨_, _, rfl, rfl, .inr ⟨status, rfl, hagain⟩⟩
    · exact ⟨_, _, rfl, rfl, .inl rfl⟩

theorem settle_deliveries (number restarts : Nat) (own : PluginSupervisor)
    (outcome : Except Status InvokeResponse) (deliveries : List Delivery) :
    settle { system with deliveries } plugin number restarts own outcome =
      { settle system plugin number restarts own outcome with deliveries } := by
  cases outcome with
  | ok response => rfl
  | error status =>
    simp only [settle]
    split <;> rfl

/-- A call that is no read and has reached a process is not tried again. -/
theorem AllSound.reached {number restarts process : Nat} {call : Call}
    {outcome : Except Status InvokeResponse} (h : AllSound sha256 system)
    (hplace : system.supervisors[plugin]? = some own)
    (hcurrent : own.current = some (number, restarts)) (hclient : own.client = some process)
    (hcall : system.calls[number]? = some call)
    (hregular : (call.operation, .read) ∉ registered system.registry call.plugin →
      ∀ status, outcome = .error status → restartable status = true → maxRestarts ≤ restarts) :
    AllSound sha256 (settle
      { system with deliveries := system.deliveries ++ [⟨number, plugin, process, call.operation⟩] }
      plugin number restarts own outcome) := by
  have hown := h.supervisors plugin own hplace
  have hlt := (List.getElem?_eq_some_iff.mp hplace).1
  have hpending : Plugin.pending own = number :: own.mailbox := by
    rw [Plugin.pending, hcurrent]
    rfl
  obtain ⟨found, hfound, hplugin, hdeclared, hzero⟩ :=
    hown.pending number (hpending ▸ List.mem_cons_self)
  obtain rfl := Option.some.inj (hcall.symm.trans hfound)
  obtain ⟨spawned, hspawned, hdeclares⟩ := hown.client process hclient
  obtain ⟨operation, hoperation, hname⟩ := List.mem_map.mp hdeclared
  have hsettled := h.settled hplace hcurrent outcome
  obtain ⟨moved, replies, hsettle, hprocesses, hended⟩ :=
    settle_moves system plugin number restarts own outcome
  rw [settle_deliveries]
  rw [hsettle] at hsettled ⊢
  refine hsettled.delivered hcall rfl
    ⟨moved, spawned, List.getElem?_set_self hlt, ?_, hname ▸ hdeclares operation hoperation⟩ ?_
  · rw [hprocesses, hspawned]
  · by_cases hreads : (call.operation, .read) ∈ registered system.registry call.plugin
    · exact .inl hreads
    · refine .inr ⟨hzero (hplugin ▸ hreads), fun other its hits hmem => ?_⟩
      obtain ⟨named, hnamed, hother, -⟩ := (hsettled.supervisors other its hits).pending number hmem
      obtain rfl := Option.some.inj (hcall.symm.trans hnamed)
      obtain rfl : plugin = other := hplugin.symm.trans hother
      obtain rfl := Option.some.inj ((List.getElem?_set_self hlt).symm.trans hits)
      rcases hended with hanswered | ⟨status, houtcome, hagain, hfew⟩
      · rw [hanswered] at hmem
        exact (List.nodup_cons.mp (hpending ▸ hown.nodup)).1 hmem
      · exact absurd hfew (Nat.not_lt.mpr (hregular hreads status houtcome hagain))

theorem AllSound.new : AllSound sha256 System.new where
  lengths := rfl
  supervisors _ _ hown := nomatch hown
  placed _ hmem := nomatch hmem
  bounded := ⟨fun _ hmem => (nomatch hmem), fun _ hmem => (nomatch hmem),
    fun _ hmem => (nomatch hmem), fun _ _ hcall => nomatch hcall⟩

theorem AllSound.step {action : Action} (h : AllSound sha256 system)
    (hregular : action.Regular fromStr system)
    (hnext : step sha256 fromStr system action = some next) : AllSound sha256 next := by
  cases action with
  | add spec answers =>
    obtain rfl := Option.some.inj hnext
    exact h.added (start_starts rfl)
  | invoke name operation payload =>
    simp only [Plugin.step] at hnext
    split at hnext
    · obtain rfl := Option.some.inj hnext
      exact h
    · rename_i place hplace
      obtain ⟨own, hown, hnext⟩ := Option.bind_eq_some_iff.mp hnext
      obtain rfl := Option.some.inj hnext
      exact h.invoked hown (admission_ok hplace (hregular place hplace)).2
  | serve plugin =>
    obtain ⟨own, hown, hnext⟩ := Option.bind_eq_some_iff.mp hnext
    split at hnext
    · rename_i call rest hcurrent hmailbox
      obtain rfl := Option.some.inj hnext
      refine h.put hown ((h.supervisors plugin own hown).fewer rfl rfl (.inl rfl) ?_)
        (List.prefix_refl _)
      rw [pending, pending, hcurrent, hmailbox]
      exact .refl _
    · cases hnext
  | start plugin answers =>
    obtain ⟨own, hown, hnext⟩ := Option.bind_eq_some_iff.mp hnext
    split at hnext
    · rename_i call restarts hcurrent hclient
      split at hnext
      · rename_i descriptor moved hstart
        obtain rfl := Option.some.inj hnext
        have hstarts := start_starts hstart
        exact h.put hown ((h.supervisors plugin own hown).started hstarts hregular) hstarts.keeps
      · rename_i error moved hstart
        obtain rfl := Option.some.inj hnext
        have hstarts := start_starts hstart
        have hmoved := (h.supervisors plugin own hown).started hstarts hregular
        have hput : AllSound sha256 (system.put plugin { moved with current := none }) :=
          h.put hown (hmoved.fewer rfl rfl (.inl rfl) (List.sublist_append_right ..)) hstarts.keeps
        exact hput.replied _
    · cases hnext
  | deliver plugin reached outcome =>
    obtain ⟨own, hown, hnext⟩ := Option.bind_eq_some_iff.mp hnext
    split at hnext
    · rename_i number restarts process hcurrent hclient
      obtain ⟨call, hcall, hnext⟩ := Option.bind_eq_some_iff.mp hnext
      obtain rfl := Option.some.inj hnext
      split
      · rename_i hreached
        exact h.reached hown hcurrent hclient hcall
          (hregular hreached.1 own number restarts call hown hcurrent hcall)
      · exact h.settled hown hcurrent outcome
    · cases hnext
  | crash plugin =>
    obtain ⟨own, hown, hnext⟩ := Option.bind_eq_some_iff.mp hnext
    obtain rfl := Option.some.inj hnext
    exact h.put hown ((h.supervisors plugin own hown).fewer rfl rfl (.inl rfl) (.refl _))
      (List.prefix_refl _)

end Steps

/-- A request goes to a process that was verified before it was spawned and that declared the
operation, and one for another operation than a read goes at most once. -/
theorem invocation_bounded (sha256 : Bytes → Vector UInt8 32)
    (fromStr : String → Except String Json) (system : System)
    (h : Reaches (step sha256 fromStr) (fun system action => action.Regular fromStr system)
      System.new system) : Bounded sha256 system :=
  (h.invariant AllSound.new fun _ _ _ hsound hregular hnext => hsound.step hregular hnext).bounded

/-! ### Runs of one plugin -/

/-- The digest of no bytes, with any other told from it by its length. -/
def emptySha256 (bytes : Bytes) : Vector UInt8 32 :=
  #v[0xe3, 0xb0, 0xc4, 0x42, 0x98, 0xfc, 0x1c, 0x14, 0x9a, 0xfb, 0xf4, 0xc8, 0x99, 0x6f, 0xb9, 0x24,
    0x27, 0xae, 0x41, 0xe4, 0x64, 0x9b, 0x93, 0x4c, 0xa4, 0x95, 0x99, 0x1b, 0x78, 0x52, 0xb8,
    0x55 + UInt8.ofNat bytes.length]

def nullFromStr (text : String) : Except String Json :=
  if text = "null" then .ok .null else .error "expected value at line 1 column 1"

def notesSpec : PluginModuleConfig where
  id := "notes"
  path := "/opt/notes"
  sha256 := "e3b0c44298fc1c149afbf4c8996fb92427ae41e4649b934ca495991b7852b855"

/-- A start that goes well, and what the plugin says of itself. -/
def describes (operations : List PluginOperation) : StartAnswers where
  executable := .ok []
  spawned := .ok ()
  connected := .ok ()
  described := .ok ⟨"notes", operations, 1⟩
  pinged := .ok ()

def unspawned : StartAnswers :=
  { describes [] with spawned := .error (.io "spawn plugin notes from /opt/notes: busy") }

/-- The plugin cannot be started when it is registered, and offers a read when it is asked to
erase. -/
def undeclared : List Action := [
  .add notesSpec unspawned,
  .invoke "notes" "erase" "null",
  .serve 0,
  .start 0 (describes [⟨"list", 1⟩]),
  .deliver 0 true (.ok ⟨"", "", []⟩)]

/-- The plugin answers a request to erase with a failure of its own. -/
def repeated : List Action := [
  .add notesSpec (describes [⟨"erase", 2⟩]),
  .invoke "notes" "erase" "null",
  .serve 0,
  .deliver 0 true (.error ⟨.unknown, "half erased"⟩),
  .start 0 (describes [⟨"erase", 2⟩]),
  .deliver 0 true (.ok ⟨"", "", []⟩)]

def observe (system : System) : List Delivery × List (List (Option (List String))) :=
  (system.deliveries, system.supervisors.map fun own => own.processes.map (·.declared))

/-- A request can reach a process that has not declared its operation, and one to change something
can reach a process twice. -/
theorem invocation_unbounded :
    (∃ system, Reaches (step emptySha256 nullFromStr) (fun _ _ => True) .new system ∧
      observe system = ([⟨0, 0, 0, "erase"⟩], [[some ["list"]]]) ∧ ¬ Bounded emptySha256 system) ∧
    ∃ system, Reaches (step emptySha256 nullFromStr) (fun _ _ => True) .new system ∧
      system.deliveries = [⟨0, 0, 0, "erase"⟩, ⟨0, 0, 1, "erase"⟩] ∧
      ¬ Bounded emptySha256 system := by
  constructor
  · have hobserved : (run (step emptySha256 nullFromStr) undeclared .new).map observe =
        some ([⟨0, 0, 0, "erase"⟩], [[some ["list"]]]) := by decide
    obtain ⟨system, hrun, hsystem⟩ := Option.map_eq_some_iff.mp hobserved
    refine ⟨system, Reaches.start.run hrun, hsystem, fun hbounded => ?_⟩
    obtain ⟨hdeliveries, hprocesses⟩ := Prod.mk.inj hsystem
    obtain ⟨own, process, hown, hprocess, declared, hdeclared, hoperation⟩ :=
      hbounded.declared ⟨0, 0, 0, "erase"⟩ (hdeliveries ▸ List.mem_singleton_self _)
    have hfirst : (system.supervisors.map fun own => own.processes.map (·.declared))[0]? =
        some [some ["list"]] := congrArg (·[0]?) hprocesses
    rw [List.getElem?_map, hown] at hfirst
    have hdescribed : (own.processes.map (·.declared))[0]? = some (some ["list"]) :=
      congrArg (·[0]?) (Option.some.inj hfirst)
    rw [List.getElem?_map, hprocess] at hdescribed
    obtain rfl := Option.some.inj (hdeclared.symm.trans (Option.some.inj hdescribed))
    exact absurd hoperation (by decide)
  · have hobserved : (run (step emptySha256 nullFromStr) repeated .new).map
          (fun system => (system.deliveries, system.calls, registered system.registry 0)) =
        some ([⟨0, 0, 0, "erase"⟩, ⟨0, 0, 1, "erase"⟩], [⟨0, "erase", "null"⟩],
          [("erase", .mutation)]) := by decide
    obtain ⟨system, hrun, hsystem⟩ := Option.map_eq_some_iff.mp hobserved
    obtain ⟨hdeliveries, hrest⟩ := Prod.mk.inj hsystem
    obtain ⟨hcalls, hregistered⟩ := Prod.mk.inj hrest
    refine ⟨system, Reaches.start.run hrun, hdeliveries, fun hbounded => ?_⟩
    have honce := hbounded.once 0 ⟨0, "erase", "null"⟩ (by rw [hcalls]; rfl)
      (by rw [hregistered]; decide)
    rw [System.deliveriesOf, hdeliveries] at honce
    exact absurd honce (by decide)

/-- Enough of `Regular` for a run to be checked. -/
def Action.keeps (fromStr : String → Except String Json) (system : System) : Action → Bool
  | .invoke plugin operation payload => match admission fromStr system.registry plugin operation payload with
    | .ok place => !(registered system.registry place).isEmpty
    | .error _ => true
  | .start plugin answers => match answers.described with
    | .ok descriptor => (registered system.registry plugin).all fun operation =>
      (descriptor.operations.map (·.id)).contains operation.1
    | .error _ => true
  | .deliver plugin _ (.error _) =>
    (((system.supervisors[plugin]?).bind (·.current)).bind fun current => system.calls[current.1]?).all
      fun call => (registered system.registry call.plugin).contains (call.operation, .read)
  | _ => true

theorem Action.keeps_regular {fromStr : String → Except String Json} {system : System}
    {action : Action} (h : action.keeps fromStr system = true) : action.Regular fromStr system := by
  cases action with
  | invoke plugin operation payload =>
    intro place hplace hnone
    rw [Action.keeps, hplace] at h
    simp only [hnone] at h
    cases h
  | start plugin answers =>
    intro descriptor hdescribed operation hoperation
    rw [Action.keeps, hdescribed] at h
    exact List.contains_iff_mem.mp (List.all_eq_true.mp h operation hoperation)
  | deliver plugin reached outcome =>
    intro _ own number restarts call hown hcurrent hcall hwrites status houtcome
    subst houtcome
    simp only [Action.keeps, hown, Option.bind_some, hcurrent, hcall, Option.all_some] at h
    exact absurd (List.contains_iff_mem.mp h) hwrites
  | _ => trivial

/-- A read that is tried again, then a request to erase. -/
def ordinary : List Action := [
  .add notesSpec (describes [⟨"list", 1⟩, ⟨"erase", 2⟩]),
  .invoke "notes" "list" "null",
  .serve 0,
  .deliver 0 true (.error ⟨.unavailable, "broken pipe"⟩),
  .start 0 (describes [⟨"list", 1⟩, ⟨"erase", 2⟩]),
  .deliver 0 true (.ok ⟨"", "", []⟩),
  .invoke "notes" "erase" "null",
  .serve 0,
  .deliver 0 true (.ok ⟨"", "", []⟩)]

theorem invocation_bounded_ordinary : ∃ system,
    system.deliveries = [⟨0, 0, 0, "list"⟩, ⟨0, 0, 1, "list"⟩, ⟨1, 0, 1, "erase"⟩] ∧
      Bounded emptySha256 system := by
  have hobserved : (checked (step emptySha256 nullFromStr)
      (fun system action => action.keeps nullFromStr system) ordinary .new).map (·.deliveries) =
        some [⟨0, 0, 0, "list"⟩, ⟨0, 0, 1, "list"⟩, ⟨1, 0, 1, "erase"⟩] := by decide
  obtain ⟨system, hrun, hsystem⟩ := Option.map_eq_some_iff.mp hobserved
  exact ⟨system, hsystem, invocation_bounded emptySha256 nullFromStr system
    (Reaches.start.checked (fun _ _ => Action.keeps_regular) hrun)⟩

end HologramLive.Plugin
