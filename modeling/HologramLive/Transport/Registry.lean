import HologramLive.Lib.Table
import HologramLive.Transport.Routes
import Mathlib.Data.List.Dedup

namespace HologramLive.Transport
open Lib Lib.Result

def protocolVersion : Nat := 1

structure ModuleInfo where
  id : String
  state : String
  dependencies : List String
  operations : List String

/-- The modules of a daemon, dependencies first, and their operations by id. -/
structure ModuleRegistry where
  modules : List ModuleDescriptor
  operations : List (String × OperationDescriptor)

namespace ModuleRegistry

def available (id : String) : Option ModuleDescriptor :=
  Modules.builtins.find? fun candidate => candidate.id = id

/-- How far the resolution of the enabled modules has come. -/
structure Progress where
  visited : List String := []
  ordered : List ModuleDescriptor := []

/-- Resolve a module below the ones in `visiting`, its dependencies first. A module is
never resolved below itself, so the available modules bound the depth. -/
def visit (enabled : List String) : Nat → List String → Progress → String →
    Except LiveError Progress
  | 0, _, _, id => .error (.conflict s!"module dependency cycle includes {id}")
  | fuel + 1, visiting, progress, id =>
    if id ∈ progress.visited then .ok progress
    else if id ∈ visiting then .error (.conflict s!"module dependency cycle includes {id}")
    else
      match available id with
      | none => .error (.capability s!"unknown module {id}")
      | some found => do
        let progress ← found.dependencies.foldlM (fun progress dependency =>
          if dependency ∉ enabled then
            .error (.capability s!"module {id} requires disabled module {dependency}")
          else visit enabled fuel (id :: visiting) progress dependency) progress
        .ok ⟨id :: progress.visited, progress.ordered ++ [found]⟩

def depth : Nat := Modules.builtins.length + 1

/-- Take an operation into the registry, unless another module has it. -/
def claim (operations : List (String × OperationDescriptor)) (operation : OperationDescriptor) :
    Except LiveError (List (String × OperationDescriptor)) :=
  if (operations.lookup operation.id).isSome then
    .error (.conflict s!"operation {operation.id} is provided by more than one module")
  else .ok (Table.insert operations operation.id operation)

def build (enabled : List String) : Except LiveError ModuleRegistry := do
  let enabled := enabled.dedup.insertionSort (· ≤ ·)
  let progress ← enabled.foldlM (visit enabled depth []) {}
  let operations ← (progress.ordered.flatMap (·.operations)).foldlM claim []
  .ok ⟨progress.ordered, operations⟩

def supports (registry : ModuleRegistry) (operation : String) : Bool :=
  (registry.operations.lookup operation).isSome

/-- The operations as the capability manifest lists them, in the order of their ids. -/
def operationInfos (registry : ModuleRegistry) : List OperationDescriptor :=
  (Table.listing registry.operations).map Prod.snd

def info (registry : ModuleRegistry) : List ModuleInfo :=
  registry.modules.map fun descriptor =>
    ⟨descriptor.id, "ready", descriptor.dependencies, descriptor.operations.map (·.id)⟩

end ModuleRegistry

/-- An operation as a plugin declares it, its kind as the number on the wire. -/
structure PluginOperation where
  id : String
  kind : Int

structure PluginDescriptor where
  id : String
  operations : List PluginOperation
  minProtocol : Nat

/-- What is not a read or a stream counts as a mutation. -/
def operationKind (kind : Int) : OperationKind :=
  if kind = 1 then .read else if kind = 3 then .stream else .mutation

/-- The checks on what a started process answers, under the answers to `Describe` and `Ping`. -/
def handshake (expectedId : String) (described : Except LiveError PluginDescriptor)
    (pinged : Except LiveError Unit) : Except LiveError PluginDescriptor := do
  let descriptor ← described
  if descriptor.id ≠ expectedId then
    .error (.protocol
      s!"plugin handshook as {descriptor.id} but the allowlist expects {expectedId}")
  else if descriptor.minProtocol > protocolVersion then
    .error <| .capability <|
      s!"plugin {expectedId} requires protocol v{descriptor.minProtocol} but " ++
      s!"this server speaks v{protocolVersion}"
  else do
    pinged
    .ok descriptor

structure PluginEntry where
  id : String
  operations : List (String × OperationKind)
  startError : Option LiveError

structure PluginRegistry where
  entries : List PluginEntry := []
  operations : List (String × OperationKind) := []

/-- An allowlisted plugin and what starting it came to. -/
structure PluginStart where
  id : String
  started : Except LiveError PluginDescriptor

/-- The operations of the plugin, if it runs. -/
def PluginStart.declared (start : PluginStart) : List (String × OperationKind) :=
  match start.started with
  | .ok descriptor =>
    descriptor.operations.map fun operation => (operation.id, operationKind operation.kind)
  | .error _ => []

namespace PluginRegistry

/-- A later plugin's operation shadows an earlier one's; a plugin that fails to start is
kept with its error. -/
def add (registry : PluginRegistry) (start : PluginStart) : PluginRegistry where
  entries := registry.entries ++ [{
    id := start.id
    operations := start.declared
    startError := match start.started with
      | .ok _ => none
      | .error error => some error }]
  operations := start.declared.foldl
    (fun operations operation => Table.insert operations operation.1 operation.2)
    registry.operations

def build (enabled : Bool) (plugins : List PluginStart) : PluginRegistry :=
  if enabled then plugins.foldl add {} else {}

def supports (registry : PluginRegistry) (operation : String) : Bool :=
  (registry.operations.lookup operation).isSome

def operationInfos (registry : PluginRegistry) : List OperationDescriptor :=
  (Table.listing registry.operations).map fun operation =>
    ⟨operation.1, operation.2, operation.2 = .read⟩

def info (registry : PluginRegistry) : List ModuleInfo :=
  registry.entries.map fun entry =>
    ⟨entry.id, if entry.startError.isSome then "failed" else "ready", [],
      entry.operations.map Prod.fst⟩

end PluginRegistry

structure CapabilityManifest where
  protocolVersion : Nat
  operations : List OperationDescriptor
  modules : List ModuleInfo

def capabilityManifest (modules : ModuleRegistry) (plugins : PluginRegistry) :
    CapabilityManifest where
  protocolVersion := protocolVersion
  operations := modules.operationInfos ++ plugins.operationInfos
  modules := modules.info ++ plugins.info

namespace ModuleRegistry

/-- The available modules that are not being resolved. -/
def unvisited (visiting : List String) : List ModuleDescriptor :=
  Modules.builtins.filter fun candidate => candidate.id ∉ visiting

theorem available_some {id : String} (h : available id = some found) :
    found ∈ Modules.builtins ∧ found.id = id :=
  ⟨List.mem_of_find?_eq_some h, by simpa using List.find?_some h⟩

/-- No two modules have one id. -/
theorem builtins_unique {owner other : ModuleDescriptor} (howner : owner ∈ Modules.builtins)
    (hother : other ∈ Modules.builtins) (h : owner.id = other.id) : owner = other := by
  have hunique : ∀ owner ∈ Modules.builtins, ∀ other ∈ Modules.builtins,
      owner.id = other.id → owner = other := by decide +kernel
  exact hunique owner howner other hother h

theorem unvisited_lt {id : String} (h : available id = some found) (hfresh : id ∉ visiting) :
    (unvisited (id :: visiting)).length < (unvisited visiting).length := by
  obtain ⟨hmem, rfl⟩ := available_some h
  have hsub : unvisited (found.id :: visiting) =
      (unvisited visiting).filter fun candidate => candidate.id ≠ found.id := by
    simp [unvisited, List.filter_filter, and_comm]
  rw [hsub, List.length_filter_lt_length_iff_exists]
  exact ⟨found, by simp [unvisited, hmem, hfresh], by simp⟩

/-- With fuel for every module that is not being resolved, more fuel changes nothing: a
cycle is found before the fuel is out. -/
theorem visit_fuel (enabled : List String) (fuel : Nat) (visiting : List String)
    (progress : Progress) (id : String) (h : (unvisited visiting).length < fuel) :
    visit enabled fuel visiting progress id = visit enabled (fuel + 1) visiting progress id := by
  induction fuel generalizing visiting progress id with
  | zero => cases h
  | succ fuel ih =>
    rw [visit, visit]
    split
    · rfl
    · split
      · rfl
      · rename_i hfresh
        split
        · rfl
        · rename_i found hfound
          have hfuel := unvisited_lt hfound hfresh
          have hsame : ∀ progress dependency, visit enabled fuel (id :: visiting) progress dependency =
              visit enabled (fuel + 1) (id :: visiting) progress dependency :=
            fun progress dependency => ih _ _ _ (by omega)
          simp only [hsame]

/-- Every fuel from `depth` on resolves a module in the same way. -/
theorem visit_depth (enabled : List String) (extra : Nat) (progress : Progress) (id : String) :
    visit enabled (depth + extra) [] progress id = visit enabled depth [] progress id := by
  have hdepth : (unvisited []).length < depth :=
    Nat.lt_succ_of_le (List.length_filter_le ..)
  induction extra with
  | zero => rfl
  | succ extra ih => rw [← ih, ← Nat.add_assoc, ← visit_fuel _ _ _ _ _ (by omega)]

end ModuleRegistry

end HologramLive.Transport
