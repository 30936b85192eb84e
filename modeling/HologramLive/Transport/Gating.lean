import HologramLive.Transport.Parity
import HologramLive.Transport.Registry

namespace HologramLive.Transport
open Lib Lib.Result Lib.Lookup

/-- The operations of the built-in modules, whether enabled or not. -/
def Provides (owner : ModuleDescriptor) (operation : String) : Prop :=
  ∃ declared ∈ owner.operations, declared.id = operation

def BuiltIn (operation : String) : Prop := ∃ owner ∈ Modules.builtins, Provides owner operation

namespace RpcRequest

/-- A request of every form. -/
def forms : List RpcRequest :=
  [.handshake, .health, .shutdown, .modulesList, .tracingGet, .tracingSet "", .registryList,
    .registryPut "" "" none [], .registryGet "", .registrySearch {}, .filesList,
    .filesPut "" none [], .filesGet "", .filesRename "" "", .filesSearch {}, .holoImport "" [],
    .holoList, .holoInspect "", .holoPlan "", .holoVerify "", .holoRemove "", .holoLoad "",
    .holoUnload "", .holoRun "" [], .holoResident, .historyCreate "", .historyList false,
    .historyGet "", .historyAppend "" "" "", .historyDelete "", .historyArchive "" false,
    .chatSend "" "", .modelList, .modelImport "", .modelRemove "", .nodesList,
    .nodeHeartbeat ⟨"", "", [], 0⟩, .pluginList, .pluginCall "" "" ""]

/-- The modules declare every request's operation, with the kind the request has. -/
theorem declared (request : RpcRequest) : ∃ owner ∈ Modules.builtins,
    ∃ declared ∈ owner.operations,
      declared.id = request.operation ∧ declared.kind = request.kind := by
  cases request <;> simp only [operation, kind] <;> decide +kernel

theorem builtIn (request : RpcRequest) : BuiltIn request.operation := by
  obtain ⟨owner, howner, declared, hdeclared, hid, _⟩ := request.declared
  exact ⟨owner, howner, declared, hdeclared, hid⟩

end RpcRequest

/-- Every built-in operation is that of a request. -/
theorem BuiltIn.requested (h : BuiltIn operation) :
    ∃ request : RpcRequest, request.operation = operation := by
  have hforms : ∀ owner ∈ Modules.builtins, ∀ declared ∈ owner.operations,
      declared.id ∈ RpcRequest.forms.map RpcRequest.operation := by decide +kernel
  obtain ⟨owner, howner, declared, hdeclared, rfl⟩ := h
  obtain ⟨request, _, hrequest⟩ := List.mem_map.mp (hforms owner howner declared hdeclared)
  exact ⟨request, hrequest⟩

namespace Modules

/-- No operation belongs to two modules, and none is declared in two ways. -/
theorem declared_unique (howner : owner ∈ builtins) (hdeclared : declared ∈ owner.operations)
    (hother : other ∈ builtins) (hdeclared' : declared' ∈ other.operations)
    (h : declared.id = declared'.id) : declared = declared' := by
  have hunique : ∀ owner ∈ builtins, ∀ declared ∈ owner.operations, ∀ other ∈ builtins,
      ∀ declared' ∈ other.operations, declared.id = declared'.id → declared = declared' := by
    decide +kernel
  exact hunique owner howner declared hdeclared other hother declared' hdeclared' h

end Modules

namespace ModuleRegistry

/-- What is resolved so far: enabled modules, each visited. -/
structure Progress.Sound (enabled : List String) (progress : Progress) : Prop where
  known : ∀ owner ∈ progress.ordered, owner ∈ Modules.builtins ∧ owner.id ∈ enabled
  visited : ∀ id ∈ progress.visited, ∃ owner ∈ progress.ordered, owner.id = id

/-- Resolving an enabled module keeps what was resolved and adds the module. -/
theorem visit_sound (enabled : List String) (fuel : Nat) (visiting : List String)
    (before : Progress) (id : String) (hid : id ∈ enabled) (hsound : before.Sound enabled)
    (h : visit enabled fuel visiting before id = .ok after) :
    after.Sound enabled ∧ id ∈ after.visited ∧ ∀ other ∈ before.visited, other ∈ after.visited := by
  induction fuel generalizing visiting before id after with
  | zero => cases h
  | succ fuel ih =>
    rw [visit] at h
    split at h
    · rename_i hvisited
      cases h
      exact ⟨hsound, hvisited, fun _ hother => hother⟩
    · obtain ⟨_, h⟩ := guard_ok.mp h
      split at h
      · cases h
      · rename_i found hfound
        obtain ⟨hmem, rfl⟩ := available_some hfound
        obtain ⟨resolved, hfold, h⟩ := bind_ok.mp h
        cases h
        obtain ⟨hsound', _, hkept⟩ := foldlM_settles (fun other (progress : Progress) =>
          other ∈ progress.visited) (fun dependency _ progress next hprogress hstep => by
            obtain ⟨henabled, hstep⟩ := guard_ok.mp hstep
            exact ih _ _ _ (not_not.mp henabled) hprogress hstep) hsound hfold
        refine ⟨⟨?_, ?_⟩, List.mem_cons_self, fun other hother => ?_⟩
        · intro owner howner
          rcases List.mem_append.mp howner with hold | hnew
          · exact hsound'.known owner hold
          · obtain rfl := List.mem_singleton.mp hnew
            exact ⟨hmem, hid⟩
        · intro other hother
          rcases List.mem_cons.mp hother with rfl | hold
          · exact ⟨found, by simp, rfl⟩
          · obtain ⟨owner, howner, hidOwner⟩ := hsound'.visited other hold
            exact ⟨owner, by simp [howner], hidOwner⟩
        · exact List.mem_cons_of_mem _ (hkept other hother)

/-- The operations taken are those offered and those there were, each under its id. -/
theorem claim_all {operations : List OperationDescriptor} {table result :
    List (String × OperationDescriptor)} (h : operations.foldlM claim table = .ok result) (id : String) (declared : OperationDescriptor) :
    result.lookup id = some declared ↔
      table.lookup id = some declared ∨ declared ∈ operations ∧ declared.id = id := by
  induction operations generalizing table with
  | nil =>
    cases h
    simp
  | cons first rest ih =>
    rw [List.foldlM_cons] at h
    obtain ⟨next, hnext, h⟩ := bind_ok.mp h
    obtain ⟨hfree, hnext⟩ := guard_ok.mp hnext
    cases hnext
    rw [ih h, Table.lookup_insert, List.mem_cons]
    by_cases hid : id = first.id
    · subst hid
      have habsent : table.lookup first.id = none :=
        Option.not_isSome_iff_eq_none.mp hfree
      rw [if_pos rfl, habsent]
      grind
    · rw [if_neg hid]
      grind

theorem claim_nodup {operations : List OperationDescriptor} {table result :
    List (String × OperationDescriptor)} (hnodup : (table.map Prod.fst).Nodup) (h : operations.foldlM claim table = .ok result) :
    (result.map Prod.fst).Nodup := by
  induction operations generalizing table with
  | nil =>
    cases h
    exact hnodup
  | cons first rest ih =>
    rw [List.foldlM_cons] at h
    obtain ⟨next, hnext, h⟩ := bind_ok.mp h
    obtain ⟨_, hnext⟩ := guard_ok.mp hnext
    cases hnext
    exact ih (Table.nodup_insert hnodup _ _) h

section Built
variable {enabled : List String} {registry : ModuleRegistry} (h : build enabled = .ok registry)
include h

/-- The registry holds the enabled modules and no others. -/
theorem build_modules : (∀ owner ∈ registry.modules, owner ∈ Modules.builtins ∧ owner.id ∈ enabled) ∧
    ∀ owner ∈ Modules.builtins, owner.id ∈ enabled → owner ∈ registry.modules := by
  obtain ⟨progress, hprogress, h⟩ := bind_ok.mp h
  obtain ⟨operations, _, h⟩ := bind_ok.mp h
  cases h
  have hsorted : ∀ id, id ∈ enabled.dedup.insertionSort (· ≤ ·) ↔ id ∈ enabled := by
    intro id
    rw [List.mem_insertionSort, List.mem_dedup]
  obtain ⟨hsound, hall, _⟩ := foldlM_settles (fun other (progress : Progress) =>
    other ∈ progress.visited) (fun id hid before after hbefore hstep =>
      visit_sound _ _ _ before id hid hbefore hstep) ⟨by simp, by simp⟩ hprogress
  refine ⟨fun owner howner => ?_, fun owner howner henabled => ?_⟩
  · obtain ⟨hmem, hid⟩ := hsound.known owner howner
    exact ⟨hmem, (hsorted _).mp hid⟩
  · obtain ⟨other, hother, hid⟩ := hsound.visited _ (hall _ ((hsorted _).mpr henabled))
    obtain rfl := ModuleRegistry.builtins_unique (hsound.known other hother).1 howner hid
    exact hother

theorem build_lookup (id : String) (declared : OperationDescriptor) :
    registry.operations.lookup id = some declared ↔
      (∃ owner ∈ registry.modules, declared ∈ owner.operations) ∧ declared.id = id := by
  obtain ⟨progress, _, h⟩ := bind_ok.mp h
  obtain ⟨operations, hoperations, h⟩ := bind_ok.mp h
  cases h
  simpa using claim_all hoperations id declared

theorem build_nodup : (registry.operations.map Prod.fst).Nodup := by
  obtain ⟨progress, _, h⟩ := bind_ok.mp h
  obtain ⟨operations, hoperations, h⟩ := bind_ok.mp h
  cases h
  exact claim_nodup (by simp) hoperations

theorem build_supports (operation : String) : registry.supports operation = true ↔
    ∃ owner ∈ registry.modules, Provides owner operation := by
  rw [supports, Option.isSome_iff_exists]
  constructor
  · rintro ⟨declared, hlookup⟩
    obtain ⟨⟨owner, howner, hdeclared⟩, hid⟩ := (build_lookup h _ _).mp hlookup
    exact ⟨owner, howner, declared, hdeclared, hid⟩
  · rintro ⟨owner, howner, declared, hdeclared, hid⟩
    exact ⟨declared, (build_lookup h _ _).mpr ⟨⟨owner, howner, hdeclared⟩, hid⟩⟩

/-- Each entry of the registry is under the id it has itself. -/
theorem build_id (hentry : entry ∈ registry.operations) : entry.2.id = entry.1 :=
  ((build_lookup h _ _).mp (lookup_of_mem (build_nodup h) hentry)).2

theorem build_ids : registry.operationInfos.map (·.id) =
    (Table.listing registry.operations).map Prod.fst := by
  rw [operationInfos, List.map_map]
  exact List.map_congr_left fun entry hentry => build_id h (Table.mem_listing.mp hentry)

theorem mem_operationInfos (info : OperationDescriptor) : info ∈ registry.operationInfos ↔
    ∃ owner ∈ registry.modules, info ∈ owner.operations := by
  simp only [operationInfos, List.mem_map, Table.mem_listing]
  constructor
  · rintro ⟨entry, hentry, rfl⟩
    exact ((build_lookup h _ _).mp (lookup_of_mem (build_nodup h) hentry)).1
  · intro hdeclared
    exact ⟨(info.id, info), mem_of_lookup ((build_lookup h _ _).mpr ⟨hdeclared, rfl⟩), rfl⟩

end Built

end ModuleRegistry

namespace PluginRegistry

theorem mem_build (plugins : List PluginStart) (registry : PluginRegistry) (id : String) :
    id ∈ (plugins.foldl add registry).operations.map Prod.fst ↔
      id ∈ registry.operations.map Prod.fst ∨
        ∃ start ∈ plugins, id ∈ start.declared.map Prod.fst := by
  induction plugins generalizing registry with
  | nil => simp
  | cons first rest ih =>
    rw [List.foldl_cons, ih, add, Table.mem_inserts]
    simp only [List.mem_cons, exists_eq_or_imp, or_assoc]

theorem nodup_build (plugins : List PluginStart) {registry : PluginRegistry}
    (h : (registry.operations.map Prod.fst).Nodup) :
    ((plugins.foldl add registry).operations.map Prod.fst).Nodup := by
  induction plugins generalizing registry with
  | nil => exact h
  | cons first rest ih => exact ih (Table.nodup_inserts h _)

theorem operationInfos_ids (registry : PluginRegistry) :
    registry.operationInfos.map (·.id) = (Table.listing registry.operations).map Prod.fst := by
  rw [operationInfos, List.map_map]
  rfl

end PluginRegistry

/-- A daemon whose dispatch consults these registries. -/
structure Consults (state : AppState σ Reply) (modules : ModuleRegistry)
    (plugins : PluginRegistry) : Prop where
  modules : state.modules = modules.modules
  plugins : state.pluginOperations = plugins.operations.map Prod.fst

/-- What the gate owes for the modules that are enabled. -/
structure Gated (enabled : List String) (modules : ModuleRegistry) (plugins : PluginRegistry) :
    Prop where
  served : ∀ (σ Reply : Type) (state : AppState σ Reply), Consults state modules plugins →
    ∀ (principal : Principal) (request : RpcRequest) (daemon : Daemon σ Reply) call result,
      .served call result ∈
        (state.dispatch principal request { daemon with trace := [] }).2.trace →
      ∃ owner ∈ Modules.builtins, owner.id ∈ enabled ∧ Provides owner request.operation
  once : ((capabilityManifest modules plugins).operations.map (·.id)).Nodup
  attributed : ∀ info ∈ (capabilityManifest modules plugins).operations,
    ∀ owner ∈ Modules.builtins, ∀ declared ∈ owner.operations, declared.id = info.id →
      info = declared

section Gate
variable {σ Reply : Type} {state : AppState σ Reply}

theorem supports_iff (operation : String) : state.supports operation = true ↔
    ∃ owner ∈ state.modules, Provides owner operation := by
  simp [AppState.supports, Provides]

/-- A request is served exactly where one of the registries has its operation and the
authorizer agrees. -/
theorem dispatch_served (principal : Principal) (request : RpcRequest) (daemon : Daemon σ Reply) :
    (∃ call result, .served call result ∈
      (state.dispatch principal request { daemon with trace := [] }).2.trace) ↔
      (state.supports request.operation = true ∨ state.pluginSupports request.operation = true) ∧
        state.authorize principal request.operation request.kind = .ok () := by
  rcases @dispatch_cases _ _ state { daemon with trace := [] } principal request
    with ⟨⟨hmodules, hplugins⟩, hsame⟩ | ⟨error, hdenied, htrace⟩ | ⟨hsupported, hadmitted, result, htrace⟩
  · rw [hsame, hmodules, hplugins]
    simp
  · rw [htrace, hdenied]
    simp
  · rw [htrace]
    refine iff_of_true ⟨request.call principal, result, by simp⟩ ⟨hsupported, hadmitted⟩

end Gate

/-- A daemon that consults the registries and lets everyone in. -/
def openState (modules : ModuleRegistry) (plugins : PluginRegistry) : AppState Unit Unit where
  authRequired := false
  authToken := none
  modules := modules.modules
  pluginOperations := plugins.operations.map Prod.fst
  authorize := localAuthorizer
  call := fun _ services => (.ok (), services)
  toStr := fun _ => .error "failed to convert header to a str"

section Manifest
variable {enabled : List String} {modules : ModuleRegistry} {plugins : PluginRegistry}

/-- The ids that the manifest lists. -/
theorem manifest_ids (h : ModuleRegistry.build enabled = .ok modules) :
    (capabilityManifest modules plugins).operations.map (·.id) =
      (Table.listing modules.operations).map Prod.fst ++
        (Table.listing plugins.operations).map Prod.fst := by
  rw [capabilityManifest, List.map_append, ModuleRegistry.build_ids h,
    PluginRegistry.operationInfos_ids]

theorem Gated.plugin {id : String} (hbuild : ModuleRegistry.build enabled = .ok modules)
    (h : Gated enabled modules plugins) (hid : id ∈ plugins.operations.map Prod.fst) :
    ¬ BuiltIn id := by
  intro hbuiltIn
  obtain ⟨entry, hentry, hkey⟩ := List.mem_map.mp hid
  by_cases hsupports : modules.supports id = true
  · -- both registries list the id
    have honce := h.once
    rw [manifest_ids hbuild] at honce
    obtain ⟨declared, hdeclared⟩ := Option.isSome_iff_exists.mp hsupports
    refine (List.nodup_append.mp honce).2.2 id ?_ id ?_ rfl
    · exact List.mem_map.mpr ⟨_, Table.mem_listing.mpr (mem_of_lookup hdeclared), rfl⟩
    · exact List.mem_map.mpr ⟨_, Table.mem_listing.mpr hentry, hkey⟩
  · -- no enabled module has the operation, and dispatch serves it all the same
    obtain ⟨request, rfl⟩ := hbuiltIn.requested
    obtain ⟨call, result, hserved⟩ := (@dispatch_served _ _ (openState modules plugins)
      ⟨"local-user", "local"⟩ request ⟨(), true, 0, []⟩).mpr
      ⟨.inr (decide_eq_true hid), rfl⟩
    obtain ⟨owner, howner, henabled, hprovides⟩ :=
      h.served Unit Unit _ ⟨rfl, rfl⟩ _ request _ call result hserved
    exact hsupports ((ModuleRegistry.build_supports hbuild _).mpr
      ⟨owner, (ModuleRegistry.build_modules hbuild).2 owner howner henabled, hprovides⟩)

theorem Gated.of_plugins (hbuild : ModuleRegistry.build enabled = .ok modules)
    (hnodup : (plugins.operations.map Prod.fst).Nodup)
    (h : ∀ id ∈ plugins.operations.map Prod.fst, ¬ BuiltIn id) :
    Gated enabled modules plugins where
  served := by
    intro σ Reply state hstate principal request daemon call result hserved
    obtain ⟨hsupported, _⟩ := (dispatch_served principal request daemon).mp ⟨call, result, hserved⟩
    rcases hsupported with hmodules | hplugins
    · obtain ⟨owner, howner, hprovides⟩ := (supports_iff _).mp hmodules
      rw [hstate.modules] at howner
      obtain ⟨hmem, henabled⟩ := (ModuleRegistry.build_modules hbuild).1 owner howner
      exact ⟨owner, hmem, henabled, hprovides⟩
    · have hid : request.operation ∈ plugins.operations.map Prod.fst := by
        simpa [AppState.pluginSupports, hstate.plugins] using hplugins
      exact absurd request.builtIn (h _ hid)
  once := by
    rw [manifest_ids hbuild]
    refine List.nodup_append.mpr ⟨Table.nodup_listing (ModuleRegistry.build_nodup hbuild),
      Table.nodup_listing hnodup, ?_⟩
    rintro id hmodule _ hplugin rfl
    obtain ⟨entry, hentry, rfl⟩ := List.mem_map.mp hmodule
    obtain ⟨other, hother, hid⟩ := List.mem_map.mp hplugin
    have hentry := Table.mem_listing.mp hentry
    obtain ⟨⟨owner, howner, hdeclared⟩, hown⟩ := (ModuleRegistry.build_lookup hbuild _ _).mp
      (lookup_of_mem (ModuleRegistry.build_nodup hbuild) hentry)
    refine h _ (List.mem_map.mpr ⟨other, Table.mem_listing.mp hother, hid⟩) ?_
    exact ⟨owner, ((ModuleRegistry.build_modules hbuild).1 owner howner).1, _, hdeclared, hown⟩
  attributed := by
    intro info hinfo owner howner declared hdeclared hid
    rcases List.mem_append.mp hinfo with hmodule | hplugin
    · obtain ⟨other, hother, hinfo⟩ := (ModuleRegistry.mem_operationInfos hbuild info).mp hmodule
      have hmem := ((ModuleRegistry.build_modules hbuild).1 other hother).1
      exact Modules.declared_unique hmem hinfo howner hdeclared hid.symm
    · obtain ⟨entry, hentry, rfl⟩ := List.mem_map.mp hplugin
      refine absurd ⟨owner, howner, declared, hdeclared, hid⟩ (h entry.1 ?_)
      exact List.mem_map.mpr ⟨entry, Table.mem_listing.mp hentry, rfl⟩

end Manifest

/-- The gate does what it owes exactly where no running plugin declares an operation of a
built-in module, enabled or not. -/
theorem module_gating (enabled : List String) (modules : ModuleRegistry)
    (h : ModuleRegistry.build enabled = .ok modules) (allowed : Bool) (plugins : List PluginStart) :
    Gated enabled modules (PluginRegistry.build allowed plugins) ↔
      (allowed = true → ∀ plugin ∈ plugins, ∀ operation ∈ plugin.declared,
        ¬ BuiltIn operation.1) := by
  have hnodup : ((PluginRegistry.build allowed plugins).operations.map Prod.fst).Nodup := by
    cases allowed with
    | false => exact List.nodup_nil
    | true => exact PluginRegistry.nodup_build plugins List.nodup_nil
  have hids : ∀ id, id ∈ (PluginRegistry.build allowed plugins).operations.map Prod.fst ↔
      allowed = true ∧ ∃ plugin ∈ plugins, id ∈ plugin.declared.map Prod.fst := by
    intro id
    cases allowed with
    | false => simp [PluginRegistry.build]
    | true =>
      rw [PluginRegistry.build, if_pos rfl, PluginRegistry.mem_build]
      simp
  constructor
  · intro hgated hallowed plugin hplugin operation hoperation
    refine hgated.plugin h ((hids _).mpr ⟨hallowed, plugin, hplugin, ?_⟩)
    exact List.mem_map.mpr ⟨operation, hoperation, rfl⟩
  · intro hfree
    refine .of_plugins h hnodup fun id hid => ?_
    obtain ⟨hallowed, plugin, hplugin, hdeclared⟩ := (hids id).mp hid
    obtain ⟨operation, hoperation, rfl⟩ := List.mem_map.mp hdeclared
    exact hfree hallowed plugin hplugin operation hoperation

/-- A plugin with an operation of its own beside the system module. -/
theorem module_gating_sample : ∃ modules,
    ModuleRegistry.build ["dev.hologram.live.system"] = .ok modules ∧
      Gated ["dev.hologram.live.system"] modules (PluginRegistry.build true
        [⟨"demo", .ok ⟨"demo", [⟨"demo.echo", 1⟩], 1⟩⟩]) := by
  have hbuilds : (ModuleRegistry.build ["dev.hologram.live.system"]).toOption.isSome = true := by
    decide
  obtain ⟨modules, hmodules⟩ := Option.isSome_iff_exists.mp hbuilds
  have hmodules := toOption_eq_some.mp hmodules
  refine ⟨modules, hmodules, (module_gating _ modules hmodules true _).mpr fun _ => ?_⟩
  unfold BuiltIn Provides
  decide

/-- With the files module disabled, a plugin that declares its operation makes the daemon
store the file by itself. -/
theorem plugin_opens_gate :
    let enabled := ["dev.hologram.live.kappa-registry", "dev.hologram.live.system"]
    let plugins := PluginRegistry.build true [⟨"demo", .ok ⟨"demo", [⟨"files.put", 2⟩], 1⟩⟩]
    ∃ modules, ModuleRegistry.build enabled = .ok modules ∧ ¬ Gated enabled modules plugins := by
  intro enabled plugins
  have hbuilds : (ModuleRegistry.build enabled).toOption.isSome = true := by decide
  obtain ⟨modules, hmodules⟩ := Option.isSome_iff_exists.mp hbuilds
  refine ⟨modules, toOption_eq_some.mp hmodules, fun h => ?_⟩
  have hplugin : "files.put" ∈ plugins.operations.map Prod.fst := by decide
  obtain ⟨call, result, hserved⟩ := (@dispatch_served _ _ (openState modules plugins)
    ⟨"local-user", "local"⟩ (.filesPut "text/plain" (some "a.txt") [97]) ⟨(), true, 0, []⟩).mpr
    ⟨.inr (decide_eq_true hplugin), rfl⟩
  have hnone : ¬ ∃ owner ∈ Modules.builtins, owner.id ∈ enabled ∧ Provides owner "files.put" := by
    unfold Provides
    decide
  exact hnone (h.served Unit Unit _ ⟨rfl, rfl⟩ _ _ _ call result hserved)

end HologramLive.Transport
