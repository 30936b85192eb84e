import HologramLive.HoloGraph.Resolve
import HologramLive.Lib.Result

namespace HologramLive.HoloGraph
open Lib Lib.BreadthFirst Lib.Files Lib.Result Store

section Closure
variable {space : Space} {store : DiskStore} {read : Path → Except IoError Contents}
  {limits : StorageGraphLimits} {kappa : String} {bytes : Bytes} {references : List String}

/-- What the store holds under a kappa: bytes that hash to it, with the references they
make. -/
def Holds (space : Space) (store : DiskStore) (read : Path → Except IoError Contents)
    (kappa : String) (bytes : Bytes) (references : List String) : Prop :=
  readObject space store read kappa = .ok bytes ∧ typedReferences space bytes = .ok references

/-- An object that is present, hashes to its kappa and is well framed. -/
def WellFormed (space : Space) (store : DiskStore) (read : Path → Except IoError Contents)
    (kappa : String) : Prop :=
  ∃ bytes references, Holds space store read kappa bytes references

def objectBytes (space : Space) (store : DiskStore) (read : Path → Except IoError Contents)
    (kappa : String) : Bytes :=
  (readObject space store read kappa).toOption.getD []

/-- The references of an object. What cannot be read makes none. -/
def objectReferences (space : Space) (store : DiskStore) (read : Path → Except IoError Contents)
    (kappa : String) : List String :=
  ((readObject space store read kappa).bind (typedReferences space)).toOption.getD []

theorem objectBytes_eq (h : Holds space store read kappa bytes references) :
    objectBytes space store read kappa = bytes := by
  rw [objectBytes, h.1]
  rfl

theorem objectReferences_eq (h : Holds space store read kappa bytes references) :
    objectReferences space store read kappa = references := by
  rw [objectReferences, h.1]
  change ((typedReferences space bytes).toOption).getD [] = references
  rw [h.2]
  rfl

/-- One turn of the loop on an object that has not been seen. -/
theorem resolveFrom_visit {search : Search} {closure : StorageGraphClosure}
    (h : nextUnseen search.seen search.queue = some ((kappa, depth), queue)) :
    resolveFrom space store read limits (left + 1) search = .ok closure ↔
      depth ≤ limits.maxDepth ∧ ∃ bytes references, Holds space store read kappa bytes references ∧
        search.resolvedBytes + bytes.length ≤ limits.maxResolvedBytes ∧
        search.edgeCount + references.length ≤ limits.maxEdges ∧
        (depth = limits.maxDepth → references = []) ∧
        resolveFrom space store read limits left {
          queue := queue ++ references.map (·, depth + 1)
          seen := search.seen ++ [kappa]
          readable := search.readable ++ [kappa]
          edgeCount := search.edgeCount + references.length
          resolvedBytes := search.resolvedBytes + bytes.length
          observedDepth := max search.observedDepth depth } = .ok closure := by
  rw [resolveFrom, h]
  simp only [guard_ok, bind_ok, Nat.not_lt, not_and, not_not, ne_eq, Holds]
  constructor
  · rintro ⟨hdepth, bytes, hread, hbytes, references, hreferences, hedges, hleaf, hrest⟩
    exact ⟨hdepth, bytes, references, ⟨hread, hreferences⟩, hbytes, hedges, hleaf, hrest⟩
  · rintro ⟨hdepth, bytes, references, ⟨hread, hreferences⟩, hbytes, hedges, hleaf, hrest⟩
    exact ⟨hdepth, bytes, hread, hbytes, references, hreferences, hedges, hleaf, hrest⟩

theorem resolveFrom_done {search : Search} (h : nextUnseen search.seen search.queue = none)
    (left : Nat) : resolveFrom space store read limits left search = .ok {
      readable := search.readable, edgeCount := search.edgeCount
      resolvedBytes := search.resolvedBytes, maxDepth := search.observedDepth } := by
  cases left <;> rw [resolveFrom, h]

def bytesOf (space : Space) (store : DiskStore) (read : Path → Except IoError Contents)
    (objects : List String) : Nat :=
  (objects.map fun kappa => (objectBytes space store read kappa).length).sum

def edgesOf (space : Space) (store : DiskStore) (read : Path → Except IoError Contents)
    (objects : List String) : Nat :=
  (objects.map fun kappa => (objectReferences space store read kappa).length).sum

def visits (space : Space) (store : DiskStore) (read : Path → Except IoError Contents)
    (bound : Nat) (search : Search) : List (String × Nat) :=
  sweep (objectReferences space store read) bound search.seen search.queue

theorem visits_done {search : Search} (h : nextUnseen search.seen search.queue = none)
    (bound : Nat) : visits space store read bound search = [] := by
  cases bound with
  | zero => rfl
  | succ bound => rw [visits, sweep, h]

theorem visits_visit {search : Search}
    (h : nextUnseen search.seen search.queue = some ((kappa, depth), queue)) (bound : Nat) :
    visits space store read (bound + 1) search = (kappa, depth) ::
      sweep (objectReferences space store read) bound (search.seen ++ [kappa])
        (queue ++ (objectReferences space store read kappa).map (·, depth + 1)) := by
  rw [visits, sweep, h]

/-- A visit that the loop lets pass. -/
def Passes (space : Space) (store : DiskStore) (read : Path → Except IoError Contents)
    (limits : StorageGraphLimits) (visit : String × Nat) : Prop :=
  WellFormed space store read visit.1 ∧ visit.2 ≤ limits.maxDepth ∧
    (visit.2 = limits.maxDepth → objectReferences space store read visit.1 = [])

/-- The loop succeeds exactly when all that a search from here visits passes and stays
within the limits, and then it has collected those visits. -/
theorem resolveFrom_ok {search : Search} {closure : StorageGraphClosure}
    (hbytes : search.resolvedBytes ≤ limits.maxResolvedBytes)
    (hedges : search.edgeCount ≤ limits.maxEdges) :
    resolveFrom space store read limits left search = .ok closure ↔
      (visits space store read (left + 1) search).length ≤ left ∧
        (∀ visit ∈ visits space store read (left + 1) search,
          Passes space store read limits visit) ∧
        search.resolvedBytes + bytesOf space store read
          ((visits space store read (left + 1) search).map Prod.fst) ≤ limits.maxResolvedBytes ∧
        search.edgeCount + edgesOf space store read
          ((visits space store read (left + 1) search).map Prod.fst) ≤ limits.maxEdges ∧
        closure = {
          readable := search.readable ++ (visits space store read (left + 1) search).map Prod.fst
          edgeCount := search.edgeCount + edgesOf space store read
            ((visits space store read (left + 1) search).map Prod.fst)
          resolvedBytes := search.resolvedBytes + bytesOf space store read
            ((visits space store read (left + 1) search).map Prod.fst)
          maxDepth := ((visits space store read (left + 1) search).map Prod.snd).foldl max
            search.observedDepth } := by
  induction left generalizing search with
  | zero =>
    cases hnext : nextUnseen search.seen search.queue with
    | none =>
      rw [resolveFrom_done hnext, visits_done hnext]
      simp [bytesOf, edgesOf, hbytes, hedges, eq_comm]
    | some visit =>
      obtain ⟨⟨kappa, depth⟩, queue⟩ := visit
      rw [resolveFrom, hnext, visits_visit hnext]
      simp
  | succ left ih =>
    cases hnext : nextUnseen search.seen search.queue with
    | none =>
      rw [resolveFrom_done hnext, visits_done hnext]
      simp [bytesOf, edgesOf, hbytes, hedges, eq_comm]
    | some visit =>
      obtain ⟨⟨kappa, depth⟩, queue⟩ := visit
      rw [resolveFrom_visit hnext, visits_visit hnext]
      constructor
      · rintro ⟨hdepth, bytes, references, hholds, hsize, hcount, hleaf, hrest⟩
        obtain ⟨hlength, hpasses, hmoreBytes, hmoreEdges, rfl⟩ := (ih hsize hcount).mp hrest
        obtain rfl := objectBytes_eq hholds
        obtain rfl := objectReferences_eq hholds
        simp only [visits] at hlength hpasses hmoreBytes hmoreEdges ⊢
        refine ⟨by simpa using hlength, ?_, ?_, ?_, ?_⟩
        · intro visit hvisit
          rcases List.mem_cons.mp hvisit with rfl | hlater
          · exact ⟨⟨_, _, hholds⟩, hdepth, hleaf⟩
          · exact hpasses visit hlater
        · simpa [bytesOf, Nat.add_assoc] using hmoreBytes
        · simpa [edgesOf, Nat.add_assoc] using hmoreEdges
        · simp [bytesOf, edgesOf, Nat.add_assoc]
      · rintro ⟨hlength, hpasses, hmoreBytes, hmoreEdges, rfl⟩
        obtain ⟨⟨bytes, references, hholds⟩, hdepth, hleaf⟩ := hpasses _ List.mem_cons_self
        simp only [List.map_cons, bytesOf, edgesOf, List.sum_cons, ← Nat.add_assoc] at hmoreBytes hmoreEdges
        obtain rfl := objectBytes_eq hholds
        obtain rfl := objectReferences_eq hholds
        have hsize : search.resolvedBytes + (objectBytes space store read kappa).length ≤
            limits.maxResolvedBytes := by omega
        have hcount : search.edgeCount + (objectReferences space store read kappa).length ≤
            limits.maxEdges := by omega
        refine ⟨hdepth, _, _, hholds, hsize, hcount, hleaf, (ih hsize hcount).mpr ?_⟩
        simp only [visits]
        refine ⟨by simpa using hlength, ?_, hmoreBytes, hmoreEdges, ?_⟩
        · exact fun visit hlater => hpasses visit (List.mem_cons_of_mem _ hlater)
        · simp [bytesOf, edgesOf, Nat.add_assoc]

/-- The limits let the closure of the roots pass. -/
def Admissible (space : Space) (store : DiskStore) (read : Path → Except IoError Contents)
    (limits : StorageGraphLimits) (roots : List String) : Prop :=
  ∃ objects : List String, objects.Nodup ∧
    (∀ kappa, kappa ∈ objects ↔ Reachable (objectReferences space store read) roots kappa) ∧
    (∀ kappa ∈ objects, WellFormed space store read kappa) ∧
    objects.length ≤ limits.maxObjects ∧
    bytesOf space store read objects ≤ limits.maxResolvedBytes ∧
    edgesOf space store read objects ≤ limits.maxEdges ∧
    ∀ kappa, Distance (objectReferences space store read) roots kappa limits.maxDepth →
      objectReferences space store read kappa = []

theorem bytesOf_perm {objects others : List String} (h : objects.Perm others) :
    bytesOf space store read objects = bytesOf space store read others :=
  (h.map _).sum_nat

theorem edgesOf_perm {objects others : List String} (h : objects.Perm others) :
    edgesOf space store read objects = edgesOf space store read others :=
  (h.map _).sum_nat

theorem foldl_max_eq {depths : List Nat} (hstart : start ≤ most) (hall : ∀ n ∈ depths, n ≤ most)
    (hsome : start = most ∨ most ∈ depths) : depths.foldl max start = most := by
  induction depths generalizing start with
  | nil => simpa using hsome
  | cons n rest ih =>
    rw [List.foldl_cons]
    have hn := hall n List.mem_cons_self
    apply ih (by omega) fun k hk => hall k (List.mem_cons_of_mem _ hk)
    rcases hsome with rfl | hmem
    · exact .inl (by omega)
    · rcases List.mem_cons.mp hmem with rfl | hlater
      · exact .inl (by omega)
      · exact .inr hlater

section Roots
variable {roots : List String}

/-- What the whole search visits. -/
def visited (space : Space) (store : DiskStore) (read : Path → Except IoError Contents)
    (limits : StorageGraphLimits) (roots : List String) : List (String × Nat) :=
  visits space store read (limits.maxObjects + 1) { queue := roots.map (·, 0) }

/-- A search within the object limit visits the layers of the graph. -/
theorem visited_layers (h : (visited space store read limits roots).length ≤ limits.maxObjects) :
    ∃ depth, frontier (objectReferences space store read) roots depth = [] ∧
      (∀ i < depth, frontier (objectReferences space store read) roots i ≠ []) ∧
      visited space store read limits roots = (List.range depth).flatMap fun i =>
        atDepth i (frontier (objectReferences space store read) roots i) := by
  have hsweep : visited space store read limits roots =
      sweep (objectReferences space store read) (limits.maxObjects + 1)
        (layer (objectReferences space store read) roots 0).1
        (atDepth 0 (layer (objectReferences space store read) roots 0).2) := rfl
  rw [hsweep] at h ⊢
  simpa using sweep_layers (m := 0) (Nat.lt_succ_of_le h)

theorem visited_sound : ((visited space store read limits roots).map Prod.fst).Nodup ∧
    ∀ visit ∈ visited space store read limits roots,
      Reachable (objectReferences space store read) roots visit.1 := by
  have hroots : ∀ entry ∈ roots.map (·, 0),
      Reachable (objectReferences space store read) roots entry.1 := by
    intro entry hentry
    obtain ⟨root, hroot, rfl⟩ := List.mem_map.mp hentry
    exact ⟨0, hroot⟩
  obtain ⟨hnodup, hvisits⟩ := sweep_sound hroots
  exact ⟨hnodup, fun visit hvisit => (hvisits visit hvisit).2⟩

theorem map_fst_layers (refs : String → List String) (depth : Nat) :
    ((List.range depth).flatMap fun i => atDepth i (frontier refs roots i)).map Prod.fst =
      listing refs roots depth := by
  simp [listing, atDepth, List.map_flatMap, Function.comp_def]

/-- A search within the object limit visits each node at its distance. -/
theorem visited_distance (h : (visited space store read limits roots).length ≤ limits.maxObjects) :
    (kappa, depth) ∈ visited space store read limits roots ↔
      Distance (objectReferences space store read) roots kappa depth := by
  obtain ⟨most, hend, _, hlayers⟩ := visited_layers h
  rw [hlayers, ← mem_frontier]
  simp only [List.mem_flatMap, List.mem_range, atDepth, List.mem_map, Prod.mk.injEq]
  constructor
  · rintro ⟨i, _, _, hmem, rfl, rfl⟩
    exact hmem
  · intro hmem
    refine ⟨depth, ?_, kappa, hmem, rfl, rfl⟩
    by_contra hle
    rw [frontier_empty hend (by omega)] at hmem
    cases hmem

theorem visited_reachable (h : (visited space store read limits roots).length ≤ limits.maxObjects) :
    kappa ∈ (visited space store read limits roots).map Prod.fst ↔
      Reachable (objectReferences space store read) roots kappa := by
  constructor
  · intro hmem
    obtain ⟨visit, hvisit, rfl⟩ := List.mem_map.mp hmem
    exact visited_sound.2 visit hvisit
  · intro hreach
    obtain ⟨n, hn⟩ := hreach.distance
    exact List.mem_map.mpr ⟨(kappa, n), (visited_distance h).mpr hn, rfl⟩

theorem resolve_ok (hroots : roots ≠ []) (hobjects : limits.maxObjects ≠ 0)
    (hedges : limits.maxEdges ≠ 0) (hbytes : limits.maxResolvedBytes ≠ 0)
    {closure : StorageGraphClosure} :
    resolveStorageGraph space store read roots limits = .ok closure ↔
      (visited space store read limits roots).length ≤ limits.maxObjects ∧
        (∀ visit ∈ visited space store read limits roots,
          Passes space store read limits visit) ∧
        bytesOf space store read ((visited space store read limits roots).map Prod.fst) ≤
          limits.maxResolvedBytes ∧
        edgesOf space store read ((visited space store read limits roots).map Prod.fst) ≤
          limits.maxEdges ∧
        closure = {
          readable := (visited space store read limits roots).map Prod.fst
          edgeCount := edgesOf space store read
            ((visited space store read limits roots).map Prod.fst)
          resolvedBytes := bytesOf space store read
            ((visited space store read limits roots).map Prod.fst)
          maxDepth := ((visited space store read limits roots).map Prod.snd).foldl max 0 } := by
  rw [resolveStorageGraph, if_neg hroots, if_neg (by simp [hobjects, hedges, hbytes]),
    resolveFrom_ok (Nat.zero_le _) (Nat.zero_le _)]
  simp [visited]

/-- The closure is resolved exactly when the limits let it pass. -/
theorem resolve_iff (hroots : roots ≠ []) (hobjects : limits.maxObjects ≠ 0)
    (hedges : limits.maxEdges ≠ 0) (hbytes : limits.maxResolvedBytes ≠ 0) :
    (∃ closure, resolveStorageGraph space store read roots limits = .ok closure) ↔
      Admissible space store read limits roots := by
  simp only [resolve_ok hroots hobjects hedges hbytes]
  constructor
  · rintro ⟨closure, hlength, hpasses, hsize, hcount, -⟩
    refine ⟨_, visited_sound.1, fun kappa => visited_reachable hlength, ?_,
      by simpa using hlength, hsize, hcount, ?_⟩
    · intro kappa hmem
      obtain ⟨visit, hvisit, rfl⟩ := List.mem_map.mp hmem
      exact (hpasses visit hvisit).1
    · intro kappa hdistance
      exact (hpasses _ ((visited_distance hlength).mpr hdistance)).2.2 rfl
  · rintro ⟨objects, hnodup, hmem, hformed, hmost, hsize, hcount, hleaves⟩
    have hsub : (visited space store read limits roots).map Prod.fst ⊆ objects := by
      intro kappa hkappa
      obtain ⟨visit, hvisit, rfl⟩ := List.mem_map.mp hkappa
      exact (hmem _).mpr (visited_sound.2 visit hvisit)
    have hlength : (visited space store read limits roots).length ≤ limits.maxObjects := by
      have hle := (List.subperm_of_subset visited_sound.1 hsub).length_le
      rw [List.length_map] at hle
      omega
    have hperm : ((visited space store read limits roots).map Prod.fst).Perm objects := by
      apply (List.perm_ext_iff_of_nodup visited_sound.1 hnodup).mpr
      intro kappa
      rw [visited_reachable hlength, hmem]
    refine ⟨_, hlength, ?_, by rwa [bytesOf_perm hperm], by rwa [edgesOf_perm hperm], rfl⟩
    rintro ⟨kappa, depth⟩ hvisit
    have hdistance := (visited_distance hlength).mp hvisit
    refine ⟨hformed kappa (hsub (List.mem_map_of_mem hvisit)),
      distance_le_of_leaves hleaves hdistance, ?_⟩
    rintro rfl
    exact hleaves kappa hdistance

/-- What a resolved closure says of the graph. -/
structure Describes (space : Space) (store : DiskStore) (read : Path → Except IoError Contents)
    (roots : List String) (closure : StorageGraphClosure) : Prop where
  distinct : closure.readable.Nodup
  exact : ∀ kappa, kappa ∈ closure.readable ↔
    Reachable (objectReferences space store read) roots kappa
  order : closure.readable =
    listing (objectReferences space store read) roots (closure.maxDepth + 1)
  bytes : closure.resolvedBytes = bytesOf space store read closure.readable
  edges : closure.edgeCount = edgesOf space store read closure.readable
  depth : IsGreatest { n | ∃ kappa, Distance (objectReferences space store read) roots kappa n }
    closure.maxDepth

theorem resolve_describes (hroots : roots ≠ []) (hobjects : limits.maxObjects ≠ 0)
    (hedges : limits.maxEdges ≠ 0) (hbytes : limits.maxResolvedBytes ≠ 0)
    {closure : StorageGraphClosure}
    (h : resolveStorageGraph space store read roots limits = .ok closure) :
    Describes space store read roots closure := by
  obtain ⟨hlength, _, _, _, rfl⟩ := (resolve_ok hroots hobjects hedges hbytes).mp h
  obtain ⟨most, hend, hsome, hlayers⟩ := visited_layers hlength
  cases most with
  | zero =>
    obtain ⟨root, rest, rfl⟩ := List.exists_cons_of_ne_nil hroots
    have hroot : root ∈ frontier (objectReferences space store read) (root :: rest) 0 :=
      mem_frontier.mpr ⟨List.mem_cons_self, fun _ _ => Nat.zero_le _⟩
    rw [hend] at hroot
    cases hroot
  | succ most =>
    have hdepth : ((visited space store read limits roots).map Prod.snd).foldl max 0 = most := by
      apply foldl_max_eq (Nat.zero_le _)
      · intro n hn
        obtain ⟨⟨kappa, depth⟩, hvisit, rfl⟩ := List.mem_map.mp hn
        have hmem := mem_frontier.mpr ((visited_distance hlength).mp hvisit)
        by_contra hlt
        simp only [Nat.not_le] at hlt
        rw [frontier_empty hend hlt] at hmem
        cases hmem
      · obtain ⟨kappa, hkappa⟩ := List.exists_mem_of_ne_nil _ (hsome most (by omega))
        exact .inr (List.mem_map.mpr
          ⟨(kappa, most), (visited_distance hlength).mpr (mem_frontier.mp hkappa), rfl⟩)
    refine ⟨visited_sound.1, fun kappa => visited_reachable hlength, ?_, rfl, rfl, ?_⟩
    · rw [hdepth, hlayers, map_fst_layers]
    · rw [hdepth]
      obtain ⟨kappa, hkappa⟩ := List.exists_mem_of_ne_nil _ (hsome most (by omega))
      refine ⟨⟨kappa, mem_frontier.mp hkappa⟩, ?_⟩
      rintro n ⟨other, hother⟩
      have hmem := mem_frontier.mpr hother
      by_contra hlt
      simp only [Nat.not_le] at hlt
      rw [frontier_empty hend hlt] at hmem
      cases hmem

end Roots

/-- Resolution ends with the closure exactly when every object in it is well formed and
the limits let it pass, and then reports the closure breadth first. -/
theorem storage_graph_resolves (space : Space) (store : DiskStore)
    (read : Path → Except IoError Contents) (roots : List String) (limits : StorageGraphLimits)
    (hroots : roots ≠ []) (hobjects : limits.maxObjects ≠ 0) (hedges : limits.maxEdges ≠ 0)
    (hbytes : limits.maxResolvedBytes ≠ 0) :
    ((∃ closure, resolveStorageGraph space store read roots limits = .ok closure) ↔
      Admissible space store read limits roots) ∧
    ∀ closure, resolveStorageGraph space store read roots limits = .ok closure →
      Describes space store read roots closure :=
  ⟨resolve_iff hroots hobjects hedges hbytes,
    fun _ => resolve_describes hroots hobjects hedges hbytes⟩

end Closure

/-! A channel that refers to the object without bytes. -/

def leafKappa : String := "blake3:af1349b9f5f9a1a6a0404dea36dcc9499bcb25c9adc112b7cc9a93cae41f3262"

def channelKappa : String :=
  "blake3:6d75c58ecd50636284fb94217c0d57db6400c84dde2145a5d539b51ad4090434"

def channelBytes : Bytes :=
  Utf8.encode "channel" ++ [0, 1, 0, 0, 0] ++ Utf8.encode leafKappa ++ [0, 0, 0, 0]

def sampleSpace : Space where
  addressBytes bytes :=
    if bytes = [] then leafKappa else if bytes = channelBytes then channelKappa else ""
  registry := [("channel", fun bytes =>
    match Utf8.decode ((bytes.drop 12).take kappaLabelBytes) with
    | some reference => .ok [reference]
    | none => .error .malformed)]

def sampleStore : DiskStore where
  root := ["", "var", "hologram"]
  blake3 _ := Vector.replicate 32 0
  debug := String.quote
  toVecPretty _ := []
  fromSlice _ := .error "EOF while parsing a value at line 1 column 0"

def sampleFiles (path : Path) : Except IoError Contents :=
  if path.name = String.ofList (leafKappa.toList.drop 7) then .ok []
  else if path.name = String.ofList (channelKappa.toList.drop 7) then .ok channelBytes
  else .error missing

theorem storage_graph_resolves_sample :
    Describes sampleSpace sampleStore sampleFiles [channelKappa, leafKappa] {
      readable := [channelKappa, leafKappa], edgeCount := 1, resolvedBytes := 87, maxDepth := 0 } :=
  (storage_graph_resolves sampleSpace sampleStore sampleFiles [channelKappa, leafKappa] {}
    (by simp) (by decide) (by decide) (by decide)).2 _ (by decide +kernel)

end HologramLive.HoloGraph
