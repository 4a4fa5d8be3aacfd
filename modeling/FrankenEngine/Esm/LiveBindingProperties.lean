import FrankenEngine.Esm.LiveBinding
import FrankenEngine.Library.Result

/-!
# Live bindings against export resolution

The aliases of re-exports are entered in one pass, module by module and export
by export, and only where the next hop has its cell by then. An import reads the
export that it is resolved to exactly if along its chain of re-exports every hop
is passed before the one that leads to it.
-/

set_option autoImplicit false

namespace FrankenEngine.Esm

open Library AliasChain OrderedMap List Option ModuleGraph ExportEntry

/-!
## The pass over the re-exports
-/

def hopOf (specifier : String) (entry : ExportEntry) : Option (BindingId × BindingId) :=
  entry.moduleRequest.map fun request =>
    (⟨specifier, entry.exportName⟩, ⟨request, entry.importName.getD entry.exportName⟩)

def directOf (specifier : String) (entry : ExportEntry) : Option BindingCell :=
  match entry.moduleRequest with
  | some _ => none
  | none => some (.new specifier entry.exportName (entry.localName.getD entry.exportName) .direct)

def BindingCell.ownId (cell : BindingCell) : BindingId := ⟨cell.sourceModule, cell.exportName⟩

namespace ModuleGraph

def hops (graph : ModuleGraph) : List (BindingId × BindingId) :=
  graph.modules.values.flatMap fun module => module.exports.filterMap (hopOf module.specifier)

def directs (graph : ModuleGraph) : List BindingCell :=
  graph.modules.values.flatMap fun module => module.exports.filterMap (directOf module.specifier)

def IsDirect (graph : ModuleGraph) (id : BindingId) : Prop :=
  ∃ cell ∈ graph.directs, cell.ownId = id

/-- The chain of the id ends at a local export, and every hop is passed before the one that leads
to it. -/
def ChainInOrder (graph : ModuleGraph) (id : BindingId) : Prop :=
  ∃ last, Wired graph.IsDirect graph.hops graph.hops.length id last

end ModuleGraph

namespace LiveBindingMap

def addHop (map : LiveBindingMap) (hop : BindingId × BindingId) : LiveBindingMap :=
  if (map.cells.get? hop.2).isSome then
    let celled :=
      if (map.cells.get? hop.1).isSome then map
      else map.registerCell
        (.new hop.1.moduleSpecifier hop.1.exportName hop.2.exportName .reExport)
    celled.registerAlias hop.1 hop.2
  else map

theorem addReExport_eq (specifier : String) (map : LiveBindingMap) (entry : ExportEntry) :
    addReExport specifier map entry =
      (hopOf specifier entry).elim map map.addHop := by
  unfold addReExport hopOf
  cases entry.moduleRequest <;> rfl

theorem foldl_addReExport (graph : ModuleGraph) (map : LiveBindingMap) : graph.modules.values.foldl
        (fun map module => module.exports.foldl (addReExport module.specifier) map) map =
      graph.hops.foldl addHop map := by
  rw [hops, foldl_flatMap]
  congr 1
  funext map module
  rw [foldl_filterMap]
  congr 1
  funext map entry
  rw [addReExport_eq]
  cases hopOf module.specifier entry <;> rfl

theorem addDirect_eq (specifier : String) (map : LiveBindingMap) (entry : ExportEntry) :
    addDirect specifier map entry =
      (directOf specifier entry).elim map map.registerCell := by
  unfold addDirect directOf
  cases entry.moduleRequest <;> rfl

theorem foldlM_addModuleDirects {modules : List EsmModule} {map direct : LiveBindingMap}
    (built : modules.foldlM addModuleDirects map = .ok direct) :
    direct = (modules.flatMap fun module =>
      module.exports.filterMap (directOf module.specifier)).foldl registerCell map := by
  induction modules generalizing map with
  | nil =>
    cases built
    rfl
  | cons module rest ih =>
    obtain ⟨middle, added, continued⟩ := bind_ok built
    rw [ih continued, flatMap_cons, foldl_append]
    unfold addModuleDirects at added
    split at added
    · cases added
      rw [foldl_filterMap]
      congr 2
      funext map entry
      rw [addDirect_eq]
      cases directOf module.specifier entry <;> rfl
    · cases added

theorem foldl_registerCell (cells : List BindingCell) (map : LiveBindingMap) :
    (cells.foldl registerCell map).cells =
        cells.foldl (fun held cell => held.insert cell.ownId cell) map.cells ∧
      (cells.foldl registerCell map).aliases = map.aliases ∧
      (cells.foldl registerCell map).imports = map.imports := by
  induction cells generalizing map with
  | nil => exact ⟨rfl, rfl, rfl⟩
  | cons cell rest ih => exact ih (map.registerCell cell)

section Hops

variable {map : LiveBindingMap} {hop : BindingId × BindingId}

theorem perm_registerAlias {aliasId source : BindingId}
    (fresh : ∀ entry ∈ map.aliases, entry.aliasId ≠ aliasId) :
    (map.registerAlias aliasId source).aliases.Perm (map.aliases ++ [⟨aliasId, source⟩]) := by
  have absent : (map.aliases.any fun entry => entry.aliasId = aliasId) = false := by
    simpa using fresh
  unfold registerAlias
  rw [absent]
  exact perm_insertionSort _ _

variable {id last : BindingId} {direct : LiveBindingMap}

theorem get?_addHop_of_some {cell : BindingCell} (found : map.cells.get? id = some cell) :
    (map.addHop hop).cells.get? id = some cell := by
  unfold addHop
  split
  · split
    · exact found
    · next absent =>
      refine (get?_insert _ _ _ _).trans ?_
      rw [if_neg]
      · exact found
      · rintro rfl
        exact absent (isSome_iff_exists.mpr ⟨cell, found⟩)
  · exact found

theorem imports_foldl_addHop (hops : List (BindingId × BindingId)) (map : LiveBindingMap) :
    (hops.foldl addHop map).imports = map.imports := by
  refine foldlRecOn (motive := fun held : LiveBindingMap => held.imports = map.imports) hops _ rfl
    fun held same hop _ => Eq.trans ?_ same
  unfold addHop
  split
  · split <;> rfl
  · rfl

theorem isSome_addHop_iff (ready : (map.cells.get? hop.2).isSome) :
    ((map.addHop hop).cells.get? id).isSome ↔ id = hop.1 ∨ (map.cells.get? id).isSome := by
  unfold addHop
  rw [if_pos ready]
  by_cases own : (map.cells.get? hop.1).isSome
  · rw [if_pos own]
    constructor
    · exact .inr
    · rintro (rfl | found)
      · exact own
      · exact found
  · rw [if_neg own]
    have inserted : ∀ cell,
        ((map.registerCell cell).registerAlias hop.1 hop.2).cells =
          map.cells.insert cell.ownId cell := fun cell => rfl
    rw [inserted, get?_insert]
    have ownId : (BindingCell.new hop.1.moduleSpecifier hop.1.exportName hop.2.exportName
        .reExport).ownId = hop.1 := rfl
    by_cases same : id = hop.1
    · simp [ownId, same]
    · simp [ownId, same]

/-- The table after the first hops: every wired name has a cell, and the aliases are the hops to
names that were wired when they were passed. -/
structure Passed (known : BindingId → Prop) (hops : List (BindingId × BindingId)) (position : Nat)
    (map : LiveBindingMap) : Prop where
  cells : ∀ id, (map.cells.get? id).isSome ↔ ∃ last, Wired known hops position id last
  aliases : ∀ id target, ⟨id, target⟩ ∈ map.aliases ↔ ∃ index < position,
    hops[index]? = some (id, target) ∧ ∃ last, Wired known hops index target last
  distinct : (map.aliases.map (·.aliasId)).Nodup

variable {known : BindingId → Prop} {hops : List (BindingId × BindingId)} {position : Nat}

theorem exists_wired_succ_iff (listed : hops[position]? = some hop) :
    (∃ last, Wired known hops (position + 1) id last) ↔
      (∃ last, Wired known hops position id last) ∨
        id = hop.1 ∧ ∃ last, Wired known hops position hop.2 last := by
  simp only [Wired.succ_iff, listed, exists_or]
  refine or_congr_right ⟨?_, ?_⟩
  · rintro ⟨last, target, same, wired⟩
    cases same
    exact ⟨rfl, last, wired⟩
  · rintro ⟨rfl, last, wired⟩
    exact ⟨last, hop.2, rfl, wired⟩

variable (passed : Passed known hops position map)

include passed

variable (distinct : (hops.map Prod.fst).Nodup)

include distinct

theorem Passed.fresh (listed : hops[position]? = some hop) :
    ∀ entry ∈ map.aliases, entry.aliasId ≠ hop.1 := by
  rintro ⟨id, target⟩ member rfl
  obtain ⟨index, before, other, _⟩ := (passed.aliases _ _).mp member
  have same := index_unique distinct other listed
  omega

theorem Passed.aliases_addHop (listed : hops[position]? = some hop)
    (ready : (map.cells.get? hop.2).isSome) :
    (map.addHop hop).aliases.Perm (map.aliases ++ [⟨hop.1, hop.2⟩]) := by
  have fresh := passed.fresh distinct listed
  unfold addHop
  rw [if_pos ready]
  split
  · exact perm_registerAlias fresh
  · apply perm_registerAlias
    exact fresh

theorem Passed.addHop (listed : hops[position]? = some hop) :
    Passed known hops (position + 1) (map.addHop hop) := by
  -- An alias for the hop itself is wanted exactly if its target is wired by now.
  have upTo : ∀ id target, (∃ index < position + 1, hops[index]? = some (id, target) ∧
      ∃ last, Wired known hops index target last) ↔ ⟨id, target⟩ ∈ map.aliases ∨
        hop = (id, target) ∧ ∃ last, Wired known hops position target last := by
    intro id target
    simp only [Nat.lt_succ_iff_lt_or_eq, or_and_right, exists_or, exists_eq_left, listed,
      some.injEq, passed.aliases]
  by_cases ready : (map.cells.get? hop.2).isSome
  · have added := passed.aliases_addHop distinct listed ready
    have wired := (passed.cells hop.2).mp ready
    constructor
    · intro id
      rw [isSome_addHop_iff ready, passed.cells, exists_wired_succ_iff listed, and_iff_left wired,
        or_comm]
    · intro id target
      rw [added.mem_iff, mem_append, mem_singleton, upTo]
      refine or_congr_right ⟨?_, ?_⟩
      · intro same
        cases same
        exact ⟨rfl, wired⟩
      · rintro ⟨rfl, -⟩
        rfl
    · rw [(added.map _).nodup_iff, map_append, map_singleton, nodup_append]
      refine ⟨passed.distinct, nodup_singleton _, ?_⟩
      intro id member other single same
      obtain ⟨entry, isAlias, rfl⟩ := mem_map.mp member
      rw [mem_singleton.mp single] at same
      exact passed.fresh distinct listed entry isAlias same
  · have unchanged : map.addHop hop = map := by
      unfold LiveBindingMap.addHop
      rw [if_neg ready]
    rw [unchanged]
    rw [passed.cells] at ready
    constructor
    · intro id
      rw [passed.cells, exists_wired_succ_iff listed, or_iff_left fun new => ready new.2]
    · intro id target
      rw [upTo, or_iff_left]
      rintro ⟨rfl, wired⟩
      exact ready wired
    · exact passed.distinct

omit passed

omit distinct

def passTo (direct : LiveBindingMap) (hops : List (BindingId × BindingId)) (position : Nat) :
    LiveBindingMap :=
  (hops.take position).foldl LiveBindingMap.addHop direct

theorem passTo_succ (listed : hops[position]? = some hop) :
    passTo direct hops (position + 1) = (passTo direct hops position).addHop hop := by
  rw [passTo, take_add_one, listed, foldl_append]
  rfl

theorem passTo_length (direct : LiveBindingMap) (hops : List (BindingId × BindingId)) :
    passTo direct hops hops.length = hops.foldl LiveBindingMap.addHop direct := by
  rw [passTo, take_length]

structure Opens (known : BindingId → Prop) (direct : LiveBindingMap) : Prop where
  cells : ∀ id, (direct.cells.get? id).isSome ↔ known id
  aliases : direct.aliases = []

theorem wired_zero_iff : Wired known hops 0 id last ↔ known id ∧ id = last := by
  constructor
  · intro wired
    cases wired with
    | known start => exact ⟨start, rfl⟩
    | hop _ before _ => exact absurd before (Nat.not_lt_zero _)
  · rintro ⟨start, rfl⟩
    exact .known start

theorem passed_passTo (opens : Opens known direct) (distinct : (hops.map Prod.fst).Nodup)
    (position : Nat) (inside : position ≤ hops.length) :
    Passed known hops position (passTo direct hops position) := by
  induction position with
  | zero =>
    constructor
    · intro id
      refine (opens.cells id).trans ?_
      simp [wired_zero_iff]
    · intro id target
      simp [passTo, opens.aliases]
    · simp [passTo, opens.aliases]
  | succ position ih =>
    have listed : hops[position]? = some hops[position] := getElem?_eq_getElem inside
    rw [passTo_succ listed]
    exact (ih (Nat.le_of_succ_le inside)).addHop distinct listed

theorem get?_foldl_addHop {cell : BindingCell} (found : direct.cells.get? id = some cell)
    (hops : List (BindingId × BindingId)) :
    (hops.foldl LiveBindingMap.addHop direct).cells.get? id = some cell :=
  foldlRecOn (motive := fun held : LiveBindingMap => held.cells.get? id = some cell) hops _ found
    fun _ found _ _ => get?_addHop_of_some found

/-!
## Following the aliases
-/

theorem aliasOf_eq_some_iff {aliases : List BindingAlias}
    (distinct : (aliases.map (·.aliasId)).Nodup) {target : BindingId} :
    aliasOf aliases id = some target ↔ ⟨id, target⟩ ∈ aliases := by
  unfold aliasOf
  simp only [map_eq_some_iff, Search.find?_eq_some_iff distinct]
  constructor
  · rintro ⟨entry, ⟨member, rfl⟩, rfl⟩
    exact member
  · exact fun member => ⟨_, ⟨member, rfl⟩, rfl⟩

section Finished

variable (finished : Passed known hops hops.length map)

include finished

theorem Passed.aliasOf_eq_some_iff {target : BindingId} :
    aliasOf map.aliases id = some target ↔ ∃ index < hops.length,
      hops[index]? = some (id, target) ∧ ∃ last, Wired known hops index target last :=
  (LiveBindingMap.aliasOf_eq_some_iff finished.distinct).trans (finished.aliases id target)

theorem Passed.resolveBindingId_eq (distinct : (hops.map Prod.fst).Nodup)
    (apart : ∀ {id target : BindingId}, known id → (id, target) ∉ hops)
    (wired : Wired known hops hops.length id last) : map.resolveBindingId id = last := by
  refine follow_eq_of_wired (map.aliases.map (·.aliasId)) distinct ?_ ?_ wired (by simp)
    nodup_nil (nil_subset _) (by simp)
  · intro id start
    have noHop : ∀ (index : Nat) (target : BindingId), hops[index]? ≠ some (id, target) :=
      fun index target listed => apart start (mem_of_getElem? listed)
    refine ⟨eq_none_iff_forall_ne_some.mpr fun target aliased => ?_, noHop⟩
    obtain ⟨index, _, listed, _⟩ := finished.aliasOf_eq_some_iff.mp aliased
    exact noHop index target listed
  · intro index id target last listed wired
    have inside := (List.getElem?_eq_some_iff.mp listed).1
    have entered := (finished.aliases id target).mpr ⟨index, inside, listed, last, wired⟩
    exact ⟨(LiveBindingMap.aliasOf_eq_some_iff finished.distinct).mpr entered,
      mem_map_of_mem entered⟩

theorem Passed.getCell_eq_none
    (unwired : ¬ ∃ last, Wired known hops hops.length id last) : map.getCell id = none := by
  have noCell : map.cells.get? id = none := by
    rw [← Option.not_isSome_iff_eq_none, finished.cells]
    exact unwired
  have noAlias : aliasOf map.aliases id = none := by
    refine eq_none_iff_forall_ne_some.mpr fun target aliased => ?_
    obtain ⟨index, before, listed, last, wired⟩ := finished.aliasOf_eq_some_iff.mp aliased
    exact unwired ⟨last, .hop listed before wired⟩
  have stays : map.resolveBindingId id = id := by
    simp [resolveBindingId, follow, noAlias]
  rw [getCell, stays, noCell]

end Finished

end Hops

end LiveBindingMap

/-!
## Graphs of local and named exports
-/

/-- A local export or a named re-export. -/
inductive ExportEntry.Plain : ExportEntry → Prop
  | direct (localName exportName : String) : Plain (.direct localName exportName)
  | reExport {exportName : String} (moduleRequest importName : String) (named : exportName ≠ "*") :
      Plain (.reExport exportName moduleRequest importName)

instance : DecidablePred ExportEntry.Plain
  | ⟨some localName, exportName, none, none⟩ => isTrue (.direct localName exportName)
  | ⟨none, exportName, some request, some importName⟩ =>
    decidable_of_iff (exportName ≠ "*")
      ⟨fun named => .reExport request importName named, fun | .reExport _ _ named => named⟩
  | ⟨none, _, none, _⟩ => isFalse nofun
  | ⟨none, _, some _, none⟩ => isFalse nofun
  | ⟨some _, _, some _, _⟩ => isFalse nofun
  | ⟨some _, _, none, some _⟩ => isFalse nofun

/-- Modules stand under their own specifiers, as `add_module` enters them, and export distinct
names, none of them by a star. -/
structure ModuleGraph.Plain (graph : ModuleGraph) : Prop where
  keyed : graph.modules.Keyed EsmModule.specifier
  entries : ∀ specifier module, graph.modules.get? specifier = some module →
    ∀ entry ∈ module.exports, entry.Plain
  distinct : ∀ specifier module, graph.modules.get? specifier = some module →
    (module.exports.map (·.exportName)).Nodup

theorem ModuleGraph.plain_of_entries {graph : ModuleGraph}
    (checked : ∀ held ∈ graph.modules.entries, held.2.specifier = held.1 ∧
      (∀ entry ∈ held.2.exports, entry.Plain) ∧ (held.2.exports.map (·.exportName)).Nodup) :
    graph.Plain := by
  have each : ∀ {specifier module}, graph.modules.get? specifier = some module →
      (specifier, module) ∈ graph.modules.entries := fun found =>
    graph.modules.ascending.lookup_eq_some_iff.mp found
  exact ⟨fun _ _ found => (checked _ (each found)).1,
    fun _ _ found => (checked _ (each found)).2.1, fun _ _ found => (checked _ (each found)).2.2⟩

section Explicit

variable {exports : List ExportEntry}

def ExportEntry.explicit (entry : ExportEntry) : Option ExplicitExport :=
  match entry.localName, entry.moduleRequest, entry.importName with
  | some localName, _, _ => some (.direct localName)
  | none, some request, some importName => some (.reExport request importName)
  | none, _, _ => none

theorem explicitExport_of_mem (plain : ∀ entry ∈ exports, entry.Plain)
    (distinct : (exports.map (·.exportName)).Nodup) {entry : ExportEntry}
    (member : entry ∈ exports) : explicitExport entry.exportName exports = entry.explicit := by
  induction exports with
  | nil => cases member
  | cons first rest ih =>
    obtain ⟨unique, distinctRest⟩ := nodup_cons.mp distinct
    cases member with
    | head =>
      cases plain entry (.head _) with
      | direct => simp [explicitExport, explicit, direct]
      | reExport => simp [explicitExport, explicit, reExport]
    | tail _ later =>
      have apart : first.exportName ≠ entry.exportName := by
        intro same
        exact unique (mem_map.mpr ⟨entry, later, same.symm⟩)
      rw [explicitExport, if_neg apart]
      exact ih (fun other member => plain other (.tail _ member)) distinctRest later

theorem resolveStars_of_plain (plain : ∀ entry ∈ exports, entry.Plain)
    (search : List ExportKey → ExportKey →
      Option (Except EsmLoaderError ResolvedBinding × List ExportKey))
    (specifier exportName : String) (visited : List ExportKey) :
    resolveStars search specifier exportName exports none visited =
      some (.error (.exportNotFound specifier exportName), visited) := by
  induction exports with
  | nil => rfl
  | cons entry rest ih =>
    have next := ih fun other member => plain other (.tail _ member)
    cases plain entry (.head _) with
    | direct localName name =>
      unfold resolveStars
      split
      · exact next
      · exact next
    | reExport request importName named =>
      exact (if_neg named).trans next

end Explicit

namespace ModuleGraph

variable {graph : ModuleGraph}

/-- The way of a resolution that returns a binding. -/
inductive LeadsTo (graph : ModuleGraph) : ExportKey → ResolvedBinding → Prop
  | direct {specifier exportName localName : String} {module : EsmModule}
      (found : graph.modules.get? specifier = some module)
      (here : explicitExport exportName module.exports = some (.direct localName)) :
      LeadsTo graph (specifier, exportName) ⟨specifier, localName, .direct⟩
  | reExport {specifier exportName request importName : String} {module : EsmModule}
      {binding : ResolvedBinding} (found : graph.modules.get? specifier = some module)
      (here : explicitExport exportName module.exports = some (.reExport request importName))
      (leads : LeadsTo graph (request, importName) binding) :
      LeadsTo graph (specifier, exportName) binding

variable {binding : ResolvedBinding} {id : BindingId} (plain : graph.Plain)

include plain

theorem leadsTo_of_run {levels : Nat} {visited after : List ExportKey} {key : ExportKey}
    (returned : Search.run graph.resolveExportInner levels visited key = some (.ok binding, after)) :
    graph.LeadsTo key binding := by
  induction levels generalizing visited key with
  | zero => cases returned
  | succ levels ih =>
    obtain ⟨specifier, exportName⟩ := key
    simp only [Search.run, resolveExportInner] at returned
    split at returned
    · cases returned
    · cases found : graph.modules.get? specifier with
      | none => simp [found] at returned
      | some module =>
        cases here : explicitExport exportName module.exports with
        | none =>
          have entries := plain.entries specifier module found
          simp only [found, here, resolveStars_of_plain entries] at returned
          cases returned
        | some explicit =>
          cases explicit with
          | direct localName =>
            simp only [found, here] at returned
            cases returned
            exact .direct found here
          | reExport request importName =>
            simp only [found, here] at returned
            exact .reExport found here (ih returned)

theorem leadsTo_of_resolveExport {specifier exportName : String}
    (resolved : graph.resolveExport specifier exportName = some (.ok binding)) :
    graph.LeadsTo (specifier, exportName) binding := by
  obtain ⟨⟨result, after⟩, returned, same⟩ := map_eq_some_iff.mp resolved
  have isOk : result = .ok binding := same
  rw [isOk] at returned
  exact leadsTo_of_run plain returned

theorem get?_of_mem_values {module : EsmModule} (member : module ∈ graph.modules.values) :
    graph.modules.get? module.specifier = some module :=
  plain.keyed.mem_values_iff.mp member

theorem exists_of_mem_hops {target : BindingId} (member : (id, target) ∈ graph.hops) :
    ∃ module, graph.modules.get? id.moduleSpecifier = some module ∧
      .reExport id.exportName target.moduleSpecifier target.exportName ∈ module.exports := by
  obtain ⟨module, isModule, listed⟩ := mem_flatMap.mp member
  obtain ⟨entry, isEntry, isHop⟩ := mem_filterMap.mp listed
  have found := get?_of_mem_values plain isModule
  cases plain.entries _ _ found entry isEntry with
  | direct localName exportName => cases isHop
  | reExport request importName named =>
    cases isHop
    exact ⟨module, found, isEntry⟩

theorem exists_of_mem_directs {cell : BindingCell} (member : cell ∈ graph.directs) :
    cell = .new cell.sourceModule cell.exportName cell.localName .direct ∧
      ∃ module, graph.modules.get? cell.sourceModule = some module ∧
        .direct cell.localName cell.exportName ∈ module.exports := by
  obtain ⟨module, isModule, listed⟩ := mem_flatMap.mp member
  obtain ⟨entry, isEntry, isDirect⟩ := mem_filterMap.mp listed
  have found := get?_of_mem_values plain isModule
  cases plain.entries _ _ found entry isEntry with
  | direct localName exportName =>
    cases isDirect
    exact ⟨rfl, module, found, isEntry⟩
  | reExport request importName named => cases isDirect

theorem eq_of_exportName {specifier : String} {module : EsmModule}
    (found : graph.modules.get? specifier = some module) {left right : ExportEntry}
    (isLeft : left ∈ module.exports) (isRight : right ∈ module.exports)
    (same : left.exportName = right.exportName) : left = right :=
  inj_on_of_nodup_map (plain.distinct specifier module found) isLeft isRight same

theorem isDirect_apart {target : BindingId} (start : graph.IsDirect id) :
    (id, target) ∉ graph.hops := by
  intro member
  obtain ⟨cell, isCell, rfl⟩ := start
  obtain ⟨_, module, found, isDirect⟩ := exists_of_mem_directs plain isCell
  obtain ⟨other, foundOther, isHop⟩ := exists_of_mem_hops plain member
  cases found.symm.trans foundOther
  cases eq_of_exportName plain found isDirect isHop rfl

theorem directs_functional :
    ∀ left ∈ graph.directs, ∀ right ∈ graph.directs, left.ownId = right.ownId → left = right := by
  intro left isLeft right isRight same
  obtain ⟨leftNew, module, found, isDirect⟩ := exists_of_mem_directs plain isLeft
  obtain ⟨rightNew, other, foundOther, isOther⟩ := exists_of_mem_directs plain isRight
  obtain ⟨modules, names⟩ := BindingId.mk.inj same
  rw [← modules] at foundOther
  cases found.symm.trans foundOther
  have entries := eq_of_exportName plain found isDirect isOther names
  have locals : left.localName = right.localName :=
    some.inj (congrArg localName entries)
  rw [leftNew, rightNew, modules, names, locals]

theorem nodup_hops : (graph.hops.map Prod.fst).Nodup := by
  rw [hops, map_flatMap, nodup_flatMap]
  constructor
  · intro module isModule
    have found := get?_of_mem_values plain isModule
    have names := pairwise_map.mp (plain.distinct _ _ found)
    refine pairwise_map.mpr (pairwise_filterMap.mpr (names.imp ?_))
    intro left right apart hop isHop other isOther same
    obtain ⟨_, _, rfl⟩ := map_eq_some_iff.mp isHop
    obtain ⟨_, _, rfl⟩ := map_eq_some_iff.mp isOther
    exact apart (BindingId.mk.inj same).2
  · refine (pairwise_map.mp plain.keyed.nodup_values).imp ?_
    intro left right apart id isLeft isRight
    obtain ⟨hop, isHop, rfl⟩ := mem_map.mp isLeft
    obtain ⟨other, isOther, same⟩ := mem_map.mp isRight
    obtain ⟨_, _, made⟩ := mem_filterMap.mp isHop
    obtain ⟨_, _, madeOther⟩ := mem_filterMap.mp isOther
    obtain ⟨_, _, rfl⟩ := map_eq_some_iff.mp made
    obtain ⟨_, _, rfl⟩ := map_eq_some_iff.mp madeOther
    exact apart (BindingId.mk.inj same).1.symm

theorem LeadsTo.of_wired {position : Nat} {last : BindingId}
    (wired : Wired graph.IsDirect graph.hops position id last)
    (leads : graph.LeadsTo (id.moduleSpecifier, id.exportName) binding) :
    ∃ cell ∈ graph.directs, cell.ownId = last ∧
      cell.sourceModule = binding.moduleSpecifier ∧ cell.localName = binding.localName := by
  induction wired with
  | known start =>
    obtain ⟨cell, isCell, rfl⟩ := start
    obtain ⟨_, module, found, isDirect⟩ := exists_of_mem_directs plain isCell
    have here := explicitExport_of_mem (plain.entries _ _ found) (plain.distinct _ _ found) isDirect
    refine ⟨cell, isCell, rfl, ?_⟩
    cases leads with
    | direct foundHere direct =>
      cases found.symm.trans foundHere
      cases here.symm.trans direct
      exact ⟨rfl, rfl⟩
    | reExport foundHere reExport _ =>
      cases found.symm.trans foundHere
      cases here.symm.trans reExport
  | hop listed before wired ih =>
    obtain ⟨module, found, isHop⟩ :=
      exists_of_mem_hops plain (mem_of_getElem? listed)
    have here := explicitExport_of_mem (plain.entries _ _ found) (plain.distinct _ _ found) isHop
    apply ih
    cases leads with
    | direct foundHere direct =>
      cases found.symm.trans foundHere
      cases here.symm.trans direct
    | reExport foundHere reExport rest =>
      cases found.symm.trans foundHere
      cases here.symm.trans reExport
      exact rest

end ModuleGraph

/-!
## The finished table
-/

def bindingOf (importer : String) (entry : ImportEntry) : ImportBinding where
  importer
  localName := entry.localName
  target := ⟨entry.moduleRequest, entry.importName⟩
  isNamespace := entry.importName = "*"

namespace LiveBindingMap

theorem foldl_addNamespace (modules : List EsmModule) (map : LiveBindingMap) :
    (modules.foldl addNamespace map).cells = map.cells ∧
      (modules.foldl addNamespace map).aliases = map.aliases ∧
      (modules.foldl addNamespace map).imports = map.imports ∧
      ∀ specifier, ((map.namespaces.get? specifier).isSome ∨
          ∃ module ∈ modules, module.specifier = specifier) →
        ((modules.foldl addNamespace map).namespaces.get? specifier).isSome := by
  induction modules generalizing map with
  | nil => simp
  | cons module rest ih =>
    obtain ⟨cells, aliases, imports, namespaces⟩ := ih (map.addNamespace module)
    refine ⟨cells, aliases, imports, fun specifier present => namespaces specifier ?_⟩
    have inserted : ((map.addNamespace module).namespaces.get? specifier).isSome ↔
        specifier = module.specifier ∨ (map.namespaces.get? specifier).isSome := by
      change ((map.namespaces.insert module.specifier _).get? specifier).isSome ↔ _
      rw [get?_insert]
      by_cases same : specifier = module.specifier
      · simp [same]
      · simp [same]
    rw [inserted]
    rcases present with held | ⟨other, member, rfl⟩
    · exact .inl (.inr held)
    · cases member with
      | head => exact .inl (.inl rfl)
      | tail _ later => exact .inr ⟨other, later, rfl⟩

theorem foldl_wireImport (bindings : List ImportBinding) (map : LiveBindingMap) :
    (bindings.foldl wireImport map).cells = map.cells ∧
      (bindings.foldl wireImport map).aliases = map.aliases ∧
      (bindings.foldl wireImport map).namespaces = map.namespaces ∧
      (bindings.foldl wireImport map).imports = map.imports ++ bindings := by
  induction bindings generalizing map with
  | nil => simp
  | cons binding rest ih =>
    obtain ⟨cells, aliases, namespaces, imports⟩ := ih (map.wireImport binding)
    refine ⟨cells, aliases, namespaces, imports.trans ?_⟩
    rw [← singleton_append, ← append_assoc]
    rfl

theorem foldl_imports (modules : List EsmModule) (map : LiveBindingMap) : modules.foldl
        (fun map module => module.imports.foldl (addImport module.specifier) map) map =
      (modules.flatMap fun module => module.imports.map (bindingOf module.specifier)).foldl
        wireImport map := by
  simp only [foldl_flatMap, foldl_map]
  rfl

/-- What building leaves: the table of the pass over the hops, a namespace for every module and
the imports in the order of the modules. -/
structure BuiltFrom (graph : ModuleGraph) (direct map : LiveBindingMap) : Prop where
  opens : Opens graph.IsDirect direct
  directs : ∀ cell ∈ graph.directs, direct.cells.get? cell.ownId = some cell
  cells : map.cells = (passTo direct graph.hops graph.hops.length).cells
  aliases : map.aliases = (passTo direct graph.hops graph.hops.length).aliases
  namespaces : ∀ specifier module, graph.modules.get? specifier = some module →
    (map.namespaces.get? specifier).isSome
  imports : map.imports = graph.modules.values.flatMap fun module =>
    module.imports.map (bindingOf module.specifier)

variable {map : LiveBindingMap}

theorem builtFrom_of_build {graph : ModuleGraph} (plain : graph.Plain)
    (built : buildLiveBindings graph = .ok map) : ∃ direct, BuiltFrom graph direct map := by
  obtain ⟨direct, opened, finished⟩ := bind_ok built
  have registered := foldlM_addModuleDirects opened
  obtain ⟨cells, aliases, imports⟩ := foldl_registerCell graph.directs {}
  rw [← directs] at registered
  rw [← registered] at cells aliases imports
  have found : ∀ id cell, direct.cells.get? id = some cell ↔
      cell ∈ graph.directs ∧ cell.ownId = id := by
    intro id cell
    rw [cells]
    exact get?_foldl_insert (directs_functional plain) id cell
  cases finished
  rw [foldl_addReExport, ← passTo_length, foldl_imports]
  obtain ⟨namedCells, namedAliases, namedImports, namespaces⟩ :=
    foldl_addNamespace graph.modules.values (passTo direct graph.hops graph.hops.length)
  obtain ⟨wiredCells, wiredAliases, wiredNamespaces, wiredImports⟩ :=
    foldl_wireImport
      (graph.modules.values.flatMap fun module => module.imports.map (bindingOf module.specifier))
      (graph.modules.values.foldl addNamespace (passTo direct graph.hops graph.hops.length))
  refine ⟨direct, ⟨fun id => ?_, aliases⟩, fun cell member => (found _ _).mpr ⟨member, rfl⟩,
    wiredCells.trans namedCells, wiredAliases.trans namedAliases, ?_, ?_⟩
  · rw [isSome_iff_exists]
    exact exists_congr fun cell => found id cell
  · intro specifier module present
    rw [wiredNamespaces]
    exact namespaces specifier
      (.inr ⟨module, mem_values_of_get? present, plain.keyed present⟩)
  · rw [wiredImports, namedImports, passTo_length, imports_foldl_addHop, imports]
    rfl

theorem BuiltFrom.find?_imports {graph : ModuleGraph} (plain : graph.Plain)
    {direct map : LiveBindingMap} (built : BuiltFrom graph direct map) {importer : String}
    {module : EsmModule} (found : graph.modules.get? importer = some module) {entry : ImportEntry}
    (named : (module.imports.find? fun other => other.localName = entry.localName) = some entry) :
    (map.imports.find? fun binding =>
      binding.importer = importer ∧ binding.localName = entry.localName) =
        some (bindingOf importer entry) := by
  have own : module.specifier = importer := plain.keyed found
  have inModule : ∀ other : EsmModule,
      ((other.imports.map (bindingOf other.specifier)).find? fun binding =>
        binding.importer = importer ∧ binding.localName = entry.localName) =
      if other.specifier = importer then
        (other.imports.find? fun other => other.localName = entry.localName).map
          (bindingOf importer)
      else none := by
    intro other
    have test : ((fun binding : ImportBinding =>
          decide (binding.importer = importer ∧ binding.localName = entry.localName)) ∘
        bindingOf other.specifier) =
        fun held => decide (other.specifier = importer ∧ held.localName = entry.localName) := rfl
    rw [find?_map, test]
    by_cases same : other.specifier = importer
    · simp [same]
    · simp [same]
  obtain ⟨before, after, parts, absent⟩ := eq_append_cons_of_mem (mem_values_of_get? found)
  have earlier : ∀ other ∈ before, other.specifier ≠ importer := by
    intro other member same
    have foundOther := get?_of_mem_values plain (parts ▸ mem_append_left _ member)
    rw [same, found] at foundOther
    exact absent (some.inj foundOther ▸ member)
  have none : before.findSome? (fun other => if other.specifier = importer then
      (other.imports.find? fun other => other.localName = entry.localName).map (bindingOf importer)
      else none) = none :=
    findSome?_eq_none_iff.mpr fun other member => if_neg (earlier other member)
  rw [built.imports, find?_flatMap, parts, findSome?_append, funext inModule, none, findSome?_cons,
    if_pos own, named]
  rfl

/-!
## Calls on cells
-/

inductive CellCall where
  | initializeMillionths (value : Int64)
  | initializeString (value : String)
  | mutateMillionths (value : Int64)
  | mutateString (value : String)

def CellCall.value : CellCall → Option Int64 × Option String
  | .initializeMillionths value | .mutateMillionths value => (some value, none)
  | .initializeString value | .mutateString value => (none, some value)

def perform (map : LiveBindingMap) (call : BindingId × CellCall) :
    LiveBindingMap × Except LiveBindingError Unit :=
  match call.2 with
  | .initializeMillionths value => map.initializeMillionths call.1 value
  | .initializeString value => map.initializeString call.1 value
  | .mutateMillionths value => map.mutateMillionths call.1 value
  | .mutateString value => map.mutateString call.1 value

def performAll (map : LiveBindingMap) (calls : List (BindingId × CellCall)) : LiveBindingMap :=
  calls.foldl (fun held call => (held.perform call).1) map

def written (cell : BindingCell) (call : CellCall) : BindingCell :=
  { cell with
    state := .initialized, valueMillionths := call.value.1, valueString := call.value.2
    version := cell.version + 1 }

theorem perform_frame (map : LiveBindingMap) (call : BindingId × CellCall) :
    (map.perform call).1.aliases = map.aliases ∧ (map.perform call).1.imports = map.imports ∧
      ∀ id, map.resolveBindingId call.1 ≠ id →
        (map.perform call).1.cells.get? id = map.cells.get? id := by
  have changed : ∀ change event, (map.changeCell call.1 change event).1.aliases = map.aliases ∧
      (map.changeCell call.1 change event).1.imports = map.imports ∧
      ∀ id, map.resolveBindingId call.1 ≠ id →
        (map.changeCell call.1 change event).1.cells.get? id = map.cells.get? id := by
    intro change event
    unfold changeCell
    dsimp only
    split
    · exact ⟨rfl, rfl, fun _ _ => rfl⟩
    · split
      · exact ⟨rfl, rfl, fun _ _ => rfl⟩
      · exact ⟨rfl, rfl, fun id other => (get?_insert _ _ _ _).trans (if_neg other.symm)⟩
  unfold perform
  split <;> exact changed _ _

variable {cell : BindingCell} {id : BindingId}

theorem changeCell_cells {change : BindingCell → Except LiveBindingError BindingCell}
    {event : BindingId → UInt64 → BindingEvent} {call : CellCall}
    (found : map.cells.get? (map.resolveBindingId id) = some cell)
    (changes : change cell = .ok (written cell call)) : (map.changeCell id change event).1.cells =
        map.cells.insert (map.resolveBindingId id) (written cell call) ∧
      (map.changeCell id change event).2 = .ok () := by
  simp [changeCell, found, changes, emit]

theorem perform_cells {call : BindingId × CellCall}
    (found : map.cells.get? (map.resolveBindingId call.1) = some cell)
    (alive : cell.state ≠ .dead) : (map.perform call).1.cells =
        map.cells.insert (map.resolveBindingId call.1) (written cell call.2) ∧
      (map.perform call).2 = .ok () := by
  obtain ⟨id, call⟩ := call
  cases call with
  | initializeMillionths | initializeString => exact changeCell_cells found rfl
  | mutateMillionths value =>
    exact changeCell_cells found (by simp [BindingCell.mutateMillionths, alive, written,
      CellCall.value])
  | mutateString value =>
    exact changeCell_cells found (by simp [BindingCell.mutateString, alive, written,
      CellCall.value])

def valueOf (cell : BindingCell) : Option Int64 × Option String :=
  (cell.valueMillionths, cell.valueString)

theorem performAll_latest (found : map.cells.get? id = some cell) (alive : cell.state ≠ .dead)
    (calls : List (BindingId × CellCall)) :
    (map.performAll calls).aliases = map.aliases ∧ (map.performAll calls).imports = map.imports ∧
      ∃ after, (map.performAll calls).cells.get? id = some after ∧ after.ownId = cell.ownId ∧
        valueOf after = ((calls.filter fun call => map.resolveBindingId call.1 = id).map
          (·.2.value)).getLastD (valueOf cell) := by
  induction calls generalizing map cell with
  | nil => exact ⟨rfl, rfl, cell, found, rfl, rfl⟩
  | cons call rest ih =>
    obtain ⟨aliases, imports, others⟩ := perform_frame map call
    have resolves : ∀ other, (map.perform call).1.resolveBindingId other =
        map.resolveBindingId other := by
      intro other
      rw [resolveBindingId, resolveBindingId, aliases]
    by_cases here : map.resolveBindingId call.1 = id
    · subst here
      obtain ⟨cells, _⟩ := perform_cells found alive
      have stored : (map.perform call).1.cells.get? (map.resolveBindingId call.1) =
          some (written cell call.2) := by
        rw [cells, get?_insert, if_pos rfl]
      obtain ⟨restAliases, restImports, after, held, own, latest⟩ :=
        ih stored (by simp [written])
      refine ⟨restAliases.trans aliases, restImports.trans imports, after, held, own, ?_⟩
      simp only [resolves] at latest
      rw [latest, filter_cons_of_pos (by simp), map_cons, getLastD_cons]
      rfl
    · obtain ⟨restAliases, restImports, after, held, own, latest⟩ :=
        ih ((others id here).trans found) alive
      refine ⟨restAliases.trans aliases, restImports.trans imports, after, held, own, ?_⟩
      rw [latest]
      simp [resolves, here]

/-!
## Imports
-/

/-- The import reads the cell of the module that it is resolved to, now and after any calls, and
is not reported. -/
structure ReachesExport (map : LiveBindingMap) (importer : String) (entry : ImportEntry)
    (binding : ResolvedBinding) (cell : BindingCell) : Prop where
  sourceModule : cell.sourceModule = binding.moduleSpecifier
  localName : cell.localName = binding.localName
  isDirect : cell.bindingType = .direct
  stored : map.cells.get? cell.ownId = some cell
  ownCell : map.resolveBindingId cell.ownId = cell.ownId
  reads : map.readThroughImport importer entry.localName = .ok cell
  live : ∀ calls : List (BindingId × CellCall), ∃ after,
    (map.performAll calls).cells.get? cell.ownId = some after ∧
      (map.performAll calls).readThroughImport importer entry.localName = .ok after ∧
      valueOf after = ((calls.filter fun call => map.resolveBindingId call.1 = cell.ownId).map
        (·.2.value)).getLastD (valueOf cell)
  unreported : importError map (bindingOf importer entry) = none

theorem readThroughImport_eq {importer localName : String} {binding : ImportBinding}
    (found : (map.imports.find? fun binding =>
      binding.importer = importer ∧ binding.localName = localName) = some binding) :
    map.readThroughImport importer localName =
      (map.getCell binding.target).elim
        (.error (.bindingNotFound binding.target.moduleSpecifier binding.target.exportName))
        .ok := by
  unfold readThroughImport
  rw [found]
  cases reached : map.getCell binding.target with
  | none | some => simp [reached]

end LiveBindingMap

open LiveBindingMap in
/-- The import that a module knows by a local name reads the export that it is resolved to exactly
if its chain of re-exports is passed in order. -/
theorem reaches_export_iff {graph : ModuleGraph} (plain : graph.Plain) {map : LiveBindingMap}
    (built : buildLiveBindings graph = .ok map) {importer : String} {module : EsmModule}
    (found : graph.modules.get? importer = some module) {entry : ImportEntry}
    (named : (module.imports.find? fun other => other.localName = entry.localName) = some entry)
    {binding : ResolvedBinding}
    (resolved : graph.resolveExport entry.moduleRequest entry.importName = some (.ok binding)) :
    (∃ cell, map.ReachesExport importer entry binding cell) ↔
      graph.ChainInOrder ⟨entry.moduleRequest, entry.importName⟩ := by
  obtain ⟨direct, table⟩ := builtFrom_of_build plain built
  have distinct := ModuleGraph.nodup_hops plain
  have apart : ∀ {id target : BindingId}, graph.IsDirect id → (id, target) ∉ graph.hops :=
    ModuleGraph.isDirect_apart plain
  have first := table.find?_imports plain found named
  have passed : Passed graph.IsDirect graph.hops graph.hops.length map := by
    have passedTo := passed_passTo table.opens distinct graph.hops.length (Nat.le_refl _)
    constructor
    · rw [table.cells]
      exact passedTo.cells
    · rw [table.aliases]
      exact passedTo.aliases
    · rw [table.aliases]
      exact passedTo.distinct
  constructor
  · rintro ⟨cell, reaches⟩
    by_contra disordered
    have missing : map.getCell (bindingOf importer entry).target = none :=
      passed.getCell_eq_none disordered
    have read := reaches.reads
    rw [readThroughImport_eq first, missing] at read
    cases read
  · rintro ⟨last, wired⟩
    have leads := ModuleGraph.leadsTo_of_resolveExport plain resolved
    obtain ⟨cell, isCell, rfl, sourceModule, localName⟩ :=
      ModuleGraph.LeadsTo.of_wired plain wired leads
    obtain ⟨made, _⟩ := ModuleGraph.exists_of_mem_directs plain isCell
    have stored : map.cells.get? cell.ownId = some cell := by
      rw [table.cells, passTo_length]
      exact get?_foldl_addHop (table.directs cell isCell) graph.hops
    have resolves : map.resolveBindingId (bindingOf importer entry).target = cell.ownId :=
      passed.resolveBindingId_eq distinct apart wired
    have alive : cell.state ≠ .dead := by
      rw [made]
      nofun
    have reads : ∀ {held : LiveBindingMap} {after : BindingCell}, held.imports = map.imports →
        held.aliases = map.aliases → held.cells.get? cell.ownId = some after →
        held.readThroughImport importer entry.localName = .ok after := by
      intro held after imports aliases here
      have same : held.resolveBindingId (bindingOf importer entry).target = cell.ownId := by
        rw [resolveBindingId, aliases]
        exact resolves
      rw [← imports] at first
      rw [readThroughImport_eq first, getCell, same, here]
      rfl
    refine ⟨cell, sourceModule, localName, ?_, stored, ?_, reads rfl rfl stored, ?_, ?_⟩
    · rw [made]
      rfl
    · exact passed.resolveBindingId_eq distinct apart (.known ⟨cell, isCell, rfl⟩)
    · intro calls
      obtain ⟨aliases, imports, after, here, _, latest⟩ := performAll_latest stored alive calls
      exact ⟨after, here, reads imports aliases here, latest⟩
    · have celled : (map.cells.get? (bindingOf importer entry).target).isSome :=
        (passed.cells _).mpr ⟨_, wired⟩
      have targetFound : ∃ target, graph.modules.get? entry.moduleRequest = some target := by
        cases leads with
        | direct found _ => exact ⟨_, found⟩
        | reExport found _ _ => exact ⟨_, found⟩
      obtain ⟨target, isTarget⟩ := targetFound
      have spaced : (map.namespaces.get? (bindingOf importer entry).target.moduleSpecifier).isSome :=
        table.namespaces _ _ isTarget
      unfold importError
      rw [if_pos celled, if_pos spaced, ite_self]

def passing (specifier request : String) : EsmModule :=
  (EsmModule.new specifier).addExport (.reExport "n" request "n")

def owning (specifier : String) : EsmModule :=
  (EsmModule.new specifier).addExport (.direct "n" "n")

def reading (specifier request : String) : EsmModule :=
  (EsmModule.new specifier).addImport ⟨request, "n", "n"⟩

def linkModules (modules : List EsmModule) : Except EsmLoaderError ModuleGraph := do
  let graph ← modules.foldlM ModuleGraph.addModule .new
  let (_, linked) ← graph.link
  .ok linked

def linkedGraph (modules : List EsmModule) : ModuleGraph :=
  (linkModules modules).toOption.getD .new

theorem reaches_export_ordered :
    let modules := [reading "main" "c", passing "c" "b", passing "b" "a", owning "a"]
    let graph := linkedGraph modules
    linkModules modules = .ok graph ∧
      graph.resolveExport "c" "n" = some (.ok ⟨"a", "n", .direct⟩) ∧
      ∃ map, buildLiveBindings graph = .ok map ∧
        ∃ cell, map.ReachesExport "main" ⟨"c", "n", "n"⟩ ⟨"a", "n", .direct⟩ cell := by
  intro modules graph
  have plain : graph.Plain := ModuleGraph.plain_of_entries (by decide +kernel)
  have isBuilt : (buildLiveBindings graph).isOk = true := by decide +kernel
  obtain ⟨map, built⟩ := exists_of_isOk isBuilt
  have present : (graph.modules.get? "main").map (·.imports) = some [⟨"c", "n", "n"⟩] := by
    decide +kernel
  obtain ⟨module, found, imports⟩ := Option.map_eq_some_iff.mp present
  have named : (module.imports.find? fun other => other.localName = "n") =
      some ⟨"c", "n", "n"⟩ := by
    rw [imports]
    decide
  have first : graph.hops[0]? = some (⟨"b", "n"⟩, ⟨"a", "n"⟩) := by decide +kernel
  have second : graph.hops[1]? = some (⟨"c", "n"⟩, ⟨"b", "n"⟩) := by decide +kernel
  have direct : .new "a" "n" "n" .direct ∈ graph.directs := by decide +kernel
  have last : graph.IsDirect ⟨"a", "n"⟩ := ⟨_, direct, rfl⟩
  have ordered : graph.ChainInOrder ⟨"c", "n"⟩ := by
    refine ⟨⟨"a", "n"⟩, ?_⟩
    exact .hop second (by decide) (.hop first (by decide) (.known last))
  have resolved : graph.resolveExport "c" "n" = some (.ok ⟨"a", "n", .direct⟩) := by
    decide +kernel
  exact ⟨by decide +kernel, resolved, map, built,
    (reaches_export_iff plain built found named resolved).mpr ordered⟩

/-- A re-export that is passed before the next hop has its cell gets neither cell nor alias, and
the import that is resolved through it reads nothing. -/
theorem build_loses_reexport :
    let modules := [reading "main" "a", passing "a" "b", passing "b" "c", owning "c"]
    let graph := linkedGraph modules
    linkModules modules = .ok graph ∧
      graph.resolveExport "a" "n" = some (.ok ⟨"c", "n", .direct⟩) ∧
      ((buildLiveBindings graph).map fun map =>
          (map.readThroughImport "main" "n", validateBindings map)) =
        .ok (.error (.bindingNotFound "a" "n"), [.bindingNotFound "a" "n"]) := by
  decide +kernel

end FrankenEngine.Esm
