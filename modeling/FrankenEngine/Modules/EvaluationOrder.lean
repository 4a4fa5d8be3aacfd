import FrankenEngine.Library.TopologicalSort
import FrankenEngine.Modules.AsyncEvaluation
import Mathlib.Data.Set.Card

/-!
# The order of evaluation

`compute_async_evaluation_order` counts every dependency that is listed, also
that of a module that is not. Such a stray module enters the order, whose length
is then the number of listed modules only if as many of these are missing.
-/

set_option autoImplicit false

namespace FrankenEngine.Modules

open Library TopologicalSort List

structure OrderTables where
  inDegree : OrderedMap String Nat := .empty
  adjacency : OrderedMap String (List String) := .empty

namespace OrderTables

variable (tables : OrderTables)

def note (specifier : String) : OrderTables where
  inDegree := tables.inDegree.insert specifier ((tables.inDegree.get? specifier).getD 0)
  adjacency := tables.adjacency.insert specifier ((tables.adjacency.get? specifier).getD [])

def addDependency (specifiers : List String) (module : String) (tables : OrderTables)
    (dependency : String) : OrderTables :=
  if specifiers.any (· = dependency) then
    { inDegree := tables.inDegree.insert module ((tables.inDegree.get? module).getD 0 + 1)
      adjacency := tables.adjacency.insert dependency
        ((tables.adjacency.get? dependency).getD [] ++ [module]) }
  else tables

def ofDependencies (specifiers : List String) (dependencies : OrderedMap String (List String)) :
    OrderTables :=
  dependencies.entries.foldl
    (fun tables entry => entry.2.foldl (addDependency specifiers entry.1) tables)
    (specifiers.foldl note {})

def successors (specifier : String) : List String := (tables.adjacency.get? specifier).getD []

end OrderTables

/-- The queue is kept sorted and taken from its end. -/
def sortedStack : Agenda String where
  push queue specifier := (queue.concat specifier).insertionSort (· ≤ ·)
  pop queue := queue.getLast?.map (·, queue.dropLast)
  push_perm _ := (perm_insertionSort _ _).trans (by simp)
  pop_perm := by
    intro ready node rest popped
    obtain ⟨last, isLast, same⟩ := Option.map_eq_some_iff.mp popped
    cases same
    have split := dropLast_append_getLast? node isLast
    exact (Perm.of_eq split.symm).trans (perm_append_singleton _ _)
  pop_none := by simp

def computeAsyncEvaluationOrder (specifiers : List String)
    (dependencies : OrderedMap String (List String)) : Except AsyncEvalError (List String) :=
  let tables := OrderTables.ofDependencies specifiers dependencies
  let queue := (tables.inDegree.entries.filter (·.2 = 0)).map (·.1)
  let order := sort sortedStack tables.successors (queue.insertionSort (· ≤ ·)) tables.inDegree
  if order.length ≠ specifiers.length then
    .error (.cycleDetected (specifiers.filter (· ∉ order)))
  else .ok order

variable (specifiers : List String) (dependencies : OrderedMap String (List String))

def listedPairs (entries : List (String × List String)) : List (String × String) :=
  entries.flatMap fun entry => (entry.2.filter (· ∈ specifiers)).map (·, entry.1)

/-- Both are listed and the second names the first. -/
def DependsOn (dependency module : String) : Prop :=
  dependency ∈ specifiers ∧ ∃ named, dependencies.get? module = some named ∧ dependency ∈ named

variable {specifiers dependencies}

theorem mem_listedPairs {dependency module : String} :
    (dependency, module) ∈ listedPairs specifiers dependencies.entries ↔
      DependsOn specifiers dependencies dependency module := by
  simp only [listedPairs, mem_flatMap, mem_map, mem_filter, decide_eq_true_eq, Prod.mk.injEq]
  constructor
  · rintro ⟨⟨_, named⟩, member, _, ⟨isNamed, listed⟩, rfl, rfl⟩
    exact ⟨listed, named, dependencies.ascending.lookup_eq_some_iff.mpr member, isNamed⟩
  · rintro ⟨listed, named, found, isNamed⟩
    exact ⟨_, dependencies.ascending.lookup_eq_some_iff.mp found, _, ⟨isNamed, listed⟩, rfl, rfl⟩

namespace OrderTables

variable {tables : OrderTables} {noted : List String} {pairs : List (String × String)}
  (held : Tables noted pairs tables.inDegree tables.successors)

include held

theorem tables_foldl_note (specifiers : List String) :
    let after := specifiers.foldl note tables
    Tables (noted ++ specifiers) pairs after.inDegree after.successors := by
  induction specifiers generalizing tables noted with
  | nil => simpa using held
  | cons specifier rest ih =>
    have same : (tables.note specifier).successors = tables.successors := by
      funext other
      simp only [successors, note, OrderedMap.get?_insert]
      split
      next own => rw [own]; rfl
      next => rfl
    have first : Tables (noted ++ [specifier]) pairs (tables.note specifier).inDegree
        (tables.note specifier).successors := same ▸ held.note specifier
    have next := ih first
    rwa [append_assoc] at next

theorem tables_foldl_addDependency (module : String) (named : List String) :
    let after := named.foldl (addDependency noted module) tables
    Tables noted (pairs ++ (named.filter (· ∈ noted)).map (·, module)) after.inDegree
      after.successors := by
  induction named generalizing tables pairs with
  | nil => simpa using held
  | cons dependency rest ih =>
    rw [foldl_cons, addDependency]
    by_cases listed : dependency ∈ noted
    · have first : Tables noted (pairs ++ [(dependency, module)])
          (addDependency noted module tables dependency).inDegree
          (addDependency noted module tables dependency).successors := by
        rw [addDependency, if_pos (by simpa using listed)]
        exact held.add listed module
      have next := ih first
      simpa [listed, addDependency] using next
    · simpa [listed] using ih held

theorem tables_foldl_entries (entries : List (String × List String)) :
    let after := entries.foldl
      (fun tables entry => entry.2.foldl (addDependency noted entry.1) tables) tables
    Tables noted (pairs ++ listedPairs noted entries) after.inDegree after.successors := by
  induction entries generalizing tables pairs with
  | nil => simpa [listedPairs] using held
  | cons entry rest ih =>
    have next := ih (tables_foldl_addDependency held entry.1 entry.2)
    rwa [append_assoc] at next

omit held

theorem tables_ofDependencies (specifiers : List String)
    (dependencies : OrderedMap String (List String)) :
    let tables := ofDependencies specifiers dependencies
    Tables specifiers (listedPairs specifiers dependencies.entries) tables.inDegree
      tables.successors :=
  tables_foldl_entries (@tables_foldl_note {} [] [] .empty specifiers) dependencies.entries

end OrderTables

section Order

variable (specifiers : List String) (dependencies : OrderedMap String (List String))

/-- The order is found exactly if the listed modules do not depend on each other in a circle, and
lists each of them once, behind what it needs. -/
structure OrdersListed : Prop where
  ok_iff : (∃ order, computeAsyncEvaluationOrder specifiers dependencies = .ok order) ↔
    ∀ module, ¬ Relation.TransGen (DependsOn specifiers dependencies) module module
  order : ∀ order, computeAsyncEvaluationOrder specifiers dependencies = .ok order →
    order.Perm specifiers ∧ ∀ before module after, order = before ++ module :: after →
      ∀ dependency, DependsOn specifiers dependencies dependency module → dependency ∈ before

/-- On a circle of dependencies or behind one. -/
def Blocked (module : String) : Prop :=
  ∃ entry, Relation.TransGen (DependsOn specifiers dependencies) entry entry ∧
    Relation.ReflTransGen (DependsOn specifiers dependencies) entry module

def blockedModules : Set String :=
  {module | module ∈ specifiers ∧ Blocked specifiers dependencies module}

/-- The modules that are not listed, but depend on listed ones, and on no circle. -/
def strayModules : Set String :=
  {module | module ∉ specifiers ∧ (∃ dependency, DependsOn specifiers dependencies dependency module) ∧
    ¬ Blocked specifiers dependencies module}

variable {specifiers dependencies}

theorem blockedModules_eq_empty_iff : blockedModules specifiers dependencies = ∅ ↔
    ∀ module, ¬ Relation.TransGen (DependsOn specifiers dependencies) module module := by
  constructor
  · intro none module cycle
    obtain ⟨_, edge, -⟩ := Relation.TransGen.head'_iff.mp cycle
    have blocked : module ∈ blockedModules specifiers dependencies :=
      ⟨edge.1, module, cycle, .refl⟩
    rw [none] at blocked
    cases blocked
  · intro acyclic
    ext module
    exact ⟨fun ⟨_, entry, cycle, _⟩ => acyclic entry cycle, nofun⟩

/-- What the sort leaves: every listed or stray module that is not blocked, once, in order. -/
theorem exists_evaluationOrder (specifiers : List String)
    (dependencies : OrderedMap String (List String)) :
    ∃ order : List String, order.Nodup ∧
      (∀ module, module ∈ order ↔ (module ∈ specifiers ∨ ∃ dependency,
        DependsOn specifiers dependencies dependency module) ∧
          ¬ Blocked specifiers dependencies module) ∧
      (∀ before module after, order = before ++ module :: after → ∀ dependency,
        DependsOn specifiers dependencies dependency module → dependency ∈ before) ∧
      ∀ found, computeAsyncEvaluationOrder specifiers dependencies = .ok found ↔
        found = order ∧ order.length = specifiers.length := by
  have held := OrderTables.tables_ofDependencies specifiers dependencies
  unfold computeAsyncEvaluationOrder
  generalize OrderTables.ofDependencies specifiers dependencies = tables at held ⊢
  dsimp only at held ⊢
  have edges : Edge tables.successors tables.inDegree.keys.toFinset =
      DependsOn specifiers dependencies :=
    funext₂ fun _ _ => propext (held.edge_iff.trans mem_listedPairs)
  have keys : ∀ module, module ∈ tables.inDegree.keys ↔ module ∈ specifiers ∨ ∃ dependency,
      DependsOn specifiers dependencies dependency module := by
    intro module
    simp only [held.keys, mem_map, Prod.exists, exists_eq_right, mem_listedPairs]
  obtain ⟨once, sorted, members⟩ := held.sort_spec (perm_insertionSort (· ≤ ·) _) sortedStack
  simp only [BehindCycle, edges, keys] at members
  refine ⟨_, once, members, fun before module after split dependency edge => ?_, fun found => ?_⟩
  · rw [← edges] at edge
    exact sorted before module after split dependency edge.1 edge.2
  · split
    next short => simp [short]
    next full => simp [not_not.mp full, eq_comm]

open Classical in
theorem length_order {order : List String} (distinct : specifiers.Nodup) (once : order.Nodup)
    (members : ∀ module, module ∈ order ↔ (module ∈ specifiers ∨ ∃ dependency,
      DependsOn specifiers dependencies dependency module) ∧
        ¬ Blocked specifiers dependencies module) :
    order.length + (blockedModules specifiers dependencies).ncard =
      specifiers.length + (strayModules specifiers dependencies).ncard := by
  have blocked : (blockedModules specifiers dependencies).ncard =
      (specifiers.filter (Blocked specifiers dependencies ·)).length := by
    rw [← toFinset_card_of_nodup (distinct.filter _), ← Set.ncard_coe_finset]
    congr 1
    ext module
    simp [blockedModules]
  have stray : (strayModules specifiers dependencies).ncard =
      (order.filter (· ∉ specifiers)).length := by
    rw [← toFinset_card_of_nodup (once.filter _), ← Set.ncard_coe_finset]
    congr 1
    ext module
    simp only [strayModules, Set.mem_ofPred_eq, coe_toFinset, mem_filter, members, decide_eq_true_eq]
    tauto
  have listed : (order.filter (· ∈ specifiers)).Perm
      (specifiers.filter (¬ Blocked specifiers dependencies ·)) := by
    refine (perm_ext_iff_of_nodup (once.filter _) (distinct.filter _)).mpr fun module => ?_
    simp only [mem_filter, members, decide_eq_true_eq]
    tauto
  have own := length_eq_length_filter_add (l := order) (· ∈ specifiers)
  have all := length_eq_length_filter_add (l := specifiers) (Blocked specifiers dependencies ·)
  have same := listed.length_eq
  simp only [decide_not] at same stray
  omega

end Order

/-- The order is right exactly if there are no stray modules, or, with circles among the listed
modules, not just as many as there are blocked ones. -/
theorem evaluationOrder_exact_iff (specifiers : List String)
    (dependencies : OrderedMap String (List String)) (distinct : specifiers.Nodup) :
    OrdersListed specifiers dependencies ↔
      (blockedModules specifiers dependencies = ∅ → strayModules specifiers dependencies = ∅) ∧
      (blockedModules specifiers dependencies ≠ ∅ →
        (strayModules specifiers dependencies).ncard ≠
          (blockedModules specifiers dependencies).ncard) := by
  obtain ⟨order, once, members, sorted, ok⟩ := exists_evaluationOrder specifiers dependencies
  have length := length_order distinct once members
  have okIff : (∃ found, computeAsyncEvaluationOrder specifiers dependencies = .ok found) ↔
      (strayModules specifiers dependencies).ncard =
        (blockedModules specifiers dependencies).ncard := by
    simp only [ok, exists_eq_left]
    omega
  have finite : (strayModules specifiers dependencies).Finite :=
    order.toFinset.finite_toSet.subset fun module stray => by
      simpa [members] using ⟨.inr stray.2.1, stray.2.2⟩
  constructor
  · intro orders
    have found := orders.ok_iff
    rw [okIff, ← blockedModules_eq_empty_iff] at found
    refine ⟨fun none => (Set.ncard_eq_zero finite).mp ?_, fun some same => some (found.mp same)⟩
    rw [found.mpr none, none, Set.ncard_empty]
  · rintro ⟨acyclic, cyclic⟩
    have found : (strayModules specifiers dependencies).ncard =
        (blockedModules specifiers dependencies).ncard ↔
          blockedModules specifiers dependencies = ∅ := by
      refine ⟨not_imp_not.mp cyclic, fun none => ?_⟩
      rw [none, acyclic none]
    refine ⟨by rw [okIff, ← blockedModules_eq_empty_iff]; exact found, fun _ isOk => ?_⟩
    have none := acyclic (found.mp (okIff.mp ⟨_, isOk⟩))
    obtain ⟨rfl, full⟩ := (ok _).mp isOk
    refine ⟨(once.subperm fun module member => ?_).perm_of_length_le full.ge, sorted⟩
    obtain ⟨known, free⟩ := (members module).mp member
    by_contra unlisted
    have stray : module ∈ strayModules specifiers dependencies :=
      ⟨unlisted, known.resolve_left unlisted, free⟩
    rw [none] at stray
    cases stray

def needing (module dependency : String) : OrderedMap String (List String) :=
  .insert .empty module [dependency]

theorem evaluationOrder_exact_iff_pair :
    computeAsyncEvaluationOrder ["b", "a"] (needing "b" "a") = .ok ["a", "b"] ∧
      OrdersListed ["b", "a"] (needing "b" "a") := by
  have noStrays : strayModules ["b", "a"] (needing "b" "a") = ∅ := by
    ext module
    refine ⟨fun ⟨unlisted, ⟨_, _, _, isNamed, _⟩, _⟩ => ?_, nofun⟩
    rw [needing, OrderedMap.get?_insert] at isNamed
    split at isNamed
    next same => simp [same] at unlisted
    next => cases isNamed
  have finite : (blockedModules ["b", "a"] (needing "b" "a")).Finite :=
    (List.finite_toSet ["b", "a"]).subset fun _ blocked => blocked.1
  refine ⟨by decide +kernel, (evaluationOrder_exact_iff _ _ (by decide)).mpr
    ⟨fun _ => noStrays, fun some same => some ((Set.ncard_eq_zero finite).mp ?_)⟩⟩
  rw [← same, noStrays, Set.ncard_empty]

/-- A module that is not listed, but needs a listed one, makes the order too long. -/
theorem evaluationOrder_refuses_alone :
    computeAsyncEvaluationOrder ["a"] (needing "b" "a") = .error (.cycleDetected []) ∧
      ∀ module, ¬ DependsOn ["a"] (needing "b" "a") module "a" := by
  refine ⟨by decide +kernel, ?_⟩
  rintro module ⟨-, named, isNamed, -⟩
  cases isNamed

end FrankenEngine.Modules
