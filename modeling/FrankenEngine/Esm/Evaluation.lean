import FrankenEngine.Esm.Linking

/-!
# Evaluation after linking

Evaluation repeats the depth-first walk of linking over the modules that linking
has left behind. A module that the walk has opened is being evaluated, and one
that it has closed is evaluated, with its place in the order of closing.
-/

set_option autoImplicit false

namespace FrankenEngine.Esm

open Library Library.Walk Option

def markEvaluated (walk : Walk String) (specifier : String) (module : EsmModule) : EsmModule :=
  if specifier ∈ walk.closed then
    { module with status := .evaluated, evalOrder := some (walk.closed.idxOf specifier) }
  else if specifier ∈ walk.opened then { module with status := .evaluating }
  else module

structure Follows (linked : ModuleGraph) (state : EvalState) (walk : Walk String) : Prop where
  modules : ∀ specifier, state.graph.modules.get? specifier =
    (linked.modules.get? specifier).map (markEvaluated walk specifier)
  order : state.evalOrder = walk.closed
  counter : state.evalCounter = walk.closed.length
  entryPoint : state.graph.entryPoint = linked.entryPoint

section Steps

variable {linked : ModuleGraph} {state : EvalState} {walk : Walk String} {specifier : String}

theorem follows_start (linked : ModuleGraph) :
    Follows linked { graph := linked, evalOrder := [], evalCounter := 0 } .start where
  modules := fun _ => map_id'.symm
  order := rfl
  counter := rfl
  entryPoint := rfl

theorem follows_meet (follows : Follows linked state walk) :
    Follows linked state (walk.meet specifier) :=
  ⟨follows.modules, follows.order, follows.counter, follows.entryPoint⟩

theorem follows_enter (sound : walk.Sound) (follows : Follows linked state walk)
    (unseen : specifier ∉ walk.opened) (depth : Nat) :
    Follows linked (state.enter specifier depth) (walk.enter specifier) where
  modules := by
    intro other
    refine (state.graph.get?_update specifier other _).trans ?_
    rw [follows.modules, map_map]
    split
    next same =>
      obtain rfl := same
      refine map_congr fun module _ => ?_
      have unclosed : other ∉ walk.closed := fun closed => unseen (sound.subset other closed)
      have entered : other ∈ (walk.enter other).opened := List.mem_append_right _ (.head _)
      rw [Function.comp_apply, markEvaluated, if_neg unclosed, if_neg unseen, markEvaluated]
      exact (if_neg unclosed).trans (if_pos entered) |>.symm
    next apart =>
      refine map_congr fun module _ => ?_
      have openedIff : other ∈ (walk.enter specifier).opened ↔ other ∈ walk.opened := by
        simp [Walk.enter, apart]
      unfold markEvaluated
      simp only [openedIff]
      rfl
  order := follows.order
  counter := follows.counter
  entryPoint := follows.entryPoint

theorem follows_finish (follows : Follows linked state walk) (opened : specifier ∈ walk.opened)
    (unclosed : specifier ∉ walk.closed) :
    Follows linked (state.finish specifier) (walk.leave specifier) where
  modules := by
    intro other
    refine (state.graph.get?_update specifier other _).trans ?_
    rw [follows.modules, map_map, follows.counter]
    split
    next same =>
      obtain rfl := same
      refine map_congr fun module _ => ?_
      have closed : other ∈ (walk.leave other).closed := List.mem_append_right _ (.head _)
      have position : (walk.leave other).closed.idxOf other = walk.closed.length := by
        rw [leave, List.idxOf_append_of_notMem unclosed, List.idxOf_cons_self]
        rfl
      rw [Function.comp_apply, markEvaluated, if_neg unclosed, if_pos opened, markEvaluated,
        if_pos closed, position]
    next apart =>
      refine map_congr fun module _ => ?_
      have closedIff : other ∈ (walk.leave specifier).closed ↔ other ∈ walk.closed := by
        simp [leave, apart]
      by_cases closed : other ∈ walk.closed
      · rw [markEvaluated, if_pos closed, markEvaluated, if_pos (closedIff.mpr closed), leave,
          List.idxOf_append_of_mem closed]
      · rw [markEvaluated, if_neg closed, markEvaluated, if_neg (mt closedIff.mp closed)]
        rfl
  order := congrArg (· ++ [specifier]) follows.order
  counter := by
    rw [leave, List.length_append, ← follows.counter]
    rfl
  entryPoint := follows.entryPoint

end Steps

/-- All that the entry leads to is linked and has the dependencies of the graph
that was linked. -/
def Ready (next : String → List String) (entry : String) (linked : ModuleGraph) : Prop :=
  ∀ specifier, Reaches next entry specifier → ∃ module,
    linked.modules.get? specifier = some module ∧ module.status = .linked ∧
      module.dependencies.keys = next specifier

section Walking

variable {next : String → List String} {entry : String} {linked : ModuleGraph}

theorem exists_evaluateModule (ready : Ready next entry linked) {levels : Nat} {state : EvalState}
    {walk after : Walk String} {specifier : String} (sound : walk.Sound)
    (follows : Follows linked state walk) (reaches : Reaches next entry specifier)
    (visited : visit next levels walk specifier = some after) :
    ∃ finished, evaluateModule levels state specifier = .ok finished ∧
      Follows linked finished after := by
  induction levels generalizing state walk after specifier with
  | zero => cases visited
  | succ levels ih =>
    obtain ⟨module, found, isLinked, dependencies⟩ := ready specifier reaches
    have known : state.graph.modules.get? specifier =
        some (markEvaluated walk specifier module) := by
      rw [follows.modules, found, map_some]
    have outcome := visited_of_visit sound visited
    simp only [evaluateModule, known]
    rw [visit] at visited
    split at visited
    next seen =>
      cases visited
      refine ⟨state, ?_, follows_meet follows⟩
      by_cases closed : specifier ∈ walk.closed
      · rw [markEvaluated, if_pos closed]
      · rw [markEvaluated, if_neg closed, if_pos seen]
    next unseen =>
      have loop : ∀ (targets : List String) (state : EvalState) (walk after : Walk String),
          walk.Sound → Follows linked state walk → (∀ target ∈ targets, target ∈ next specifier) →
          targets.foldlM (visit next levels) walk = some after →
          ∃ finished, targets.foldlM (evaluateModule levels) state = .ok finished ∧
            Follows linked finished after := by
        intro targets
        induction targets with
        | nil =>
          intro state walk after _ follows _ run
          cases run
          exact ⟨state, rfl, follows⟩
        | cons target rest ihRest =>
          intro state walk after sound follows edges run
          obtain ⟨middle, first, last⟩ := bind_eq_some_iff.mp run
          obtain ⟨between, evaluated, followsMiddle⟩ :=
            ih sound follows (reaches.tail (edges target (.head _))) first
          obtain ⟨finished, evaluatedRest, followsAfter⟩ := ihRest between middle after
            (visited_of_visit sound first).sound followsMiddle
            (fun other member => edges other (.tail _ member)) last
          refine ⟨finished, ?_, followsAfter⟩
          rw [List.foldlM_cons, evaluated]
          exact evaluatedRest
      obtain ⟨inner, run, rfl⟩ := map_eq_some_iff.mp visited
      have unclosedBefore : specifier ∉ walk.closed := fun closed =>
        unseen (sound.subset specifier closed)
      have unclosed : specifier ∉ inner.closed := by
        have distinct := outcome.sound.closed
        rw [leave, List.nodup_append_comm] at distinct
        exact (List.nodup_cons.mp distinct).1
      obtain ⟨finished, evaluated, followsInner⟩ := loop (next specifier) _ _ inner
        (sound.enter unseen)
        (follows_enter sound follows unseen (maxModuleDepth - (levels + 1))) (fun _ edge => edge) run
      refine ⟨finished.finish specifier, ?_,
        follows_finish followsInner (outcome.met specifier (.head _)) unclosed⟩
      rw [markEvaluated, if_neg unclosedBefore, if_neg unseen, isLinked, dependencies]
      rw [evaluated]
      rfl

end Walking

namespace ModuleGraph

theorem LinkedBy.ready {graph linked : ModuleGraph} {entry : String} {result : LinkResult}
    {scan : Scan String} (told : LinkedBy graph entry result linked scan) :
    Ready graph.dependenciesOf entry linked := by
  intro specifier reaches
  obtain ⟨module, before, found⟩ := told.get?_of_reaches reaches
  exact ⟨_, found, rfl, (dependenciesOf_eq before).symm⟩

theorem entryPoint_of_link {graph linked : ModuleGraph} {result : LinkResult}
    (accepted : graph.link = .ok (result, linked)) : ∃ entry, graph.entryPoint = some entry := by
  cases isEntry : graph.entryPoint with
  | none =>
    rw [link, isEntry] at accepted
    cases accepted
  | some entry => exact ⟨entry, rfl⟩

/-- After linking, evaluation succeeds. Its order lists what the entry point
leads to, each module once and behind its dependencies unless they lead back to
it, and each module records its position. Evaluating again does nothing. -/
theorem evaluate_of_link {graph linked : ModuleGraph} {result : LinkResult} (fresh : graph.Fresh)
    (accepted : graph.link = .ok (result, linked)) :
    ∃ entry outcome evaluated, graph.entryPoint = some entry ∧
      linked.evaluate = .ok (outcome, evaluated) ∧
      outcome.evalOrder.Nodup ∧
      (∀ specifier, specifier ∈ outcome.evalOrder ↔ Reaches graph.dependenciesOf entry specifier) ∧
      (∀ position specifier, outcome.evalOrder[position]? = some specifier →
        ∃ module, evaluated.modules.get? specifier = some module ∧
          module.evalOrder = some position) ∧
      (∀ front specifier rest, outcome.evalOrder = front ++ specifier :: rest →
        ∀ dependency ∈ graph.dependenciesOf specifier,
          ¬ Reaches graph.dependenciesOf dependency specifier → dependency ∈ front) ∧
      evaluated.evaluate = .ok ({ evalOrder := [], evaluatedCount := 0 }, evaluated) := by
  obtain ⟨entry, isEntry⟩ := entryPoint_of_link accepted
  obtain ⟨scan, told⟩ := linkedBy_of_link fresh isEntry accepted
  obtain ⟨answer, visited⟩ := told.visited
  have walked := Scan.walk_of_visit visited
  obtain ⟨finished, evaluated, follows⟩ := exists_evaluateModule told.ready sound_start
    (follows_start linked) .refl walked
  have sound := (visited_of_visit sound_start walked).sound
  have closedIff : ∀ specifier, specifier ∈ scan.walk.closed ↔
      Reaches graph.dependenciesOf entry specifier := fun specifier =>
    (perm_of_visit walked).mem_iff.trans (mem_opened_iff_reaches walked specifier)
  have evaluatedModule : ∀ specifier ∈ scan.walk.closed, ∃ module,
      finished.graph.modules.get? specifier = some module ∧ module.status = .evaluated ∧
        module.evalOrder = some (scan.walk.closed.idxOf specifier) := by
    intro specifier closed
    obtain ⟨module, -, found⟩ := told.get?_of_reaches ((closedIff specifier).mp closed)
    have marked := follows.modules specifier
    rw [found, Option.map_some, markEvaluated, if_pos closed] at marked
    exact ⟨_, marked, rfl, rfl⟩
  refine ⟨entry, ⟨finished.evalOrder, finished.evalCounter⟩, finished.graph, isEntry, ?_, ?_, ?_, ?_,
    ?_, ?_⟩
  · rw [evaluate, told.entryPoint, isEntry]
    exact congrArg (· >>= _) evaluated
  · rw [follows.order]
    exact sound.closed
  · rw [follows.order]
    exact closedIff
  · intro position specifier listed
    rw [follows.order] at listed
    obtain ⟨within, same⟩ := List.getElem?_eq_some_iff.mp listed
    obtain ⟨module, found, -, order⟩ := evaluatedModule specifier (List.mem_of_getElem? listed)
    refine ⟨module, found, ?_⟩
    rw [order, ← same, sound.closed.idxOf_getElem]
  · intro front specifier rest split dependency edge apart
    rw [follows.order] at split
    rcases settled_of_visit walked front specifier rest split dependency edge with before | ⟨-, back⟩
    · exact before
    · exact absurd back apart
  · obtain ⟨module, found, isEvaluated, -⟩ := evaluatedModule entry ((closedIff entry).mpr .refl)
    rw [evaluate, follows.entryPoint, told.entryPoint, isEntry]
    simp only [maxModuleDepth, evaluateModule, found, isEvaluated]
    rfl

theorem evaluate_ring : ∃ result linked outcome evaluated, ring.link = .ok (result, linked) ∧
    linked.evaluate = .ok (outcome, evaluated) ∧ outcome.evalOrder.Nodup := by
  have fresh : ring.Fresh := fresh_of_values (by decide +kernel)
  have links : ring.link.toOption.isSome := by decide +kernel
  cases accepted : ring.link with
  | error error =>
    rw [accepted] at links
    cases links
  | ok linking =>
    obtain ⟨entry, outcome, evaluated, -, run, distinct, -⟩ := evaluate_of_link fresh accepted
    exact ⟨linking.1, linking.2, outcome, evaluated, rfl, run, distinct⟩

end ModuleGraph

end FrankenEngine.Esm
