import FrankenEngine.Library.History
import FrankenEngine.Modules.PhaseGraph

/-!
# Rejections of asynchronous modules

Each operation of the evaluator is one of the operations on the phase graph. No
operation looks at the phase it overwrites and registration looks only at the
dependencies registered before, so that a run keeps final phases and infects
every dependent exactly if its callers see to it.
-/

set_option autoImplicit false

namespace FrankenEngine.Modules

open Library Esm Promise PhaseGraph OrderedMap AsyncModuleState List

namespace AsyncModuleEvaluator

def graph (evaluator : AsyncModuleEvaluator) : PhaseGraph where
  phase := fun specifier => (evaluator.states.get? specifier).map AsyncModuleState.phase
  declares := fun specifier dependency => evaluator.declares specifier dependency = true

variable {evaluator : AsyncModuleEvaluator} {specifier : String} {state : AsyncModuleState}

theorem phase_graph_of_get? (found : evaluator.states.get? specifier = some state) :
    evaluator.graph.phase specifier = some state.phase := by
  simp [graph, found]

theorem phase_graph_eq_none_iff :
    evaluator.graph.phase specifier = none ↔ evaluator.states.get? specifier = none := by
  simp [graph]

structure SameView (before after : AsyncModuleEvaluator) : Prop where
  graph : after.graph = before.graph
  config : after.config = before.config

theorem SameView.trans {before middle after : AsyncModuleEvaluator}
    (first : before.SameView middle) (later : middle.SameView after) : before.SameView after :=
  ⟨later.graph.trans first.graph, later.config.trans first.config⟩

theorem sameView_emitEvent (evaluator : AsyncModuleEvaluator) (specifier : String)
    (eventType : AsyncEvalEventType) (detail : String) :
    evaluator.SameView (evaluator.emitEvent specifier eventType detail) :=
  ⟨rfl, rfl⟩

theorem sameView_foldl {α : Type} {change : AsyncModuleEvaluator → α → AsyncModuleEvaluator}
    (each : ∀ held item, SameView held (change held item)) (items : List α)
    (held : AsyncModuleEvaluator) : held.SameView (items.foldl change held) :=
  foldlRecOn items change ⟨rfl, rfl⟩ fun _ same item _ => same.trans (each _ item)

theorem sameView_emitDead (evaluator : AsyncModuleEvaluator) (specifier : String)
    (deadBindings : List BindingId) :
    evaluator.SameView (emitDead specifier evaluator deadBindings) :=
  sameView_foldl (fun held _ => sameView_emitEvent held _ _ _) deadBindings evaluator

theorem sameView_announceDependencies (evaluator : AsyncModuleEvaluator) (specifier : String)
    (registration : Registration) :
    evaluator.SameView (announceDependencies specifier registration evaluator) := by
  unfold announceDependencies
  have waiting := sameView_foldl
    (fun held (dependency : String) => sameView_emitEvent held specifier .dependencySuspended
      ("awaiting=" ++ dependency ++ ":register_time=true"))
    registration.awaitingDependencies evaluator
  split
  · exact waiting
  · exact ⟨waiting.graph, waiting.config⟩

theorem graph_putState (specifier : String) (state : AsyncModuleState) :
    (evaluator.putState specifier state).graph =
      evaluator.graph.setPhase specifier state.phase := by
  ext other
  · simp only [graph, putState, phase_setPhase, get?_insert]
    split <;> rfl
  · rfl

theorem graph_putState_of_phase_eq {changed : AsyncModuleState}
    (found : evaluator.states.get? specifier = some state) (same : changed.phase = state.phase) :
    (evaluator.putState specifier changed).graph = evaluator.graph := by
  rw [graph_putState, same, setPhase_self (phase_graph_of_get? found)]

/-!
## Registration
-/

structure Collected (graph : PhaseGraph) (start : AsyncModulePhase) (seen : List String)
    (registration : Registration) : Prop where
  rejected_iff : registration.rejectedDependency.isSome ↔
    ∃ dependency ∈ seen, graph.phase dependency = some .rejected
  clean : registration.state.allDependenciesSettled = true → ∀ dependency ∈ seen,
    graph.phase dependency ≠ none → graph.Clean dependency
  phase : registration.state.phase = start ∨
    start = .suspended ∧ registration.state.phase = .awaitingDependencies

theorem allDependenciesSettled_addPendingDependency (state : AsyncModuleState)
    (dependency : String) :
    (state.addPendingDependency dependency).allDependenciesSettled = false := by
  have found : (state.pendingDependencies.insert dependency ()).get? dependency = some () := by
    rw [get?_insert, if_pos rfl]
  unfold allDependenciesSettled addPendingDependency
  cases entries : (state.pendingDependencies.insert dependency ()).entries with
  | nil => simp [get?, entries] at found
  | cons => rfl

variable {start : AsyncModulePhase} {seen : List String} {registration : Registration}

variable (collected : Collected evaluator.graph start seen registration)

include collected

theorem Collected.phase_addPending (dependency : String) :
    (registration.state.addPendingDependency dependency).phase = start ∨
      start = .suspended ∧
        (registration.state.addPendingDependency dependency).phase = .awaitingDependencies := by
  unfold addPendingDependency
  cases collected.phase with
  | inl kept =>
    by_cases suspended : start = .suspended
    · exact .inr ⟨suspended, by simp [kept, suspended]⟩
    · exact .inl (by simp [kept, suspended])
  | inr waits => exact .inr ⟨waits.1, by simp [waits.2]⟩

theorem Collected.pass {dependency : String}
    (sound : evaluator.graph.phase dependency ≠ some .rejected)
    (clean : evaluator.graph.phase dependency ≠ none → evaluator.graph.Clean dependency) :
    Collected evaluator.graph start (seen ++ [dependency]) registration := by
  refine ⟨?_, ?_, collected.phase⟩
  · simpa [or_and_right, exists_or, sound] using collected.rejected_iff
  · intro settled other member registered
    cases mem_append.mp member with
    | inl earlier => exact collected.clean settled other earlier registered
    | inr last =>
      rw [mem_singleton.mp last] at registered ⊢
      exact clean registered

theorem Collected.addDependency (dependency : String) :
    Collected evaluator.graph start (seen ++ [dependency])
      (registration.addDependency evaluator.states dependency) := by
  have unsettled := allDependenciesSettled_addPendingDependency registration.state dependency
  unfold Registration.addDependency
  cases found : evaluator.states.get? dependency with
  | none =>
    have unknown := phase_graph_eq_none_iff.mpr found
    exact collected.pass (by simp [unknown]) (absurd unknown)
  | some dependencyState =>
    have phase := phase_graph_of_get? found
    by_cases rejected : dependencyState.phase = .rejected
    · simp only [rejected, if_true]
      refine ⟨?_, ?_, collected.phase_addPending dependency⟩
      · refine iff_of_true (by simp) ⟨dependency, by simp, ?_⟩
        rw [phase, rejected]
      · intro settled
        exact absurd settled (by simp [unsettled])
    · simp only [rejected, if_false]
      have sound : evaluator.graph.phase dependency ≠ some .rejected := by
        simp [phase, rejected]
      cases terminal : dependencyState.phase.isTerminal with
      | true =>
        refine collected.pass sound fun _ => ?_
        unfold Clean
        rw [phase]
        cases isPhase : dependencyState.phase <;> simp_all [AsyncModulePhase.isTerminal]
      | false =>
        refine ⟨?_, ?_, collected.phase_addPending dependency⟩
        · simpa [or_and_right, exists_or, sound] using collected.rejected_iff
        · intro settled
          exact absurd settled (by simp [unsettled])

theorem Collected.foldl (dependencies : List String) :
    Collected evaluator.graph start (seen ++ dependencies)
      (dependencies.foldl (Registration.addDependency evaluator.states) registration) := by
  induction dependencies generalizing seen registration with
  | nil => simpa using collected
  | cons dependency rest ih =>
    rw [foldl_cons, ← singleton_append, ← append_assoc]
    exact ih (collected.addDependency dependency)

omit collected

def entryPhase (evaluator : AsyncModuleEvaluator) (specifier : String) (hasTopLevelAwait : Bool)
    (dependencies : List String) (evaluationPromise : Option PromiseHandle) : AsyncModulePhase :=
  ((dependencies.foldl (Registration.addDependency evaluator.states)
    { state := startState specifier hasTopLevelAwait evaluationPromise }).finish
      hasTopLevelAwait).phase

theorem enters_entryPhase (specifier : String) (hasTopLevelAwait : Bool)
    (dependencies : List String) (evaluationPromise : Option PromiseHandle) : evaluator.graph.Enters
      (evaluator.entryPhase specifier hasTopLevelAwait dependencies evaluationPromise)
      dependencies := by
  have initial : Collected evaluator.graph
      (startState specifier hasTopLevelAwait evaluationPromise).phase []
      { state := startState specifier hasTopLevelAwait evaluationPromise } :=
    ⟨by simp, by simp, .inl rfl⟩
  have collected := initial.foldl dependencies
  unfold entryPhase
  generalize dependencies.foldl (Registration.addDependency evaluator.states) _ = registration
    at collected
  have startPhase : (startState specifier hasTopLevelAwait evaluationPromise).phase =
      if hasTopLevelAwait then .suspended else .synchronous := by
    cases hasTopLevelAwait <;> rfl
  have phases := collected.phase
  unfold Registration.finish
  cases culprit : registration.rejectedDependency with
  | some culprit =>
    refine ⟨iff_of_true rfl (collected.rejected_iff.mp (by simp [culprit])), ?_⟩
    simp [reject]
  | none =>
    have sound := collected.rejected_iff
    simp only [culprit, Option.isSome_none, Bool.false_eq_true, false_iff] at sound
    have clean := collected.clean
    cases hasTopLevelAwait with
    | true =>
      refine ⟨iff_of_false ?_ sound, ?_⟩ <;>
        obtain kept | ⟨_, waits⟩ := phases <;> simp_all
    | false =>
      cases settled : registration.state.allDependenciesSettled with
      | false => exact ⟨iff_of_false (by simp) sound, by simp⟩
      | true =>
        refine ⟨iff_of_false ?_ sound, fun _ => clean settled⟩
        obtain kept | ⟨impossible, _⟩ := phases <;> simp_all

theorem graph_registerModule (specifier : String) (hasTopLevelAwait : Bool)
    (dependencies : List String) (evaluationPromise : Option PromiseHandle) :
    (evaluator.registerModule specifier hasTopLevelAwait dependencies evaluationPromise).graph =
      evaluator.graph.add specifier
        (evaluator.entryPhase specifier hasTopLevelAwait dependencies evaluationPromise)
        dependencies := by
  unfold registerModule
  rw [(sameView_announceDependencies _ _ _).graph, (sameView_emitEvent _ _ _ _).graph,
    graph_putState]
  refine PhaseGraph.ext rfl (funext fun other => funext fun dependency => propext ?_)
  simp only [PhaseGraph.setPhase, graph, declares, PhaseGraph.add, get?_insert]
  split
  · rw [Option.any_some, ← mem_keys_iff, mem_keys_ofKeys]
  · rfl

/-!
## Settlement
-/

theorem sameView_notifyModule (settledModule : String)
    (notified : AsyncModuleEvaluator × List String) (specifier : String) :
    notified.1.SameView (notifyModule settledModule notified specifier).1 := by
  unfold notifyModule
  cases found : notified.1.states.get? specifier with
  | none => exact ⟨rfl, rfl⟩
  | some state => exact ⟨graph_putState_of_phase_eq found rfl, rfl⟩

theorem sameView_notifyDependencySettled (evaluator : AsyncModuleEvaluator)
    (settledModule : String) :
    evaluator.SameView (evaluator.notifyDependencySettled settledModule).1 :=
  foldlRecOn (motive := fun notified : AsyncModuleEvaluator × List String =>
      evaluator.SameView notified.1) _ _ ⟨rfl, rfl⟩
    fun notified same specifier _ => same.trans (sameView_notifyModule settledModule notified specifier)

theorem graph_settleModule (found : evaluator.states.get? specifier = some state) :
    (evaluator.settleModule specifier).1.graph = evaluator.graph.setPhase specifier .settled := by
  simp only [settleModule, found]
  rw [(sameView_notifyDependencySettled _ _).graph, (sameView_emitEvent _ _ _ _).graph,
    graph_putState]
  rfl

/-!
## Rejection
-/

theorem dependsOn_of_mem_rejectionTargets {rejectedModule : String}
    (member : specifier ∈ (evaluator.rejectionTargets rejectedModule).keys) :
    evaluator.graph.DependsOn specifier rejectedModule := by
  unfold rejectionTargets at member
  split at member
  · have leads := Worklist.leads_of_mem_leadingTo (mem_keys_ofKeys.mp member)
    exact Relation.TransGen.mono (fun _ _ edge => edge.2) _ _ leads
  · rw [mem_keys_ofKeys] at member
    simp only [findLinkedModules, map_map, mem_map, mem_filter, Bool.and_eq_true,
      Function.comp_apply] at member
    obtain ⟨_, ⟨_, _, declares⟩, rfl⟩ := member
    exact .single declares

theorem mem_rejectionTargets {rejectedModule : String} (declared : evaluator.graph.Declared)
    (transitive : evaluator.config.transitiveRejectionPropagation = true)
    (different : specifier ≠ rejectedModule)
    (depends : evaluator.graph.DependsOn specifier rejectedModule) :
    specifier ∈ (evaluator.rejectionTargets rejectedModule).keys := by
  rw [rejectionTargets, if_pos transitive, computeRejectionTransitiveClosure,
    mem_keys_ofKeys, Worklist.mem_leadingTo_iff different]
  refine Relation.TransGen.mono (fun key target edge => ⟨?_, edge⟩) _ _ depends
  have registered := declared key target edge
  rw [mem_keys_iff, Option.isSome_iff_ne_none]
  exact fun missing => registered (phase_graph_eq_none_iff.mpr missing)

/-- The graph when a rejection has gone through the listed modules. -/
def spread (graph : PhaseGraph) (listed : List String) : PhaseGraph :=
  { graph with
    phase := fun other =>
      if other ∈ listed then (graph.phase other).map reached else graph.phase other }

theorem spread_cons (graph : PhaseGraph) (specifier : String) (rest : List String) :
    spread (spread graph [specifier]) rest = spread graph (specifier :: rest) := by
  have twice : ∀ phase, reached (reached phase) =
      reached phase := by
    intro phase
    cases phase <;> rfl
  refine PhaseGraph.ext (funext fun other => ?_) rfl
  by_cases same : other = specifier
  · by_cases later : specifier ∈ rest
    · simp [spread, same, later, Function.comp_def, twice]
    · simp [spread, same, later]
  · simp [spread, same]

theorem spread_of_none {graph : PhaseGraph} (missing : graph.phase specifier = none) :
    spread graph [specifier] = graph := by
  refine PhaseGraph.ext (funext fun other => ?_) rfl
  by_cases same : other = specifier <;> simp [spread, same, missing]

theorem spread_of_some {graph : PhaseGraph} {phase : AsyncModulePhase}
    (found : graph.phase specifier = some phase) :
    spread graph [specifier] = graph.setPhase specifier (reached phase) := by
  refine PhaseGraph.ext (funext fun other => ?_) rfl
  by_cases same : other = specifier <;> simp [spread, phase_setPhase, same, found]

theorem propagateTo_view (rejectedModule reasonHash : String) (reasonDescription : Option String)
    (held : AsyncModuleEvaluator × LiveBindingMap) (specifier : String) :
    (propagateTo rejectedModule reasonHash reasonDescription held specifier).1.graph =
        spread held.1.graph [specifier] ∧
      (propagateTo rejectedModule reasonHash reasonDescription held specifier).1.config =
        held.1.config := by
  unfold propagateTo
  cases found : held.1.states.get? specifier with
  | none =>
    rw [spread_of_none (phase_graph_eq_none_iff.mpr found)]
    exact ⟨rfl, rfl⟩
  | some state =>
    have phase := phase_graph_of_get? found
    rw [spread_of_some phase]
    cases terminal : state.phase.isTerminal with
    | true =>
      simp only [terminal, if_true, reached]
      rw [setPhase_self phase]
      exact ⟨rfl, rfl⟩
    | false =>
      simp only [terminal, Bool.false_eq_true, if_false, reached]
      have silent := sameView_emitDead
        (held.1.putState specifier (state.reject reasonHash reasonDescription)) specifier
        (markBindingsDead specifier held.2).2
      refine ⟨?_, silent.config⟩
      rw [(sameView_emitEvent _ _ _ _).graph, silent.graph, graph_putState]
      rfl

theorem propagate_view (rejectedModule reasonHash : String) (reasonDescription : Option String)
    (listed : List String) (held : AsyncModuleEvaluator × LiveBindingMap) :
    (listed.foldl (propagateTo rejectedModule reasonHash reasonDescription) held).1.graph =
        spread held.1.graph listed ∧
      (listed.foldl (propagateTo rejectedModule reasonHash reasonDescription) held).1.config =
        held.1.config := by
  induction listed generalizing held with
  | nil => exact ⟨by simp [spread], rfl⟩
  | cons specifier rest ih =>
    have first := propagateTo_view rejectedModule reasonHash reasonDescription held specifier
    have later := ih (propagateTo rejectedModule reasonHash reasonDescription held specifier)
    rw [foldl_cons]
    exact ⟨by rw [later.1, first.1, spread_cons], later.2.trans first.2⟩

theorem spread_setPhase_rejected (graph : PhaseGraph) (specifier : String)
    (listed : List String) :
    spread (graph.setPhase specifier .rejected) listed = graph.infect specifier listed := by
  refine PhaseGraph.ext (funext fun other => ?_) rfl
  by_cases same : other = specifier
  · simp [spread, infect, phase_setPhase, same, reached,
      AsyncModulePhase.isTerminal]
  · simp [spread, infect, phase_setPhase, same]

/-- What a rejection does: it infects dependents only, and with transitive propagation all of
them. -/
structure Rejects (before after : AsyncModuleEvaluator) (specifier : String)
    (listed : List String) : Prop where
  graph : after.graph = before.graph.infect specifier listed
  config : after.config = before.config
  dependents : ∀ other ∈ listed, before.graph.DependsOn other specifier
  all : before.config.transitiveRejectionPropagation = true → before.graph.Declared →
    ∀ other, other ≠ specifier → before.graph.DependsOn other specifier → other ∈ listed

variable (tiers : HashTiers)

theorem exists_rejects_rejectModule (reasonText : String) (liveBindings : LiveBindingMap)
    (found : evaluator.states.get? specifier = some state) : ∃ listed, evaluator.Rejects
      (evaluator.rejectModule tiers specifier reasonText liveBindings).1.1 specifier listed := by
  simp only [rejectModule, found]
  generalize Authority.toHex (tiers.contentHash (utf8 reasonText)) = reasonHash
  have silent := sameView_emitDead ((evaluator.putState specifier
    (state.reject reasonHash (some reasonText))).emitEvent specifier .evaluationRejected
      ("reason_hash=" ++ hashPrefix reasonHash)) specifier (markBindingsDead specifier liveBindings).2
  generalize emitDead specifier _ (markBindingsDead specifier liveBindings).2 = announced
    at silent ⊢
  have config : announced.config = evaluator.config := silent.config
  have rejected : announced.graph = evaluator.graph.setPhase specifier .rejected := by
    rw [silent.graph, (sameView_emitEvent _ _ _ _).graph, graph_putState]
    rfl
  have paths : announced.graph.DependsOn = evaluator.graph.DependsOn := by
    rw [rejected]
    rfl
  have spreads := propagate_view specifier reasonHash (some reasonText)
    (announced.rejectionTargets specifier).keys
    (announced, (markBindingsDead specifier liveBindings).1)
  refine ⟨(announced.rejectionTargets specifier).keys, ?_, spreads.2.trans config, ?_, ?_⟩
  · rw [← spread_setPhase_rejected, ← rejected]
    exact spreads.1
  · intro other member
    rw [← paths]
    exact dependsOn_of_mem_rejectionTargets member
  · intro transitive declared other different depends
    refine mem_rejectionTargets ?_ (config ▸ transitive) different (paths ▸ depends)
    rw [rejected]
    exact declared.setPhase _

/-!
## Runs
-/

inductive AsyncCall where
  | registerModule (specifier : String) (hasTopLevelAwait : Bool) (dependencies : List String)
      (evaluationPromise : Option PromiseHandle)
  | suspendAtTopLevelAwait (specifier : String) (awaitingPromise : PromiseHandle)
  | suspendOnDependency (specifier dependency : String) (awaitingPromise : PromiseHandle)
  | resumeEvaluation (specifier : String)
  | settleModule (specifier : String)
  | rejectModule (specifier reasonText : String) (liveBindings : LiveBindingMap)

def AsyncCall.registered : AsyncCall → Option String
  | .registerModule specifier _ _ _ => some specifier
  | _ => none

def perform (tiers : HashTiers) (evaluator : AsyncModuleEvaluator) :
    AsyncCall → AsyncModuleEvaluator × Except AsyncEvalError Unit
  | .registerModule specifier hasTopLevelAwait dependencies evaluationPromise =>
    (evaluator.registerModule specifier hasTopLevelAwait dependencies evaluationPromise, .ok ())
  | .suspendAtTopLevelAwait specifier awaitingPromise =>
    evaluator.suspendAtTopLevelAwait specifier awaitingPromise
  | .suspendOnDependency specifier dependency awaitingPromise =>
    evaluator.suspendOnDependency specifier dependency awaitingPromise
  | .resumeEvaluation specifier => evaluator.resumeEvaluation specifier
  | .settleModule specifier =>
    let (after, outcome) := evaluator.settleModule specifier
    (after, outcome.map fun _ => ())
  | .rejectModule specifier reasonText liveBindings =>
    let ((after, _), outcome) := evaluator.rejectModule tiers specifier reasonText liveBindings
    (after, outcome.map fun _ => ())

/-- What the callers have to see to: no suspension or settlement of a closed module, no settlement
over a rejected module, and no rejection, not even of a dependency that is not registered yet,
below a clean module. -/
def Admissible (evaluator : AsyncModuleEvaluator) : AsyncCall → Prop
  | .registerModule specifier _ dependencies _ =>
    evaluator.graph.Infected dependencies →
      ∀ other, evaluator.graph.DependsOn other specifier → ¬ evaluator.graph.Clean other
  | .suspendAtTopLevelAwait specifier _ =>
    ∀ state, evaluator.states.get? specifier = some state →
      UInt64.ofNat state.suspensions.length < evaluator.config.maxSuspensionsPerModule →
      state.phase ≠ .settled ∧ state.phase ≠ .rejected
  | .suspendOnDependency specifier _ _ =>
    evaluator.graph.phase specifier ≠ some .settled ∧
      evaluator.graph.phase specifier ≠ some .rejected
  | .resumeEvaluation _ => True
  | .settleModule specifier =>
    evaluator.graph.phase specifier ≠ some .rejected ∧
      ∀ dependency, evaluator.graph.DependsOn specifier dependency →
        evaluator.graph.phase dependency ≠ some .rejected
  | .rejectModule specifier _ _ =>
    evaluator.graph.phase specifier ≠ none →
      evaluator.graph.phase specifier ≠ some .settled ∧
        ∀ other, other ≠ specifier → evaluator.graph.DependsOn other specifier →
          ¬ evaluator.graph.Clean other

/-- What a call can do to the graph. -/
inductive Effect (evaluator : AsyncModuleEvaluator) : AsyncCall → PhaseGraph → Prop where
  | nothing {call : AsyncCall}
      (admissible : evaluator.graph.Declared → evaluator.Admissible call) :
      Effect evaluator call evaluator.graph
  | suspend {call : AsyncCall} (specifier : String) (phase : AsyncModulePhase)
      (registered : evaluator.graph.phase specifier ≠ none) (pending : phase.isTerminal = false)
      (admissible_iff : evaluator.Admissible call ↔
        evaluator.graph.phase specifier ≠ some .settled ∧
          evaluator.graph.phase specifier ≠ some .rejected) :
      Effect evaluator call (evaluator.graph.setPhase specifier phase)
  | settle (specifier : String) (registered : evaluator.graph.phase specifier ≠ none) :
      Effect evaluator (.settleModule specifier) (evaluator.graph.setPhase specifier .settled)
  | reject {specifier reasonText : String} {liveBindings : LiveBindingMap} (listed : List String)
      (registered : evaluator.graph.phase specifier ≠ none)
      (dependents : ∀ other ∈ listed, evaluator.graph.DependsOn other specifier) :
      Effect evaluator (.rejectModule specifier reasonText liveBindings)
        (evaluator.graph.infect specifier listed)
  | register {specifier : String} {hasTopLevelAwait : Bool} {dependencies : List String}
      {evaluationPromise : Option PromiseHandle} (phase : AsyncModulePhase)
      (enters : evaluator.graph.Enters phase dependencies) :
      Effect evaluator
        (.registerModule specifier hasTopLevelAwait dependencies evaluationPromise)
        (evaluator.graph.add specifier phase dependencies)

theorem effect_perform (evaluator : AsyncModuleEvaluator) (call : AsyncCall) :
    evaluator.Effect call (evaluator.perform tiers call).1.graph := by
  cases call with
  | registerModule specifier hasTopLevelAwait dependencies evaluationPromise =>
    simp only [perform, graph_registerModule]
    exact .register _ (enters_entryPhase _ _ _ _)
  | suspendAtTopLevelAwait specifier awaitingPromise =>
    simp only [perform, suspendAtTopLevelAwait]
    cases found : evaluator.states.get? specifier with
    | none =>
      refine .nothing fun _ state same => ?_
      cases found.symm.trans same
    | some state =>
      have phase := phase_graph_of_get? found
      by_cases full : evaluator.config.maxSuspensionsPerModule ≤
          UInt64.ofNat state.suspensions.length
      · simp only [full, if_true]
        refine .nothing fun _ other same room => ?_
        cases found.symm.trans same
        exact absurd full (UInt64.not_le.mpr room)
      · simp only [full, if_false, (sameView_emitEvent _ _ _ _).graph, graph_putState]
        refine .suspend specifier _ (by simp [phase]) rfl ?_
        simp [Admissible, found, phase, UInt64.not_le.mp full]
  | suspendOnDependency specifier dependency awaitingPromise =>
    simp only [perform, suspendOnDependency]
    cases found : evaluator.states.get? specifier with
    | none =>
      have missing := phase_graph_eq_none_iff.mpr found
      exact .nothing fun _ => by simp [Admissible, missing]
    | some state =>
      have phase := phase_graph_of_get? found
      simp only [(sameView_emitEvent _ _ _ _).graph, graph_putState]
      exact .suspend specifier _ (by simp [phase]) rfl Iff.rfl
  | resumeEvaluation specifier =>
    simp only [perform, resumeEvaluation]
    cases found : evaluator.states.get? specifier with
    | none => exact .nothing fun _ => trivial
    | some state =>
      simp only [(sameView_emitEvent _ _ _ _).graph]
      have same : state.recordResumption.phase = state.phase := rfl
      rw [graph_putState_of_phase_eq found same]
      exact .nothing fun _ => trivial
  | settleModule specifier =>
    simp only [perform]
    cases found : evaluator.states.get? specifier with
    | none =>
      have missing := phase_graph_eq_none_iff.mpr found
      simp only [settleModule, found]
      refine .nothing fun declared => ⟨by simp [missing], ?_⟩
      exact fun dependency depends => absurd missing (declared.registered depends)
    | some state =>
      rw [graph_settleModule found]
      exact .settle specifier (by simp [phase_graph_of_get? found])
  | rejectModule specifier reasonText liveBindings =>
    simp only [perform]
    cases found : evaluator.states.get? specifier with
    | none =>
      simp only [rejectModule, found]
      exact .nothing fun _ registered =>
        absurd (phase_graph_eq_none_iff.mpr found) registered
    | some state =>
      obtain ⟨listed, rejects⟩ :=
        exists_rejects_rejectModule tiers reasonText liveBindings found
      rw [rejects.graph]
      exact .reject listed (by simp [phase_graph_of_get? found]) rejects.dependents

section Effects

variable {call : AsyncCall} {after : PhaseGraph} (effect : evaluator.Effect call after)

include effect

theorem Effect.keeps_iff (infectious : evaluator.graph.Infectious)
    (declared : evaluator.graph.Declared)
    (fresh : ∀ specifier, call.registered = some specifier → evaluator.graph.phase specifier = none) :
    (evaluator.graph.Final after ∧ after.Infectious) ↔ evaluator.Admissible call := by
  cases effect with
  | nothing admissible =>
    exact iff_of_true ⟨.refl _, infectious⟩ (admissible declared)
  | suspend specifier phase registered pending admissible_iff =>
    rw [admissible_iff]
    exact keeps_suspend_iff infectious pending
  | settle specifier registered => exact keeps_settle_iff infectious
  | reject listed registered dependents =>
    rw [keeps_infect_iff infectious dependents]
    exact ⟨fun guarded _ => guarded, fun guarded => guarded registered⟩
  | register phase enters =>
    exact keeps_add_iff infectious declared (fresh _ rfl) enters

theorem Effect.declared (declared : evaluator.graph.Declared) : after.Declared := by
  cases effect with
  | nothing admissible => exact declared
  | suspend specifier phase registered pending admissible_iff => exact declared.setPhase phase
  | settle specifier registered => exact declared.setPhase .settled
  | reject listed registered dependents => exact declared.infect
  | register phase enters => exact declared.add

theorem Effect.registered (known : after.phase specifier ≠ none) :
    evaluator.graph.phase specifier ≠ none ∨ call.registered = some specifier := by
  cases effect with
  | nothing admissible => exact .inl known
  | suspend other phase registered pending admissible_iff =>
    exact .inl (registered_of_setPhase registered known)
  | settle other registered => exact .inl (registered_of_setPhase registered known)
  | @reject other reasonText liveBindings listed registered dependents =>
    by_cases same : specifier = other
    · exact .inl (same ▸ registered)
    · cases phase_infect same with
      | inl kept => exact .inl (kept ▸ known)
      | inr changed =>
        obtain ⟨_, ⟨old, found, _⟩, _⟩ := changed
        exact .inl (by simp [found])
  | @register other hasTopLevelAwait dependencies evaluationPromise phase enters =>
    by_cases same : specifier = other
    · exact .inr (congrArg some same.symm)
    · rw [phase_add, if_neg same] at known
      exact .inl known

end Effects

theorem config_perform (evaluator : AsyncModuleEvaluator) (call : AsyncCall) :
    (evaluator.perform tiers call).1.config = evaluator.config := by
  cases call with
  | registerModule specifier hasTopLevelAwait dependencies evaluationPromise =>
    exact (sameView_announceDependencies _ _ _).config
  | suspendAtTopLevelAwait specifier awaitingPromise =>
    simp only [perform, suspendAtTopLevelAwait]
    split
    · rfl
    · split <;> rfl
  | suspendOnDependency specifier dependency awaitingPromise =>
    simp only [perform, suspendOnDependency]
    split <;> rfl
  | resumeEvaluation specifier =>
    simp only [perform, resumeEvaluation]
    split <;> rfl
  | settleModule specifier =>
    simp only [perform, settleModule]
    split
    · rfl
    · exact (sameView_notifyDependencySettled _ _).config
  | rejectModule specifier reasonText liveBindings =>
    cases found : evaluator.states.get? specifier with
    | none => simp only [perform, rejectModule, found]
    | some state =>
      obtain ⟨listed, rejects⟩ :=
        exists_rejects_rejectModule tiers reasonText liveBindings found
      exact rejects.config

theorem declared_new (config : AsyncEvalConfig) : (new config).graph.Declared := by
  intro specifier dependency declares
  cases declares

theorem infectious_new (config : AsyncEvalConfig) : (new config).graph.Infectious := by
  intro specifier dependency _ rejected
  cases rejected

theorem phase_rejectModule_of_dependsOn {tiers : HashTiers} {reasonText other : String}
    {liveBindings : LiveBindingMap} {phase : AsyncModulePhase}
    (declared : evaluator.graph.Declared)
    (transitive : evaluator.config.transitiveRejectionPropagation = true)
    (succeeds : (evaluator.perform tiers (.rejectModule specifier reasonText liveBindings)).2 =
      .ok ())
    (depends : evaluator.graph.DependsOn other specifier)
    (waits : evaluator.graph.phase other = some phase) (pending : phase.isTerminal = false) :
    (evaluator.perform tiers (.rejectModule specifier reasonText liveBindings)).1.graph.phase
      other = some .rejected := by
  cases found : evaluator.states.get? specifier with
  | none =>
    simp only [perform, rejectModule, found] at succeeds
    cases succeeds
  | some state =>
    obtain ⟨listed, rejects⟩ := exists_rejects_rejectModule tiers reasonText liveBindings found
    rw [show (evaluator.perform tiers (.rejectModule specifier reasonText liveBindings)).1 =
      (evaluator.rejectModule tiers specifier reasonText liveBindings).1.1 from rfl, rejects.graph]
    by_cases same : other = specifier
    · rw [same]
      exact phase_infect_self
    · have member := rejects.all transitive declared other same depends
      simp [infect, same, member, waits, reached, pending]

/-- Over every run that registers no module twice, final phases stay and no clean module depends
on a rejected one exactly if every call is admissible; and every rejection that succeeds rejects
the dependents that still wait. -/
theorem run_final_infectious_iff (tiers : HashTiers) (config : AsyncEvalConfig)
    (transitive : config.transitiveRejectionPropagation = true) (calls : List AsyncCall)
    (once : (calls.filterMap AsyncCall.registered).Nodup) :
    ((∀ entry ∈ history (perform tiers) (new config) calls,
        entry.before.graph.Final entry.after.graph ∧ entry.after.graph.Infectious) ↔
      ∀ entry ∈ history (perform tiers) (new config) calls, entry.before.Admissible entry.call) ∧
    ∀ entry ∈ history (perform tiers) (new config) calls, ∀ specifier reasonText liveBindings,
      entry.call = .rejectModule specifier reasonText liveBindings → entry.outcome = .ok () →
      ∀ other phase, entry.before.graph.DependsOn other specifier →
        entry.before.graph.phase other = some phase → phase.isTerminal = false →
        entry.after.graph.phase other = some .rejected := by
  constructor
  · have fresh : ∀ entry ∈ history (perform tiers) (new config) calls, ∀ specifier,
        entry.call.registered = some specifier → ¬ entry.before.graph.phase specifier ≠ none :=
      history_fresh AsyncCall.registered
        (fun evaluator specifier => evaluator.graph.phase specifier ≠ none)
        (fun state call _ known => (effect_perform tiers state call).registered known)
        calls once fun _ _ known => known rfl
    refine history_forall_iff
      (fun evaluator => evaluator.graph.Declared ∧ evaluator.graph.Infectious)
      (fun entry => ∀ specifier, entry.call.registered = some specifier →
        entry.before.graph.phase specifier = none) ?_ ?_
      ⟨declared_new config, infectious_new config⟩ calls ?_
    · intro state call invariant fresh
      exact (effect_perform tiers state call).keeps_iff invariant.2 invariant.1 fresh
    · intro state call invariant _ safe
      exact ⟨(effect_perform tiers state call).declared invariant.1, safe.2⟩
    · intro entry member specifier registers
      exact not_not.mp (fresh entry member specifier registers)
  · intro entry member specifier reasonText liveBindings called succeeds other phase depends waits
      pending
    have kept : ∀ (state : AsyncModuleEvaluator) (call : AsyncCall),
        state.graph.Declared ∧ state.config = config →
        (state.perform tiers call).1.graph.Declared ∧
          (state.perform tiers call).1.config = config := by
      intro state call invariant
      exact ⟨(effect_perform tiers state call).declared invariant.1,
        (config_perform tiers state call).trans invariant.2⟩
    obtain ⟨declared, unchanged⟩ :=
      history_invariant kept ⟨declared_new config, rfl⟩ calls entry member
    have recorded := (mem_history member).2
    rw [called] at recorded
    rw [recorded] at succeeds ⊢
    exact phase_rejectModule_of_dependsOn declared (unchanged ▸ transitive) succeeds depends waits
      pending

theorem run_final_infectious_pair :
    let calls : List AsyncCall := [.registerModule "a" true [] none,
      .registerModule "m" false ["a"] none, .rejectModule "a" "E" {}]
    let entries := history (perform Authority.Hashes.polynomial.toHashTiers) (new {}) calls
    (calls.filterMap AsyncCall.registered).Nodup ∧
      ((∀ entry ∈ entries,
          entry.before.graph.Final entry.after.graph ∧ entry.after.graph.Infectious) ↔
        ∀ entry ∈ entries, entry.before.Admissible entry.call) ∧
      (entries.map fun entry => entry.after.graph.phase "m") =
        [none, some .awaitingDependencies, some .rejected] :=
  ⟨by decide, (run_final_infectious_iff _ {} rfl _ (by decide)).1, by decide +kernel⟩

/-- A settlement revives a rejected module. A module that was registered before its dependency
stays synchronous when the dependency is rejected. -/
theorem run_revives_and_overlooks :
    let tiers := Authority.Hashes.polynomial.toHashTiers
    let revived : List AsyncCall := [.registerModule "a" true [] none, .rejectModule "a" "E" {},
      .settleModule "a"]
    let overlooked : List AsyncCall := [.registerModule "m" false ["a"] none,
      .registerModule "a" true [] none, .rejectModule "a" "E" {}]
    (∃ entry ∈ history (perform tiers) (new {}) revived,
        entry.before.graph.phase "a" = some .rejected ∧
          entry.after.graph.phase "a" = some .settled) ∧
      ∃ entry ∈ history (perform tiers) (new {}) overlooked,
        entry.after.graph.DependsOn "m" "a" ∧ entry.after.graph.phase "a" = some .rejected ∧
          entry.after.graph.phase "m" = some .synchronous := by
  refine ⟨⟨_, .tail _ (.tail _ (.head _)), ?_⟩, _, .tail _ (.tail _ (.head _)), .single ?_, ?_⟩
  · decide +kernel
  · show declares _ "m" "a" = true
    decide +kernel
  · decide +kernel

end AsyncModuleEvaluator

end FrankenEngine.Modules
