import FrankenEngine.Modules.AsyncEvaluation

/-!
# Phases over the declared dependencies

An abstract view of the evaluator: the phase of each registered module and the
declared dependencies. An operation sets the phase of one module, adds a module,
or rejects a module together with those of its dependents that it reaches. Here
is when each of them keeps final phases and lets no clean module depend on a
rejected one.
-/

set_option autoImplicit false

namespace FrankenEngine.Modules

open Relation Option AsyncModulePhase

@[ext] structure PhaseGraph where
  phase : String → Option AsyncModulePhase
  declares : String → String → Prop

namespace PhaseGraph

def DependsOn (graph : PhaseGraph) : String → String → Prop :=
  Relation.TransGen graph.declares

def Clean (graph : PhaseGraph) (specifier : String) : Prop :=
  graph.phase specifier = some .synchronous ∨ graph.phase specifier = some .settled

def Final (before after : PhaseGraph) : Prop :=
  ∀ specifier phase, before.phase specifier = some phase → phase = .settled ∨ phase = .rejected →
    after.phase specifier = some phase

def Infectious (graph : PhaseGraph) : Prop :=
  ∀ specifier dependency, graph.DependsOn specifier dependency →
    graph.phase dependency = some .rejected → ¬ graph.Clean specifier

def Declared (graph : PhaseGraph) : Prop :=
  ∀ specifier dependency, graph.declares specifier dependency → graph.phase specifier ≠ none

variable {graph : PhaseGraph} {specifier dependency : String}

theorem Declared.registered (declared : graph.Declared)
    (depends : graph.DependsOn specifier dependency) : graph.phase specifier ≠ none := by
  cases TransGen.head'_iff.mp depends with
  | intro next edge => exact declared specifier next edge.1

theorem Clean.registered (clean : graph.Clean specifier) : graph.phase specifier ≠ none := by
  cases clean with
  | inl synchronous => simp [synchronous]
  | inr settled => simp [settled]

theorem Final.refl (graph : PhaseGraph) : Final graph graph :=
  fun _ _ found _ => found

def setPhase (graph : PhaseGraph) (specifier : String) (phase : AsyncModulePhase) : PhaseGraph :=
  { graph with phase := Function.update graph.phase specifier (some phase) }

theorem phase_setPhase (phase : AsyncModulePhase) (other : String) :
    (graph.setPhase specifier phase).phase other =
      if other = specifier then some phase else graph.phase other := by
  simp [setPhase, Function.update_apply]

theorem Declared.setPhase (declared : graph.Declared) (phase : AsyncModulePhase) :
    (graph.setPhase specifier phase).Declared := by
  intro other dependency edge
  rw [phase_setPhase]
  split
  · simp
  · exact declared other dependency edge

variable {phase : AsyncModulePhase}

theorem final_setPhase_iff : Final graph (graph.setPhase specifier phase) ↔
      ∀ old, graph.phase specifier = some old → old = .settled ∨ old = .rejected → phase = old := by
  constructor
  · intro final old found isFinal
    have kept := final specifier old found isFinal
    rw [phase_setPhase, if_pos rfl] at kept
    exact some.inj kept
  · intro kept other old found isFinal
    rw [phase_setPhase]
    split
    next same =>
      subst same
      rw [kept old found isFinal]
    next => exact found

theorem setPhase_self (found : graph.phase specifier = some phase) :
    graph.setPhase specifier phase = graph := by
  simp [setPhase, ← found]

theorem registered_of_setPhase {other : String} (registered : graph.phase specifier ≠ none)
    (known : (graph.setPhase specifier phase).phase other ≠ none) : graph.phase other ≠ none := by
  rw [phase_setPhase] at known
  split at known
  next same => exact same ▸ registered
  next => exact known

theorem Infectious.setPhase (infectious : graph.Infectious) (unrejected : phase ≠ .rejected)
    (sound : phase = .synchronous ∨ phase = .settled → ∀ dependency,
      graph.DependsOn specifier dependency → graph.phase dependency ≠ some .rejected) :
    (graph.setPhase specifier phase).Infectious := by
  intro other dependency depends rejected clean
  unfold Clean at clean
  rw [phase_setPhase] at rejected clean
  split at rejected
  · exact unrejected (some.inj rejected)
  · split at clean
    next same =>
      subst same
      rw [some.injEq, some.injEq] at clean
      exact sound clean dependency depends rejected
    next => exact infectious other dependency depends rejected clean

theorem keeps_suspend_iff (infectious : graph.Infectious) (pending : phase.isTerminal = false) :
    (Final graph (graph.setPhase specifier phase) ∧ (graph.setPhase specifier phase).Infectious) ↔
      graph.phase specifier ≠ some .settled ∧ graph.phase specifier ≠ some .rejected := by
  have kept : (graph.setPhase specifier phase).Infectious := by
    apply infectious.setPhase
    · rintro rfl
      cases pending
    · rintro (rfl | rfl) <;> cases pending
  rw [and_iff_left kept, final_setPhase_iff]
  constructor
  · intro kept
    constructor
    · intro settled
      rw [kept _ settled (.inl rfl)] at pending
      cases pending
    · intro rejected
      rw [kept _ rejected (.inr rfl)] at pending
      cases pending
  · rintro ⟨unsettled, unrejected⟩ old found isFinal
    cases isFinal with
    | inl settled => exact absurd (settled ▸ found) unsettled
    | inr rejected => exact absurd (rejected ▸ found) unrejected

theorem keeps_settle_iff (infectious : graph.Infectious) :
    (Final graph (graph.setPhase specifier .settled) ∧
        (graph.setPhase specifier .settled).Infectious) ↔
      graph.phase specifier ≠ some .rejected ∧
        ∀ dependency, graph.DependsOn specifier dependency →
          graph.phase dependency ≠ some .rejected := by
  rw [final_setPhase_iff]
  constructor
  · rintro ⟨kept, after⟩
    have unrejected : graph.phase specifier ≠ some .rejected := by
      intro rejected
      cases kept _ rejected (.inr rfl)
    refine ⟨unrejected, fun dependency depends rejected => ?_⟩
    have different : dependency ≠ specifier := fun same => unrejected (same ▸ rejected)
    refine after specifier dependency depends ?_ (.inr ?_)
    · rw [phase_setPhase, if_neg different, rejected]
    · rw [phase_setPhase, if_pos rfl]
  · rintro ⟨unrejected, sound⟩
    constructor
    · intro old found isFinal
      cases isFinal with
      | inl settled => exact settled.symm
      | inr rejected => exact absurd (rejected ▸ found) unrejected
    · exact infectious.setPhase (by simp) fun _ => sound

def reached (phase : AsyncModulePhase) : AsyncModulePhase :=
  if phase.isTerminal then phase else .rejected

/-- The module is rejected, and so are those of the listed modules that still wait. -/
def infect (graph : PhaseGraph) (specifier : String) (listed : List String) : PhaseGraph :=
  { graph with
    phase := fun other =>
      if other = specifier then some .rejected
      else if other ∈ listed then (graph.phase other).map reached
      else graph.phase other }

variable {listed : List String}

theorem phase_infect_self : (graph.infect specifier listed).phase specifier = some .rejected := by
  simp [infect]

theorem phase_infect {other : String} (different : other ≠ specifier) :
    (graph.infect specifier listed).phase other = graph.phase other ∨
      other ∈ listed ∧ (∃ old, graph.phase other = some old ∧ old.isTerminal = false) ∧
        (graph.infect specifier listed).phase other = some .rejected := by
  simp only [infect, different, if_false]
  split
  next member =>
    cases found : graph.phase other with
    | none => exact .inl rfl
    | some old =>
      cases terminal : old.isTerminal with
      | true => simp [reached, terminal]
      | false => exact .inr ⟨member, ⟨old, rfl, terminal⟩, by simp [reached, terminal]⟩
  next => exact .inl rfl

theorem Declared.infect (declared : graph.Declared) : (graph.infect specifier listed).Declared := by
  intro other dependency edge
  by_cases same : other = specifier
  · subst same
    simp [phase_infect_self]
  · cases phase_infect same with
    | inl kept =>
      rw [kept]
      exact declared other dependency edge
    | inr changed => simp [changed.2.2]

theorem clean_infect_iff {other : String} (different : other ≠ specifier) :
    (graph.infect specifier listed).Clean other ↔ graph.Clean other := by
  unfold Clean
  cases phase_infect different with
  | inl kept => rw [kept]
  | inr changed =>
    obtain ⟨_, ⟨old, found, pending⟩, rejected⟩ := changed
    rw [rejected, found]
    cases old <;> simp_all [isTerminal]

theorem final_infect_iff :
    Final graph (graph.infect specifier listed) ↔ graph.phase specifier ≠ some .settled := by
  constructor
  · intro final settled
    have kept := final specifier .settled settled (.inl rfl)
    rw [phase_infect_self] at kept
    cases kept
  · intro unsettled other old found isFinal
    by_cases same : other = specifier
    · subst same
      cases isFinal with
      | inl settled => exact absurd (settled ▸ found) unsettled
      | inr rejected => rw [phase_infect_self, rejected]
    · cases phase_infect same with
      | inl kept => rw [kept, found]
      | inr changed =>
        obtain ⟨_, ⟨waiting, same, pending⟩, _⟩ := changed
        cases found.symm.trans same
        cases isFinal with
        | inl settled => simp [settled, isTerminal] at pending
        | inr rejected => simp [rejected, isTerminal] at pending

theorem keeps_infect_iff (infectious : graph.Infectious)
    (dependents : ∀ other ∈ listed, graph.DependsOn other specifier) :
    (Final graph (graph.infect specifier listed) ∧ (graph.infect specifier listed).Infectious) ↔
      graph.phase specifier ≠ some .settled ∧
        ∀ other, other ≠ specifier → graph.DependsOn other specifier → ¬ graph.Clean other := by
  rw [final_infect_iff]
  refine and_congr_right fun _ => ?_
  constructor
  · intro after other different depends clean
    exact after other specifier depends phase_infect_self
      ((clean_infect_iff different).mpr clean)
  · intro guarded other dependency depends rejected clean
    have different : other ≠ specifier := by
      intro same
      subst same
      unfold Clean at clean
      simp [phase_infect_self] at clean
    have cleanBefore := (clean_infect_iff different).mp clean
    by_cases same : dependency = specifier
    · exact guarded other different (same ▸ depends) cleanBefore
    · cases phase_infect same with
      | inl kept => exact infectious other dependency depends (kept ▸ rejected) cleanBefore
      | inr changed =>
        exact guarded other different (depends.trans (dependents dependency changed.1))
          cleanBefore

def add (graph : PhaseGraph) (specifier : String) (phase : AsyncModulePhase)
    (dependencies : List String) : PhaseGraph where
  phase := Function.update graph.phase specifier (some phase)
  declares := fun other dependency =>
    if other = specifier then dependency ∈ dependencies else graph.declares other dependency

variable {phase : AsyncModulePhase} {dependencies : List String}

theorem phase_add (other : String) : (graph.add specifier phase dependencies).phase other =
      if other = specifier then some phase else graph.phase other := by
  simp [add, Function.update_apply]

theorem Declared.add (declared : graph.Declared) :
    (graph.add specifier phase dependencies).Declared := by
  intro other dependency edge
  rw [phase_add]
  split
  · simp
  next different =>
    simp only [PhaseGraph.add, different, if_false] at edge
    exact declared other dependency edge

def Infected (graph : PhaseGraph) (dependencies : List String) : Prop :=
  ∃ dependency ∈ dependencies, ∃ culprit, graph.phase culprit = some .rejected ∧
    Relation.ReflTransGen graph.declares dependency culprit

/-- A path with the new module either was there before, or passes the new module and then one of
its dependencies for the last time. -/
theorem dependsOn_add {other culprit : String}
    (depends : (graph.add specifier phase dependencies).DependsOn other culprit) :
    graph.DependsOn other culprit ∨
      (other = specifier ∨ graph.DependsOn other specifier) ∧ ∃ dependency ∈ dependencies,
        ReflTransGen graph.declares dependency culprit := by
  induction depends with
  | @single next edge =>
    by_cases same : other = specifier
    · simp only [add, same, if_true] at edge
      exact .inr ⟨.inl same, next, edge, .refl⟩
    · simp only [add, same, if_false] at edge
      exact .inl (.single edge)
  | @tail middle next _ edge ih =>
    by_cases same : middle = specifier
    · subst same
      simp only [add, if_true] at edge
      cases ih with
      | inl old => exact .inr ⟨.inr old, next, edge, .refl⟩
      | inr through => exact .inr ⟨through.1, next, edge, .refl⟩
    · simp only [add, same, if_false] at edge
      cases ih with
      | inl old => exact .inl (old.tail edge)
      | inr through =>
        obtain ⟨start, dependency, member, rest⟩ := through
        exact .inr ⟨start, dependency, member, rest.tail edge⟩

theorem declares_add (declared : graph.Declared) (fresh : graph.phase specifier = none)
    {other : String} (edge : graph.declares other dependency) :
    (graph.add specifier phase dependencies).declares other dependency := by
  have different : other ≠ specifier := by
    intro same
    exact declared other dependency edge (same ▸ fresh)
  simpa only [add, different, if_false] using edge

/-- What registration gives to a new module: it is rejected with a dependency, and it is clean only
if all its registered dependencies are. -/
structure Enters (graph : PhaseGraph) (phase : AsyncModulePhase) (dependencies : List String) :
    Prop where
  rejected_iff : phase = .rejected ↔
    ∃ dependency ∈ dependencies, graph.phase dependency = some .rejected
  clean : phase = .synchronous ∨ phase = .settled → ∀ dependency ∈ dependencies,
    graph.phase dependency ≠ none → graph.Clean dependency

theorem Enters.not_infected (enters : graph.Enters phase dependencies)
    (infectious : graph.Infectious) (declared : graph.Declared)
    (clean : phase = .synchronous ∨ phase = .settled) : ¬ graph.Infected dependencies := by
  rintro ⟨dependency, member, culprit, rejected, below⟩
  cases reflTransGen_iff_eq_or_transGen.mp below with
  | inl same =>
    have isRejected := enters.rejected_iff.mpr ⟨dependency, member, same ▸ rejected⟩
    simp [isRejected] at clean
  | inr depends =>
    have sound := enters.clean clean dependency member (declared.registered depends)
    exact infectious dependency culprit depends rejected sound

theorem keeps_add_iff (infectious : graph.Infectious) (declared : graph.Declared)
    (fresh : graph.phase specifier = none) (enters : graph.Enters phase dependencies) :
    (Final graph (graph.add specifier phase dependencies) ∧
        (graph.add specifier phase dependencies).Infectious) ↔
      (graph.Infected dependencies →
        ∀ other, graph.DependsOn other specifier → ¬ graph.Clean other) := by
  have final : Final graph (graph.add specifier phase dependencies) := by
    intro other old found _
    have different : other ≠ specifier := by
      intro same
      cases (same ▸ found).symm.trans fresh
    rw [phase_add, if_neg different, found]
  rw [and_iff_right final]
  constructor
  · rintro after ⟨dependency, member, culprit, rejected, below⟩ other depends clean
    have registered := clean.registered
    have different : other ≠ specifier := fun same => registered (same ▸ fresh)
    have culpritOld : culprit ≠ specifier := by
      intro same
      cases (same ▸ rejected).symm.trans fresh
    have entry : (graph.add specifier phase dependencies).declares specifier dependency := by
      simpa [add] using member
    have above : (graph.add specifier phase dependencies).DependsOn other specifier :=
      TransGen.mono (fun _ _ => declares_add declared fresh) _ _ depends
    have rest : ReflTransGen (graph.add specifier phase dependencies).declares
        dependency culprit :=
      ReflTransGen.mono (fun _ _ => declares_add declared fresh) _ _ below
    refine after other culprit (above.trans_left (rest.head entry)) ?_ ?_
    · rw [phase_add, if_neg culpritOld, rejected]
    · unfold Clean
      rw [phase_add, if_neg different]
      exact clean
  · intro guarded other culprit depends rejected clean
    have path := dependsOn_add depends
    unfold Clean at clean
    rw [phase_add] at rejected clean
    by_cases newCulprit : culprit = specifier
    · rw [if_pos newCulprit] at rejected
      cases some.inj rejected
      obtain ⟨dependency, member, isRejected⟩ := enters.rejected_iff.mp rfl
      have infected : graph.Infected dependencies :=
        ⟨dependency, member, dependency, isRejected, .refl⟩
      by_cases same : other = specifier
      · simp [same] at clean
      · rw [if_neg same] at clean
        have above : graph.DependsOn other specifier := by
          cases path with
          | inl old => exact newCulprit ▸ old
          | inr through => exact through.1.resolve_left same
        exact guarded infected other above clean
    · rw [if_neg newCulprit] at rejected
      by_cases same : other = specifier
      · rw [if_pos same, some.injEq, some.injEq] at clean
        cases path with
        | inl old => exact declared.registered old (same ▸ fresh)
        | inr through =>
          obtain ⟨_, dependency, member, below⟩ := through
          exact enters.not_infected infectious declared clean
            ⟨dependency, member, culprit, rejected, below⟩
      · rw [if_neg same] at clean
        cases path with
        | inl old => exact infectious other culprit old rejected clean
        | inr through =>
          obtain ⟨start, dependency, member, below⟩ := through
          exact guarded ⟨dependency, member, culprit, rejected, below⟩ other
            (start.resolve_left same) clean

end PhaseGraph

end FrankenEngine.Modules
