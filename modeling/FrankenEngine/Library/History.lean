import Mathlib.Data.List.Basic
import Mathlib.Data.List.Induction
import Mathlib.Data.List.Infix

/-!
# Histories

A system takes calls one after another. Its history records for each call the
state before, the outcome and the state after, so that what holds throughout a
run is a statement about the records.
-/

set_option autoImplicit false

namespace FrankenEngine.Library

open List

variable {State Call Outcome Output : Type}

structure Record (State Call Outcome : Type) where
  before : State
  call : Call
  outcome : Outcome
  after : State

variable (step : State → Call → State × Outcome)

def record (state : State) (call : Call) : Record State Call Outcome where
  before := state
  call
  outcome := (step state call).2
  after := (step state call).1

def history : State → List Call → List (Record State Call Outcome)
  | _, [] => []
  | state, call :: rest => record step state call :: history (step state call).1 rest

def final (state : State) (calls : List Call) : State :=
  calls.foldl (fun current call => (step current call).1) state

variable {step}

theorem history_append (state : State) (calls later : List Call) :
    history step state (calls ++ later) =
      history step state calls ++ history step (final step state calls) later := by
  induction calls generalizing state with
  | nil => rfl
  | cons call rest ih =>
    rw [cons_append, history, ih]
    rfl

variable {state : State} {Invariant : State → Prop}

/-- A relation between a state and what happened before it holds after every run if it holds at
the start and every call carries it on. -/
theorem history_induction (Holds : State → List (Record State Call Outcome) → Prop)
    (initial : Holds state []) (carried : ∀ current past call, Holds current past →
      Holds (step current call).1 (past ++ [record step current call])) (calls : List Call) :
    Holds (final step state calls) (history step state calls) := by
  induction calls using reverseRecOn with
  | nil => exact initial
  | append_singleton calls call ih =>
    rw [history_append, final, foldl_append]
    exact carried _ _ call ih

theorem mem_history {calls : List Call} {entry : Record State Call Outcome}
    (member : entry ∈ history step state calls) :
    entry.call ∈ calls ∧ entry = record step entry.before entry.call := by
  induction calls generalizing state with
  | nil => cases member
  | cons call rest ih =>
    cases member with
    | head => exact ⟨.head _, rfl⟩
    | tail _ later =>
      obtain ⟨called, recorded⟩ := ih later
      exact ⟨.tail _ called, recorded⟩

/-- What every step preserves that is made well holds before every call of a history that is made
well. -/
theorem history_invariant_of (Good : Record State Call Outcome → Prop)
    (preserved : ∀ state call, Invariant state → Good (record step state call) →
      Invariant (step state call).1) (holds : Invariant state) (calls : List Call)
    (good : ∀ entry ∈ history step state calls, Good entry) :
    ∀ entry ∈ history step state calls, Invariant entry.before := by
  induction calls generalizing state with
  | nil =>
    intro entry member
    cases member
  | cons call rest ih =>
    intro entry member
    cases member with
    | head => exact holds
    | tail _ later =>
      have next := preserved state call holds (good _ (.head _))
      exact ih next (fun other member => good other (.tail _ member)) entry later

theorem history_invariant
    (preserved : ∀ state call, Invariant state → Invariant (step state call).1)
    (holds : Invariant state) (calls : List Call) :
    ∀ entry ∈ history step state calls, Invariant entry.before :=
  history_invariant_of (fun _ => True) (fun state call kept _ => preserved state call kept)
    holds calls fun _ _ => trivial

/-- If under an invariant a step is safe exactly if it is made well, and a safe step keeps the
invariant, then a history is safe exactly if it is made well. The steps may be known to be
allowed. -/
theorem history_forall_iff (Invariant : State → Prop) (Allowed : Record State Call Outcome → Prop)
    {Safe Good : Record State Call Outcome → Prop}
    (safe_iff : ∀ state call, Invariant state → Allowed (record step state call) →
      (Safe (record step state call) ↔ Good (record step state call)))
    (preserved : ∀ state call, Invariant state → Allowed (record step state call) →
      Safe (record step state call) → Invariant (step state call).1) (holds : Invariant state)
    (calls : List Call) (allowed : ∀ entry ∈ history step state calls, Allowed entry) :
    (∀ entry ∈ history step state calls, Safe entry) ↔
      ∀ entry ∈ history step state calls, Good entry := by
  induction calls generalizing state with
  | nil => simp [history]
  | cons call rest ih =>
    rw [history, forall_mem_cons] at allowed
    rw [history, forall_mem_cons, forall_mem_cons, ← safe_iff state call holds allowed.1]
    refine and_congr_right fun safe => ?_
    exact ih (preserved state call holds allowed.1 safe) allowed.2

/-- If a step adds at most the key of its call and no key is called twice, every key is new when
it is called. -/
theorem history_fresh {Key : Type} (key : Call → Option Key) (Has : State → Key → Prop)
    (added : ∀ state call other, Has (step state call).1 other →
      Has state other ∨ key call = some other) (calls : List Call)
    (once : (calls.filterMap key).Nodup) (unused : ∀ other ∈ calls.filterMap key, ¬ Has state other) :
    ∀ entry ∈ history step state calls, ∀ other, key entry.call = some other →
      ¬ Has entry.before other := by
  induction calls generalizing state with
  | nil =>
    intro entry member
    cases member
  | cons call rest ih =>
    intro entry member other called
    have kept : ∀ later ∈ rest.filterMap key, later ∈ (call :: rest).filterMap key := by
      intro later listed
      rw [filterMap_cons]
      split
      · exact listed
      · exact .tail _ listed
    cases member with
    | head =>
      apply unused
      rw [filterMap_cons, show key call = some other from called]
      exact .head _
    | tail _ behind =>
      refine ih ?_ ?_ entry behind other called
      · rw [filterMap_cons] at once
        split at once
        · exact once
        · exact (nodup_cons.mp once).2
      · intro later listed has
        cases added state call later has with
        | inl before => exact unused later (kept later listed) before
        | inr again =>
          rw [filterMap_cons, again] at once
          exact (nodup_cons.mp once).1 listed

/-- The outputs of a history are in order when each is above all that the state covers, and the
state covers it from then on. -/
theorem history_pairwise (Covers : State → Output → Prop)
    {emit : Record State Call Outcome → Option Output} {Above : Output → Output → Prop}
    (preserved : ∀ state call, Invariant state → Invariant (step state call).1)
    (kept : ∀ state call output, Invariant state → Covers state output →
      Covers (step state call).1 output)
    (emitted : ∀ state call output, Invariant state → emit (record step state call) = some output →
      Covers (step state call).1 output ∧ ∀ earlier, Covers state earlier → Above earlier output)
    (holds : Invariant state) (calls : List Call) :
    ((history step state calls).filterMap emit).Pairwise Above ∧
      ∀ output ∈ (history step state calls).filterMap emit, ∀ earlier, Covers state earlier →
        Above earlier output := by
  induction calls generalizing state with
  | nil => simp [history]
  | cons call rest ih =>
    obtain ⟨ordered, above⟩ := ih (preserved state call holds)
    have later : ∀ output ∈ (history step (step state call).1 rest).filterMap emit,
        ∀ earlier, Covers state earlier → Above earlier output :=
      fun output member earlier covered =>
        above output member earlier (kept state call earlier holds covered)
    rw [history, filterMap_cons]
    cases output : emit (record step state call) with
    | none => exact ⟨ordered, later⟩
    | some first =>
      obtain ⟨covers, aboveState⟩ := emitted state call first holds output
      constructor
      · exact pairwise_cons.mpr ⟨fun next member => above next member first covers, ordered⟩
      · intro next member
        cases member with
        | head => exact aboveState
        | tail _ behind => exact later next behind

section Places

variable {A : Type} {items : List A} {last : A}

theorem cases_of_append_singleton_eq {before after : List A} {item : A}
    (split : items ++ [last] = before ++ item :: after) :
    (items = before ∧ last = item ∧ after = []) ∨
      ∃ rest, after = rest ++ [last] ∧ items = before ++ item :: rest := by
  cases after using reverseRecOn with
  | nil =>
    obtain ⟨same, lasts⟩ := append_inj' split rfl
    exact .inl ⟨same, (cons.inj lasts).1, rfl⟩
  | append_singleton rest other =>
    rw [← cons_append, ← append_assoc] at split
    obtain ⟨same, lasts⟩ := append_inj' split rfl
    exact .inr ⟨rest, (cons.inj lasts).1 ▸ rfl, same⟩

theorem mem_zip_inits_iff {before : List A} {item : A} :
    (before, item) ∈ items.inits.zip items ↔ ∃ after, items = before ++ item :: after := by
  induction items generalizing before with
  | nil => simp
  | cons first rest ih =>
    rw [inits_cons, zip_cons_cons, mem_cons, zip_map_left, mem_map]
    cases before with
    | nil => simp [eq_comm]
    | cons head before => simp [← ih, eq_comm, and_comm]

/-- What holds of every item and those before it can be checked at one place after the other. -/
theorem forall_places_iff {Holds : List A → A → Prop} :
    (∀ before item after, items = before ++ item :: after → Holds before item) ↔
      ∀ place ∈ items.inits.zip items, Holds place.1 place.2 := by
  constructor
  · rintro each ⟨before, item⟩ member
    obtain ⟨after, split⟩ := mem_zip_inits_iff.mp member
    exact each before item after split
  · intro each before item after split
    exact each (before, item) (mem_zip_inits_iff.mpr ⟨after, split⟩)

/-- What holds of every item and those before it holds of the earlier items and of the last. -/
theorem forall_places_snoc {Holds : List A → A → Prop} :
    (∀ before item after, items ++ [last] = before ++ item :: after → Holds before item) ↔
      (∀ before item after, items = before ++ item :: after → Holds before item) ∧
        Holds items last := by
  constructor
  · intro each
    refine ⟨fun before item after split => ?_, each items last [] rfl⟩
    exact each before item (after ++ [last]) (by rw [split, append_assoc, cons_append])
  · rintro ⟨each, own⟩ before item after split
    rcases cases_of_append_singleton_eq split with ⟨rfl, rfl, -⟩ | ⟨rest, -, earlier⟩
    · exact own
    · exact each before item rest earlier

end Places

section Since

variable {Event : Type} {Begins Ends : Event → Prop}

/-- An event that begins it has happened, and none that ends it after that. -/
def Since (Begins Ends : Event → Prop) (past : List Event) : Prop :=
  ∃ earlier event later, past = earlier ++ event :: later ∧ Begins event ∧
    ∀ next ∈ later, ¬ Ends next

theorem not_since_nil : ¬ Since Begins Ends [] := by
  rintro ⟨earlier, event, later, empty, _⟩
  cases earlier <;> cases empty

theorem since_append_singleton {past : List Event} {event : Event} :
    Since Begins Ends (past ++ [event]) ↔
      Begins event ∨ (Since Begins Ends past ∧ ¬ Ends event) := by
  constructor
  · rintro ⟨earlier, start, later, split, begins, lasts⟩
    rcases cases_of_append_singleton_eq split with ⟨-, rfl, -⟩ | ⟨later, rfl, before⟩
    · exact .inl begins
    · refine .inr ⟨⟨earlier, start, later, before, begins, fun next member => ?_⟩, ?_⟩
      · exact lasts next (mem_append_left _ member)
      · exact lasts event (mem_append_right _ (.head _))
  · rintro (begins | ⟨⟨earlier, start, later, rfl, begins, lasts⟩, continues⟩)
    · exact ⟨past, event, [], rfl, begins, nofun⟩
    · refine ⟨earlier, start, later ++ [event], by simp, begins, fun next member => ?_⟩
      cases mem_append.mp member with
      | inl old => exact lasts next old
      | inr new => exact mem_singleton.mp new ▸ continues

end Since

end FrankenEngine.Library
