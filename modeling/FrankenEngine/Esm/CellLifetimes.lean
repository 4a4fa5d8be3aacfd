import FrankenEngine.Esm.LiveBindingProperties
import FrankenEngine.Library.History

/-!
# The life of a cell

Cells are written through their ids and through any alias of them. A dead cell
refuses to be mutated, but not to be initialized again.
-/

set_option autoImplicit false

namespace FrankenEngine.Esm

open Library OrderedMap LiveBindingMap

inductive BindingCall where
  | registerAlias (aliasId source : BindingId)
  | write (id : BindingId) (call : CellCall)
  | markDead (id : BindingId)

namespace BindingCall

def Initializes : BindingCall → Prop
  | write _ (.initializeMillionths _) | write _ (.initializeString _) => True
  | _ => False

/-- The cell is already in the state and has the value that the call gives it. -/
def Repeats (cell : BindingCell) : BindingCall → Prop
  | registerAlias _ _ => True
  | write _ (.initializeMillionths value) | write _ (.mutateMillionths value) =>
    cell.state = .initialized ∧ cell.valueMillionths = some value ∧ cell.valueString = none
  | write _ (.initializeString value) | write _ (.mutateString value) =>
    cell.state = .initialized ∧ cell.valueMillionths = none ∧ cell.valueString = some value
  | markDead _ => cell.state = .dead

/-- The cell that a call is for, and what it does to it. -/
def onCell : BindingCall → Option (BindingId × (BindingCell → Except LiveBindingError BindingCell))
  | registerAlias _ _ => none
  | write id (.initializeMillionths value) => some (id, fun cell => .ok (cell.initializeMillionths value))
  | write id (.initializeString value) => some (id, fun cell => .ok (cell.initializeString value))
  | write id (.mutateMillionths value) => some (id, (·.mutateMillionths value))
  | write id (.mutateString value) => some (id, (·.mutateString value))
  | markDead id => some (id, fun cell => .ok cell.markDead)

end BindingCall

def LiveBindingMap.performCall (map : LiveBindingMap) :
    BindingCall → LiveBindingMap × Except LiveBindingError Unit
  | .registerAlias aliasId source => (map.registerAlias aliasId source, .ok ())
  | .write id call => map.perform (id, call)
  | .markDead id => map.markDead id

namespace BindingCell

def Same (cell changed : BindingCell) : Prop :=
  changed.state = cell.state ∧ changed.valueMillionths = cell.valueMillionths ∧
    changed.valueString = cell.valueString

/-- A dead cell stays as it is, and what changes gets a later version. -/
structure Continues (cell changed : BindingCell) : Prop where
  dead : cell.state = .dead → cell.Same changed
  version : ¬ cell.Same changed → cell.version < changed.version

theorem Continues.refl (cell : BindingCell) : cell.Continues cell :=
  ⟨fun _ => ⟨rfl, rfl, rfl⟩, fun changed => absurd ⟨rfl, rfl, rfl⟩ changed⟩

theorem lt_succ_iff (version : UInt64) : version < version + 1 ↔ version.toNat + 1 < 2 ^ 64 := by
  rw [UInt64.lt_iff_toNat_lt, UInt64.toNat_add]
  have one : (1 : UInt64).toNat = 1 := rfl
  omega

/-- The call does not initialize the cell if it is dead, nor change it if it has the last
version. -/
def Spares (call : BindingCall) (cell : BindingCell) : Prop :=
  (cell.state = .dead → ¬ call.Initializes) ∧
    (cell.state ≠ .dead → ¬ call.Repeats cell → cell.version.toNat + 1 < 2 ^ 64)

section Changes

variable {cell : BindingCell} {call : BindingCall} {id : BindingId}
  {change : BindingCell → Except LiveBindingError BindingCell}
  (target : call.onCell = some (id, change))

include target

theorem spares_of_error {error : LiveBindingError} (refused : change cell = .error error) :
    Spares call cell := by
  have isDead : cell.state = .dead ∧ ¬ call.Initializes := by
    unfold BindingCall.onCell at target
    grind [BindingCall.Initializes, mutateMillionths, mutateString]
  exact ⟨fun _ => isDead.2, fun alive => absurd isDead.1 alive⟩

theorem continues_iff {changed : BindingCell} (done : change cell = .ok changed) :
    cell.Continues changed ↔ Spares call cell := by
  have later : changed.version = cell.version + 1 := by
    unfold BindingCall.onCell at target
    grind [initializeMillionths, initializeString, mutateMillionths, mutateString, markDead]
  -- A mutation does not succeed on a dead cell.
  have revived : cell.state = .dead → (cell.Same changed ↔ ¬ call.Initializes) := by
    unfold BindingCall.onCell at target
    grind [BindingCall.Initializes, Same, initializeMillionths, initializeString,
      mutateMillionths, mutateString, markDead]
  have repeated : cell.state ≠ .dead → (cell.Same changed ↔ call.Repeats cell) := by
    unfold BindingCall.onCell at target
    grind [BindingCall.Repeats, Same, initializeMillionths, initializeString,
      mutateMillionths, mutateString, markDead]
  constructor
  · intro continues
    refine ⟨fun dead => (revived dead).mp (continues.dead dead), fun alive differs => ?_⟩
    rw [← lt_succ_iff, ← later]
    exact continues.version (mt (repeated alive).mp differs)
  · rintro ⟨dead, version⟩
    refine ⟨fun isDead => (revived isDead).mpr (dead isDead), fun differs => ?_⟩
    rw [later, lt_succ_iff]
    have alive : cell.state ≠ .dead := fun isDead => differs ((revived isDead).mpr (dead isDead))
    exact version alive (mt (repeated alive).mpr differs)

end Changes

end BindingCell

namespace LiveBindingMap

variable (entry : Record LiveBindingMap BindingCall (Except LiveBindingError Unit))

structure Sound : Prop where
  continues : ∀ id cell, entry.before.cells.get? id = some cell →
    ∃ changed, entry.after.cells.get? id = some changed ∧ cell.Continues changed
  failed : ∀ error, entry.outcome = .error error → entry.after.cells = entry.before.cells

def Cautious : Prop :=
  ∀ id change cell, entry.call.onCell = some (id, change) →
    entry.before.getCell id = some cell → BindingCell.Spares entry.call cell

variable (map : LiveBindingMap)

theorem performCall_onCell {call : BindingCall} {id : BindingId}
    {change : BindingCell → Except LiveBindingError BindingCell}
    (target : call.onCell = some (id, change)) :
    ∃ event, map.performCall call = map.changeCell id change event := by
  unfold BindingCall.onCell at target
  split at target <;> cases target
  · exact ⟨_, rfl⟩
  · exact ⟨_, rfl⟩
  · exact ⟨_, rfl⟩
  · exact ⟨_, rfl⟩
  · exact ⟨fun resolved _ => .cellDied resolved, rfl⟩

theorem sound_of_cells {call : BindingCall} (same : (map.performCall call).1.cells = map.cells) :
    Sound (record performCall map call) where
  continues id cell found := ⟨cell, (congrArg (·.get? id) same).trans found, .refl cell⟩
  failed _ _ := same

theorem sound_iff (call : BindingCall) :
    Sound (record performCall map call) ↔ Cautious (record performCall map call) := by
  cases target : call.onCell with
  | none =>
    have same : (map.performCall call).1.cells = map.cells := by
      cases call with
      | registerAlias aliasId source => rfl
      | write id call => cases call <;> cases target
      | markDead id => cases target
    refine iff_of_true (map.sound_of_cells same) fun _ _ _ other => ?_
    cases target.symm.trans other
  | some onCell =>
    obtain ⟨id, change⟩ := onCell
    obtain ⟨event, called⟩ := map.performCall_onCell target
    have own : ∀ {other}, (record performCall map call).call.onCell = some other →
        (id, change) = other := fun isOther => Option.some.inj (target.symm.trans isOther)
    unfold changeCell at called
    cases found : map.cells.get? (map.resolveBindingId id) with
    | none =>
      refine iff_of_true (map.sound_of_cells (by simp only [called, found])) ?_
      intro _ _ cell isOther held
      cases own isOther
      cases found.symm.trans held
    | some cell =>
      cases done : change cell with
      | error error =>
        refine iff_of_true (map.sound_of_cells (by simp only [called, found, done])) ?_
        intro _ _ _ isOther held
        cases own isOther
        cases found.symm.trans held
        exact BindingCell.spares_of_error target done
      | ok changed =>
        simp only [found, done] at called
        trans cell.Continues changed
        · constructor
          · intro sound
            obtain ⟨held, isHeld, continues⟩ := sound.continues _ cell found
            simp only [record, called, emit, get?_insert, if_true] at isHeld
            exact Option.some.inj isHeld ▸ continues
          · intro continues
            refine ⟨fun other held isHeld => ?_, fun error failed => ?_⟩
            · simp only [record, called, emit, get?_insert]
              split
              next same =>
                cases found.symm.trans (same ▸ isHeld)
                exact ⟨changed, rfl, continues⟩
              next => exact ⟨held, isHeld, .refl held⟩
            · simp only [record, called] at failed
              cases failed
        · rw [BindingCell.continues_iff target done]
          constructor
          · intro spares _ _ _ isOther held
            cases own isOther
            cases found.symm.trans held
            exact spares
          · exact fun cautious => cautious id change cell target found

/-- Through a run dead cells stay as they are, failed calls change no cell and changes raise the
version, exactly if no call initializes a dead cell and no version runs over. -/
theorem cells_sound_iff (calls : List BindingCall) :
    (∀ entry ∈ history performCall map calls, Sound entry) ↔
      ∀ entry ∈ history performCall map calls, Cautious entry := by
  refine forall₂_congr fun entry member => ?_
  rw [(mem_history member).2]
  exact sound_iff _ _

def oneDead : LiveBindingMap :=
  ((registerCell {} (.new "m" "x" "x" .direct)).markDead ⟨"m", "x"⟩).1

/-- Initialized once more, the export of a failed module is live. -/
theorem initialize_revives :
    (oneDead.getCell ⟨"m", "x"⟩).map (·.state) = some .dead ∧
      (oneDead.initializeMillionths ⟨"m", "x"⟩ 7).2 = .ok () ∧
      ((oneDead.initializeMillionths ⟨"m", "x"⟩ 7).1.getCell ⟨"m", "x"⟩).map
        (fun cell => (cell.state, cell.valueMillionths)) = some (.initialized, some 7) := by
  decide +kernel

end LiveBindingMap

end FrankenEngine.Esm
