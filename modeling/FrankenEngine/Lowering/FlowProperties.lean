import FrankenEngine.Lowering.FlowMachine
import Mathlib.Tactic.Cases

/-!
# What the inferred labels cover

The inference sees one label for the newest value and one for each binding, in
the order of the text. So the label of an operation is that of one literal or
await or one import, found by going back through the text; it covers the
operands of a path exactly where none of them is labelled higher.
-/

set_option autoImplicit false

namespace FrankenEngine.Lowering

open Library Ir List Option

/-!
## The inferred label of each operation
-/

def inferenceAt (ops : List Ir1Op) (position : Nat) : Inference :=
  ((ops.take position).map classified).foldl Inference.next {}

def inferredLabel (ops : List Ir1Op) (position : Nat) : Label :=
  match ops[position]? with
  | some op =>
    inferDataLabelForOp op (inferenceAt ops position).bindingLabels
      (inferenceAt ops position).lastLabel
  | none => .publicData

variable {op : Ir1Op} {position bindingId : Nat} {ops : List Ir1Op}

theorem inferredLabel_of_getElem? (found : ops[position]? = some op) : inferredLabel ops position =
      inferDataLabelForOp op (inferenceAt ops position).bindingLabels
        (inferenceAt ops position).lastLabel := by
  simp only [inferredLabel, found]

@[simp] theorem inner_classified (op : Ir1Op) : (classified op).inner = op := rfl

theorem inferenceAt_succ (found : ops[position]? = some op) :
    inferenceAt ops (position + 1) = (inferenceAt ops position).next (classified op) := by
  unfold inferenceAt
  rw [take_add_one, found]
  simp [foldl_append]

theorem inferenceAt_succ_of_none (past : ops[position]? = none) :
    inferenceAt ops (position + 1) = inferenceAt ops position := by
  unfold inferenceAt
  rw [take_add_one, past, toList_none, append_nil]

theorem lastLabel_succ (found : ops[position]? = some op) :
    (inferenceAt ops (position + 1)).lastLabel = inferredLabel ops position := by
  rw [inferenceAt_succ found, inferredLabel_of_getElem? found]
  rfl

theorem bindingLabels_succ_store (found : ops[position]? = some (.storeBinding bindingId)) :
    (inferenceAt ops (position + 1)).bindingLabels =
      (inferenceAt ops position).bindingLabels.insert bindingId (inferredLabel ops position) := by
  rw [inferenceAt_succ found, inferredLabel_of_getElem? found]
  rfl

theorem bindingLabels_succ_of_ne (found : ops[position]? = some op)
    (other : op ≠ .storeBinding bindingId) :
    (inferenceAt ops (position + 1)).bindingLabels.get? bindingId =
      (inferenceAt ops position).bindingLabels.get? bindingId := by
  cases op with
  | storeBinding stored =>
    rw [bindingLabels_succ_store found, OrderedMap.get?_insert, if_neg]
    rintro rfl
    exact other rfl
  | _ => rw [inferenceAt_succ found]; rfl

/-- An operation whose inferred label is that of the newest value. -/
def propagates : Ir1Op → Bool
  | .loadLiteral _ | .loadBinding _ | .importModule _ | .await => false
  | _ => true

theorem inferDataLabelForOp_of_propagates (through : propagates op)
    (bindingLabels : OrderedMap Nat Label) (lastLabel : Label) :
    inferDataLabelForOp op bindingLabels lastLabel = lastLabel := by
  cases op with
  | loadLiteral | loadBinding | importModule | await => cases through
  | _ => rfl

/-- The latest store of a binding before a position of the text. -/
def LatestStore (ops : List Ir1Op) (bindingId producer consumer : Nat) : Prop :=
  ops[producer]? = some (.storeBinding bindingId) ∧ producer < consumer ∧
    ∀ position, producer < position → position < consumer →
      ops[position]? ≠ some (.storeBinding bindingId)

theorem bindingLabels_of_latestStore {producer consumer : Nat}
    (latest : LatestStore ops bindingId producer consumer) (inside : consumer ≤ ops.length) :
    (inferenceAt ops consumer).bindingLabels.get? bindingId =
      some (inferredLabel ops producer) := by
  obtain ⟨store, order, between⟩ := latest
  induction consumer, order using Nat.le_induction with
  | base => rw [bindingLabels_succ_store store, OrderedMap.get?_insert, if_pos rfl]
  | succ consumer order ih =>
    have earlier : consumer < ops.length := inside
    have found : ops[consumer]? = some ops[consumer] := getElem?_eq_getElem earlier
    have other := between consumer order (by omega)
    rw [bindingLabels_succ_of_ne found fun same => other (found.trans (congrArg some same))]
    exact ih (by omega) fun position after upTo => between position after (by omega)

theorem bindingLabels_of_unstored (unstored : ∀ earlier < position,
      ops[earlier]? ≠ some (.storeBinding bindingId)) :
    (inferenceAt ops position).bindingLabels.get? bindingId = none := by
  induction position with
  | zero => rfl
  | succ position ih =>
    have before := ih fun earlier below => unstored earlier (by omega)
    cases found : ops[position]? with
    | none => rw [inferenceAt_succ_of_none found, before]
    | some op =>
      have other := unstored position (by omega)
      rw [bindingLabels_succ_of_ne found fun same => other (found.trans (congrArg some same)),
        before]

/-!
## The label that the text gives the newest value
-/

def literalLabel (value : Ir1Literal) : Label :=
  inferDataLabelForOp (.loadLiteral value) .empty .publicData

/-- Back through the text, jumps or not: a value comes from the operation before, a load from the
latest store of its binding, until a literal, an import or an await is met. -/
inductive TextLabel (ops : List Ir1Op) : Nat → Label → Prop where
  | literal {position : Nat} {value : Ir1Literal} :
      ops[position]? = some (.loadLiteral value) → TextLabel ops position (literalLabel value)
  | imported {position : Nat} {specifier : String} :
      ops[position]? = some (.importModule specifier) → TextLabel ops position .internal
  | awaited {position : Nat} : ops[position]? = some .await → TextLabel ops position .internal
  | unstored {position bindingId : Nat} :
      ops[position]? = some (.loadBinding bindingId) →
      (∀ earlier < position, ops[earlier]? ≠ some (.storeBinding bindingId)) →
      TextLabel ops position .internal
  | stored {position bindingId store : Nat} {label : Label} :
      ops[position]? = some (.loadBinding bindingId) → LatestStore ops bindingId store position →
      TextLabel ops store label → TextLabel ops position label
  | first {op : Ir1Op} : ops[0]? = some op → propagates op → TextLabel ops 0 .publicData
  | handed {position : Nat} {op : Ir1Op} {label : Label} :
      ops[position + 1]? = some op → propagates op → TextLabel ops position label →
      TextLabel ops (position + 1) label

theorem TextLabel.eq_inferredLabel {label : Label} (text : TextLabel ops position label) :
    label = inferredLabel ops position := by
  induction text with
  | @literal position value found =>
    rw [inferredLabel_of_getElem? found]
    cases value <;> rfl
  | imported found | awaited found => rw [inferredLabel_of_getElem? found]; rfl
  | unstored found none =>
    rw [inferredLabel_of_getElem? found]
    simp only [inferDataLabelForOp, bindingLabels_of_unstored none, getD_none]
  | stored found latest _ ih =>
    have inside := (List.getElem?_eq_some_iff.mp found).1
    rw [inferredLabel_of_getElem? found]
    simp only [inferDataLabelForOp, bindingLabels_of_latestStore latest inside.le, getD_some]
    exact ih
  | first found through =>
    rw [inferredLabel_of_getElem? found, inferDataLabelForOp_of_propagates through]
    rfl
  | @handed position op label found through _ ih =>
    have inside : position < ops.length := Nat.lt_of_succ_lt (List.getElem?_eq_some_iff.mp found).1
    have before : ops[position]? = some ops[position] := getElem?_eq_getElem inside
    rw [inferredLabel_of_getElem? found, inferDataLabelForOp_of_propagates through,
      lastLabel_succ before]
    exact ih

theorem exists_latestStore_or_unstored (ops : List Ir1Op) (bindingId position : Nat) :
    (∃ store, LatestStore ops bindingId store position) ∨
      ∀ earlier < position, ops[earlier]? ≠ some (.storeBinding bindingId) := by
  induction position with
  | zero => exact .inr fun earlier below => by omega
  | succ position ih =>
    by_cases here : ops[position]? = some (.storeBinding bindingId)
    · exact .inl ⟨position, here, by omega, fun other after below => by omega⟩
    cases ih with
    | inl found =>
      obtain ⟨store, same, before, between⟩ := found
      refine .inl ⟨store, same, by omega, fun other after below => ?_⟩
      by_cases last : other = position
      · rw [last]; exact here
      · exact between other after (by omega)
    | inr unstored =>
      refine .inr fun earlier below => ?_
      by_cases last : earlier = position
      · rw [last]; exact here
      · exact unstored earlier (by omega)

theorem exists_textLabel (inside : position < ops.length) :
    ∃ label, TextLabel ops position label := by
  induction position using Nat.strong_induction_on with
  | _ position ih =>
    have found : ops[position]? = some ops[position] := getElem?_eq_getElem inside
    generalize ops[position] = op at found
    by_cases through : propagates op
    · cases position with
      | zero => exact ⟨_, .first found through⟩
      | succ position =>
        obtain ⟨label, text⟩ := ih position (by omega) (by omega)
        exact ⟨label, .handed found through text⟩
    cases op with
    | loadLiteral => exact ⟨_, .literal found⟩
    | importModule => exact ⟨_, .imported found⟩
    | await => exact ⟨_, .awaited found⟩
    | loadBinding bindingId =>
      cases exists_latestStore_or_unstored ops bindingId position with
      | inl stored =>
        obtain ⟨store, latest⟩ := stored
        have before : store < position := latest.2.1
        obtain ⟨label, text⟩ := ih store before (by omega)
        exact ⟨label, .stored found latest text⟩
      | inr unstored => exact ⟨_, .unstored found unstored⟩
    | _ => exact absurd rfl through

theorem textLabel_iff (inside : position < ops.length) {label : Label} :
    TextLabel ops position label ↔ label = inferredLabel ops position := by
  constructor
  · exact TextLabel.eq_inferredLabel
  · rintro rfl
    obtain ⟨label, text⟩ := exists_textLabel inside
    rwa [← text.eq_inferredLabel]

/-!
## The annotations
-/

theorem getElem?_inferIr2FlowAnnotations (inference : Inference) (ops : List Ir2Op)
    (position : Nat) : (inferIr2FlowAnnotations inference ops).1[position]? =
      ops[position]?.map ((ops.take position).foldl Inference.next inference).annotate := by
  induction ops generalizing inference position with
  | nil => rfl
  | cons op rest ih =>
    cases position with
    | zero => rfl
    | succ position => exact ih (inference.next op) position

theorem getElem?_lowerIr1ToIr2 (ir1 : Ir1Module) (position : Nat) :
    (lowerIr1ToIr2 ir1).ops[position]? =
      ir1.ops[position]?.map fun op =>
        (inferenceAt ir1.ops position).annotate (classified op) := by
  change (inferIr2FlowAnnotations {} (ir1.ops.map classified)).1[position]? = _
  rw [getElem?_inferIr2FlowAnnotations, getElem?_map, Option.map_map, ← map_take]
  rfl

theorem dataLabel_flowFor (found : ops[position]? = some op) :
    ((inferenceAt ops position).flowFor (classified op)).dataLabel = inferredLabel ops position :=
  (inferredLabel_of_getElem? found).symm

theorem flow_of_lowerIr1ToIr2 {ir1 : Ir1Module} {op : Ir2Op} {flow : FlowAnnotation}
    (found : (lowerIr1ToIr2 ir1).ops[position]? = some op) (annotated : op.flow = some flow) :
    ir1.ops[position]? = some op.inner ∧ Inference.annotates (classified op.inner) ∧
      flow.dataLabel = inferredLabel ir1.ops position ∧
      flow.declassificationRequired = !flow.dataLabel.canFlowTo flow.sinkClearance := by
  rw [getElem?_lowerIr1ToIr2, Option.map_eq_some_iff] at found
  obtain ⟨source, same, rfl⟩ := found
  simp only [Inference.annotate] at annotated
  split at annotated
  · next annotates =>
      cases annotated
      exact ⟨same, annotates, dataLabel_flowFor same, rfl⟩
  · cases annotated

theorem level_inferDataLabelForOp_le (op : Ir1Op) {bindingLabels : OrderedMap Nat Label}
    {lastLabel : Label} (last : lastLabel.level ≤ 3)
    (bound : ∀ bindingId label, bindingLabels.get? bindingId = some label → label.level ≤ 3) :
    (inferDataLabelForOp op bindingLabels lastLabel).level ≤ 3 := by
  cases op with
  | loadLiteral value =>
    cases value with
    | string => simp only [inferDataLabelForOp]; split <;> decide
    | _ => exact Nat.zero_le 3
  | loadBinding bindingId =>
    cases found : bindingLabels.get? bindingId with
    | none => simp [inferDataLabelForOp, found, Label.level]
    | some label => simpa [inferDataLabelForOp, found] using bound bindingId label found
  | importModule | await => exact (by decide : Label.internal.level ≤ 3)
  | _ => exact last

theorem level_inferenceAt_le (ops : List Ir1Op) (position : Nat) :
    (inferenceAt ops position).lastLabel.level ≤ 3 ∧
      ∀ bindingId label, (inferenceAt ops position).bindingLabels.get? bindingId = some label →
        label.level ≤ 3 := by
  induction position with
  | zero => exact ⟨Nat.zero_le 3, fun bindingId label found => by cases found⟩
  | succ position ih =>
    cases found : ops[position]? with
    | none =>
      rw [inferenceAt_succ_of_none found]
      exact ih
    | some op =>
      have inferred : (inferredLabel ops position).level ≤ 3 := by
        rw [inferredLabel_of_getElem? found]
        exact level_inferDataLabelForOp_le op ih.1 ih.2
      refine ⟨by rw [lastLabel_succ found]; exact inferred, fun bindingId label read => ?_⟩
      by_cases store : op = .storeBinding bindingId
      · rw [bindingLabels_succ_store (store ▸ found), OrderedMap.get?_insert, if_pos rfl]
          at read
        cases read
        exact inferred
      · rw [bindingLabels_succ_of_ne found store] at read
        exact ih.2 bindingId label read

theorem level_inferredLabel_le (ops : List Ir1Op) (position : Nat) :
    (inferredLabel ops position).level ≤ 3 := by
  cases found : ops[position]? with
  | none => simp [inferredLabel, found, Label.level]
  | some op =>
    rw [inferredLabel_of_getElem? found]
    obtain ⟨last, bound⟩ := level_inferenceAt_le ops position
    exact level_inferDataLabelForOp_le op last bound

/-!
## What is recorded as proved
-/

theorem LabelClass.level_fromLabel (label : Label) :
    (LabelClass.fromLabel label).level = min label.level 4 := by
  cases label with
  | custom name level =>
    simp only [LabelClass.fromLabel, Label.level]
    split <;> simp_all [LabelClass.level]
    omega
  | _ => rfl

theorem maxLabelLevel_sinkLabelToClearance (label : Label) :
    (sinkLabelToClearance label).maxLabelLevel = min label.level 4 := by
  cases label with
  | custom name level =>
    simp only [sinkLabelToClearance, Label.level]
    split <;> simp_all [Clearance.maxLabelLevel]
    omega
  | _ => rfl

/-- An entry of the artifact stands for an annotation that the lattice lets flow. -/
structure FlowEntry.Proves (entry : FlowEntry) (flow : FlowAnnotation) : Prop where
  sinkClearance : entry.sinkClearance = flow.sinkClearance
  legal : (LabelClass.fromLabel flow.dataLabel).canFlowTo
    (sinkLabelToClearance flow.sinkClearance)

namespace FlowRecorder

theorem mem_provedFlows_record {recorder : FlowRecorder} {opIndex : Nat} {op : Ir2Op}
    {flow : FlowAnnotation} {entry : FlowEntry}
    (recorded : entry ∈ (recorder.record opIndex op flow).artifact.provedFlows) :
    entry ∈ recorder.artifact.provedFlows ∨ (entry.opIndex = opIndex ∧ entry.Proves flow) := by
  simp only [record] at recorded
  split at recorded
  · exact .inl recorded
  · split at recorded
    · next legal =>
        cases mem_append.mp recorded with
        | inl earlier => exact .inl earlier
        | inr new =>
          rw [mem_singleton.mp new]
          exact .inr ⟨rfl, rfl, legal⟩
    · split at recorded <;> exact .inl recorded

theorem mem_provedFlows_recordOps {recorder : FlowRecorder} {start : Nat} {ops : List Ir2Op}
    {entry : FlowEntry}
    (recorded : entry ∈ (recordOps recorder start ops).artifact.provedFlows) :
    entry ∈ recorder.artifact.provedFlows ∨
      ∃ position op flow, ops[position]? = some op ∧ op.flow = some flow ∧
        entry.opIndex = start + position ∧ entry.Proves flow := by
  induction ops generalizing recorder start with
  | nil => exact .inl recorded
  | cons op rest ih =>
    have later : ∀ {recorder : FlowRecorder},
        entry ∈ (recordOps recorder (start + 1) rest).artifact.provedFlows →
        entry ∈ recorder.artifact.provedFlows ∨
          ∃ position other flow, (op :: rest)[position]? = some other ∧
            other.flow = some flow ∧ entry.opIndex = start + position ∧ entry.Proves flow := by
      intro recorder recorded
      cases ih recorded with
      | inl earlier => exact .inl earlier
      | inr behind =>
        obtain ⟨position, other, flow, found, annotated, index, proves⟩ := behind
        exact .inr ⟨position + 1, other, flow, found, annotated, by omega, proves⟩
    cases annotated : op.flow with
    | none =>
      simp only [recordOps, annotated] at recorded
      exact later recorded
    | some flow =>
      simp only [recordOps, annotated] at recorded
      cases later recorded with
      | inl here =>
        cases mem_provedFlows_record here with
        | inl earlier => exact .inl earlier
        | inr new => exact .inr ⟨0, op, flow, rfl, annotated, new.1, new.2⟩
      | inr behind => exact .inr behind

end FlowRecorder

theorem proves_of_mem_provedFlows {ir2 : Ir2Module} {artifact : FlowProofArtifact}
    {entry : FlowEntry} (built : buildIr2FlowProofArtifact ir2 = .ok artifact)
    (recorded : entry ∈ artifact.provedFlows) :
    ∃ op flow, ir2.ops[entry.opIndex]? = some op ∧ op.flow = some flow ∧ entry.Proves flow := by
  simp only [buildIr2FlowProofArtifact] at built
  split at built
  · cases built
  · cases built
    cases FlowRecorder.mem_provedFlows_recordOps recorded with
    | inl none => cases none
    | inr there =>
      obtain ⟨position, op, flow, found, annotated, index, proves⟩ := there
      rw [Nat.zero_add] at index
      exact ⟨op, flow, index ▸ found, annotated, proves⟩

theorem FlowEntry.Proves.level_le {entry : FlowEntry} {flow : FlowAnnotation}
    (proves : entry.Proves flow) (bounded : flow.dataLabel.level ≤ 3) :
    flow.dataLabel.level ≤ entry.sinkClearance.level := by
  have legal := proves.legal
  simp only [LabelClass.canFlowTo, LabelClass.level_fromLabel, maxLabelLevel_sinkLabelToClearance,
    decide_eq_true_eq] at legal
  rw [proves.sinkClearance]
  omega

namespace FlowMachine

/-- What the annotation of the next operation promises about its operands: its label is at least
theirs, and what is counted or recorded as proved may flow to its sink. -/
def Covered (ir1 : Ir1Module) (machine : FlowMachine) : Prop :=
  ∀ op flow, (lowerIr1ToIr2 ir1).ops[machine.pc]? = some op → op.flow = some flow →
    ∀ value ∈ machine.consumed op.inner,
      value.level ≤ flow.dataLabel.level ∧
      (Inference.needsRuntimeCheck flow op = false → value.canFlowTo flow.sinkClearance) ∧
      ∀ artifact, buildIr2FlowProofArtifact (lowerIr1ToIr2 ir1) = .ok artifact →
        ∀ entry ∈ artifact.provedFlows, entry.opIndex = machine.pc →
          value.canFlowTo entry.sinkClearance

/-- No operand of an annotated operation is labelled above the value that the text has last. -/
def WithinText (ops : List Ir1Op) (machine : FlowMachine) : Prop :=
  ∀ op, ops[machine.pc]? = some op → Inference.annotates (classified op) →
    ∀ value ∈ machine.consumed op, ∀ label, TextLabel ops machine.pc label →
      value.level ≤ label.level

variable {ir1 : Ir1Module} {machine : FlowMachine}

theorem Covered.withinText (covered : Covered ir1 machine) : WithinText ir1.ops machine := by
  intro op found annotates value operand label text
  have lowered : (lowerIr1ToIr2 ir1).ops[machine.pc]? =
      some ((inferenceAt ir1.ops machine.pc).annotate (classified op)) := by
    rw [getElem?_lowerIr1ToIr2, found, Option.map_some]
  have annotated : ((inferenceAt ir1.ops machine.pc).annotate (classified op)).flow =
      some ((inferenceAt ir1.ops machine.pc).flowFor (classified op)) := if_pos annotates
  rw [text.eq_inferredLabel, ← dataLabel_flowFor found]
  exact (covered _ _ lowered annotated value operand).1

theorem WithinText.covered (within : WithinText ir1.ops machine) : Covered ir1 machine := by
  intro op flow found annotated value operand
  obtain ⟨source, annotates, inferred, required⟩ := flow_of_lowerIr1ToIr2 found annotated
  have below : value.level ≤ flow.dataLabel.level := by
    have inside := (List.getElem?_eq_some_iff.mp source).1
    exact within op.inner source annotates value operand _ ((textLabel_iff inside).mpr inferred)
  refine ⟨below, fun unchecked => ?_, fun artifact built entry recorded here => ?_⟩
  · have flows : flow.declassificationRequired = false :=
      (Bool.or_eq_false_iff.mp unchecked).1
    rw [required, Bool.not_eq_false'] at flows
    exact decide_eq_true (below.trans (of_decide_eq_true flows))
  · obtain ⟨other, otherFlow, there, otherAnnotated, proves⟩ :=
      proves_of_mem_provedFlows built recorded
    rw [here, found] at there
    cases there
    cases annotated.symm.trans otherAnnotated
    have bounded : flow.dataLabel.level ≤ 3 := by
      rw [inferred]
      exact level_inferredLabel_le ir1.ops machine.pc
    exact decide_eq_true (below.trans (proves.level_le bounded))

end FlowMachine

/-- `new Logger("api token", "x")`. -/
def newLogger : Ir1Module where
  bindings := []
  ops := [.loadBinding 0, .loadLiteral (.string "api token"), .loadLiteral (.string "x"),
    .construct 2, .ret]

def straightLine (pc : Nat) (stack : List Label) : FlowMachine := { pc, stack }

end FrankenEngine.Lowering
