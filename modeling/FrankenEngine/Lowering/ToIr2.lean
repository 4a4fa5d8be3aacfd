import FrankenEngine.Ir.Contract
import FrankenEngine.Library.Chars
import FrankenEngine.Library.OrderedMap

/-!
# Lowering to IR2

The second pass of `lowering_pipeline.rs`: each operation gets its effect, the
capability it needs and, where data can leave the program, the labels of the
data and of the sink. The labels are inferred in one pass over the text, with
the label of the newest value and the label of each binding.
-/

set_option autoImplicit false

namespace FrankenEngine.Lowering

open Library Ir

inductive SemanticErrorCode where
  | duplicateLetConstDeclaration
  | lexicalConflictsWithVar
  | varConflictsWithLexical
  | duplicateImportBinding
  | constWithoutInitializer
  | undefinedLabel
  | illegalBreak
  | illegalContinue
  | undeclaredExportBinding
  deriving DecidableEq, Repr

inductive LoweringPipelineError where
  | emptyIr0Body
  | invariantViolation (detail : String)
  | semanticViolation (code : SemanticErrorCode) (name : Option String)
  | unsupportedSyntax (featureFamily : String)
  | valueStackUnderflow
  | unauthorizedFlow (opIndex : Nat) (sourceLabel sinkClearance : Label)
  deriving DecidableEq, Repr

/-- The capability named between the marks of a host call in a text. -/
def extractHostcallCapability (raw : String) : Option String :=
  [("hostcall<\"", "\">"), ("hostcall<\\\"", "\\\">")].findSome? fun (marker, terminator) => do
    let (_, remainder) ← Chars.splitOnce marker.toList raw.toList
    let (capability, _) ← Chars.splitOnce terminator.toList remainder
    let capability := Chars.trim capability
    if capability = [] then none else some (String.ofList capability)

def plainFlow (label : Label) : FlowAnnotation :=
  { dataLabel := label, sinkClearance := label, declassificationRequired := false }

def classifyIr1Op : Ir1Op → EffectBoundary × Option String × Option FlowAnnotation
  | .importModule _ => (.readEffect, some "module.import", some (plainFlow .internal))
  | .call _ => (.hostcallEffect, some "hostcall.invoke", some (plainFlow .confidential))
  | .await => (.readEffect, none, some (plainFlow .internal))
  | .loadLiteral (.string raw) =>
    match extractHostcallCapability raw with
    | some capability =>
      (.hostcallEffect, some capability, some (plainFlow .confidential))
    | none => (.pure, none, none)
  | .throw | .beginTry .. | .endTry | .enterFinally | .endFinally =>
    (.readEffect, none, some (plainFlow .internal))
  | .getProperty _ | .setProperty _ | .deleteProperty _ => (.readEffect, none, none)
  | .forInInit | .forInNext _ | .forOfInit | .forOfNext _ | .iteratorClose _ | .construct _
  | .templateLiteral _ => (.readEffect, none, none)
  | _ => (.pure, none, none)

def secretMarks : List String := ["secret", "token", "api_key", "password", "credential"]

def inferDataLabelForOp (op : Ir1Op) (bindingLabels : OrderedMap Nat Label) (lastLabel : Label) :
    Label :=
  match op with
  | .loadLiteral (.string raw) =>
    let lowered := Chars.toAsciiLowercase raw.toList
    if secretMarks.any fun mark => Chars.contains mark.toList lowered then .secret
    else .publicData
  | .loadLiteral _ => .publicData
  | .loadBinding bindingId => (bindingLabels.get? bindingId).getD .internal
  | .importModule _ | .await => .internal
  | _ => lastLabel

def sinkClearanceFromCapability (capability : String) : Label :=
  let normalized := Chars.toAsciiLowercase capability.toList
  let mentions (words : List String) : Bool :=
    words.any fun word => Chars.contains word.toList normalized
  if normalized = "hostcall.invoke".toList then .internal
  else if mentions ["net.", "net_", "network", "process.", "process_", "spawn"] then .publicData
  else if mentions ["credential", "key_material"] then .topSecret
  else if mentions ["secret", "token", "key"] then .secret
  else if mentions ["fs.read"] then .internal
  else if mentions ["fs.write", "module.import", "import"] then .internal
  else if mentions ["declassify"] then .publicData
  else .internal

def inferSinkClearance (effect : EffectBoundary) (requiredCapability : Option String)
    (dataLabel : Label) : Label :=
  match requiredCapability with
  | some capability => sinkClearanceFromCapability capability
  | none =>
    match effect with
    | .networkEffect => .publicData
    | .fsEffect => .internal
    | .readEffect | .writeEffect => .internal
    | .hostcallEffect => .internal
    | .pure => dataLabel

def isCustom : Label → Bool
  | .custom .. => true
  | _ => false

def flowRequiresRuntimeCheck (flow : Option FlowAnnotation) (capability : String) : Bool :=
  capability == "hostcall.invoke" ||
    flow.any (fun flow => isCustom flow.dataLabel || isCustom flow.sinkClearance) ||
    flow.any FlowAnnotation.declassificationRequired

structure FlowInferenceMetrics where
  totalFlowOps : Nat := 0
  staticProvenOps : Nat := 0
  runtimeCheckOps : Nat := 0

structure Inference where
  bindingLabels : OrderedMap Nat Label := .empty
  lastLabel : Label := .publicData
  metrics : FlowInferenceMetrics := {}

namespace Inference

def flowFor (inference : Inference) (op : Ir2Op) : FlowAnnotation :=
  let dataLabel := inferDataLabelForOp op.inner inference.bindingLabels inference.lastLabel
  let sinkClearance := inferSinkClearance op.effect op.requiredCapability dataLabel
  { dataLabel, sinkClearance,
    declassificationRequired := !dataLabel.canFlowTo sinkClearance }

/-- Only operations with an effect, or with a flow from their classification, are annotated. -/
def annotates (op : Ir2Op) : Bool := op.flow.isSome || op.effect != .pure

def needsRuntimeCheck (flow : FlowAnnotation) (op : Ir2Op) : Bool :=
  flow.declassificationRequired ||
    op.requiredCapability.any fun capability => flowRequiresRuntimeCheck (some flow) capability

def annotate (inference : Inference) (op : Ir2Op) : Ir2Op :=
  { op with flow := if annotates op then some (inference.flowFor op) else none }

def count (metrics : FlowInferenceMetrics) (flow : FlowAnnotation) (op : Ir2Op) :
    FlowInferenceMetrics :=
  if annotates op then
    if needsRuntimeCheck flow op then
      { metrics with
        totalFlowOps := metrics.totalFlowOps + 1
        runtimeCheckOps := metrics.runtimeCheckOps + 1 }
    else
      { metrics with
        totalFlowOps := metrics.totalFlowOps + 1
        staticProvenOps := metrics.staticProvenOps + 1 }
  else metrics

def next (inference : Inference) (op : Ir2Op) : Inference :=
  let flow := inference.flowFor op
  let bindingLabels := match op.inner with
    | .storeBinding bindingId => inference.bindingLabels.insert bindingId flow.dataLabel
    | _ => inference.bindingLabels
  -- a load of a labelled binding has inferred that label already
  { bindingLabels, lastLabel := flow.dataLabel,
    metrics := count inference.metrics flow op }

end Inference

def inferIr2FlowAnnotations : Inference → List Ir2Op → List Ir2Op × FlowInferenceMetrics
  | inference, [] => ([], inference.metrics)
  | inference, op :: rest =>
    let (ops, metrics) := inferIr2FlowAnnotations (inference.next op) rest
    (inference.annotate op :: ops, metrics)

def classified (op : Ir1Op) : Ir2Op :=
  let (effect, requiredCapability, flow) := classifyIr1Op op
  { inner := op, effect, requiredCapability, flow }

def lowerIr1ToIr2 (ir1 : Ir1Module) : Ir2Module :=
  let ops := ir1.ops.map classified
  let capabilities := ops.foldl
    (fun set op => match op.requiredCapability with
      | some capability => set.insert capability ()
      | none => set) (OrderedMap.empty : OrderedSet String)
  { ops := (inferIr2FlowAnnotations {} ops).1, requiredCapabilities := capabilities.keys }

/-!
## The flow proof artifact

With the classes and clearances of `flow_lattice.rs`, every annotated operation
is recorded as proved, denied, in need of declassification, or left to a
runtime checkpoint.
-/

inductive LabelClass where
  | publicData | internal | confidential | secret | topSecret
  deriving DecidableEq

inductive Clearance where
  | openSink | restrictedSink | auditedSink | sealedSink | neverSink
  deriving DecidableEq

namespace LabelClass

def level : LabelClass → Nat
  | .publicData => 0
  | .internal => 1
  | .confidential => 2
  | .secret => 3
  | .topSecret => 4

def fromLabel : Label → LabelClass
  | .publicData => .publicData
  | .internal => .internal
  | .confidential => .confidential
  | .secret => .secret
  | .topSecret => .topSecret
  | .custom _ level =>
    match level.toNat with
    | 0 => .publicData
    | 1 => .internal
    | 2 => .confidential
    | 3 => .secret
    | _ => .topSecret

end LabelClass

/-- The highest level that may flow to a sink without declassification. -/
def Clearance.maxLabelLevel : Clearance → Nat
  | .openSink => 4
  | .restrictedSink => 1
  | .auditedSink => 2
  | .sealedSink => 3
  | .neverSink => 0

def LabelClass.canFlowTo (source : LabelClass) (clearance : Clearance) : Bool :=
  source.level ≤ clearance.maxLabelLevel

def sinkLabelToClearance : Label → Clearance
  | .publicData => .neverSink
  | .internal => .restrictedSink
  | .confidential => .auditedSink
  | .secret => .sealedSink
  | .topSecret => .openSink
  | .custom _ level =>
    match level.toNat with
    | 0 => .neverSink
    | 1 => .restrictedSink
    | 2 => .auditedSink
    | 3 => .sealedSink
    | _ => .openSink

def flowCapabilitySupportsDeclassification (capability : String) : Bool :=
  let normalized := Chars.toAsciiLowercase capability.toList
  Chars.contains "declassify".toList normalized ||
    Chars.contains "declassification".toList normalized

def flowRequiresRuntimeCheckpoint (flow : FlowAnnotation) (capability : String) : Bool :=
  capability == "hostcall.invoke" || isCustom flow.dataLabel || isCustom flow.sinkClearance

structure FlowEntry where
  opIndex : Nat
  sourceLabel : Label
  sinkClearance : Label
  capability : Option String

structure FlowProofArtifact where
  provedFlows : List FlowEntry := []
  deniedFlows : List FlowEntry := []
  requiredDeclassifications : List FlowEntry := []
  runtimeCheckpoints : List FlowEntry := []

structure FlowRecorder where
  obligations : List (LabelClass × Clearance) := []
  artifact : FlowProofArtifact := {}

namespace FlowRecorder

def registerObligation (recorder : FlowRecorder) (op : Ir2Op) (flow : FlowAnnotation) :
    List (LabelClass × Clearance) :=
  if flow.declassificationRequired &&
      op.requiredCapability.any flowCapabilitySupportsDeclassification then
    (.fromLabel flow.dataLabel, sinkLabelToClearance flow.sinkClearance) :: recorder.obligations
  else recorder.obligations

def record (recorder : FlowRecorder) (opIndex : Nat) (op : Ir2Op) (flow : FlowAnnotation) :
    FlowRecorder :=
  let source := LabelClass.fromLabel flow.dataLabel
  let sink := sinkLabelToClearance flow.sinkClearance
  let obligations := recorder.registerObligation op flow
  let artifact := recorder.artifact
  let entry : FlowEntry :=
    { opIndex, sourceLabel := flow.dataLabel, sinkClearance := flow.sinkClearance,
      capability := op.requiredCapability }
  { obligations
    artifact :=
      if op.requiredCapability.any (flowRequiresRuntimeCheckpoint flow) then
        { artifact with runtimeCheckpoints := artifact.runtimeCheckpoints ++ [entry] }
      else if source.canFlowTo sink then
        { artifact with provedFlows := artifact.provedFlows ++ [entry] }
      else if (source, sink) ∈ obligations then
        { artifact with
          requiredDeclassifications := artifact.requiredDeclassifications ++ [entry] }
      else { artifact with deniedFlows := artifact.deniedFlows ++ [entry] } }

def recordOps : FlowRecorder → Nat → List Ir2Op → FlowRecorder
  | recorder, _, [] => recorder
  | recorder, opIndex, op :: rest =>
    match op.flow with
    | some flow => recordOps (recorder.record opIndex op flow) (opIndex + 1) rest
    | none => recordOps recorder (opIndex + 1) rest

end FlowRecorder

def buildIr2FlowProofArtifact (ir2 : Ir2Module) :
    Except LoweringPipelineError FlowProofArtifact :=
  let artifact := (FlowRecorder.recordOps {} 0 ir2.ops).artifact
  match artifact.deniedFlows.head? with
  | some denied =>
    .error (.unauthorizedFlow denied.opIndex denied.sourceLabel denied.sinkClearance)
  | none => .ok artifact

end FrankenEngine.Lowering
