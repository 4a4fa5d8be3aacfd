import FrankenEngine.Authority.DelegationProperties
import FrankenEngine.Authority.ThresholdProperties
import FrankenEngine.Bytecode.CacheProperties
import FrankenEngine.Checkpoint.ForkDetectionProperties
import FrankenEngine.Checkpoint.LinkageProperties
import FrankenEngine.Esm.CellLifetimes
import FrankenEngine.Esm.Evaluation
import FrankenEngine.Evidence.Ordering
import FrankenEngine.Interpreter.Sessions
import FrankenEngine.Interpreter.UnwindProperties
import FrankenEngine.Lexer.CountProperties
import FrankenEngine.Lexer.ParityProperties
import FrankenEngine.Lexer.SpanProperties
import FrankenEngine.Lowering.FlowProperties
import FrankenEngine.Marker.StreamProperties
import FrankenEngine.Memory.AccountingProperties
import FrankenEngine.Mmr.ProofProperties
import FrankenEngine.Modules.AsyncEvaluationProperties
import FrankenEngine.Modules.CacheProperties
import FrankenEngine.Modules.EvaluationOrder
import FrankenEngine.Modules.ResolverProperties
import FrankenEngine.Object.ForInProperties
import FrankenEngine.Object.Proxy
import FrankenEngine.Promise.EventLoop
import FrankenEngine.Promise.QueueProperties
import FrankenEngine.Promise.ReactionProperties
import FrankenEngine.Reconcile.Fallback
import FrankenEngine.RegExp.LanguageProperties
import FrankenEngine.Remote.BarrierProperties
import FrankenEngine.Remote.IdempotencyProperties
import FrankenEngine.Resolution.InvalidationProperties
import FrankenEngine.Resolution.SnapshotProperties
import FrankenEngine.Revocations.ChainProperties
import FrankenEngine.Sagas.CompensationProperties
import FrankenEngine.Scheduling.LaneProperties
import FrankenEngine.StaticAnalysis.CapabilityProperties
