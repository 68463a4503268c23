import NeuralMesh.Js.NumberText
import NeuralMesh.Js.StringText
import NeuralMesh.Js.Value
import NeuralMesh.Js.Parse
import NeuralMesh.Js.Double
import NeuralMesh.Js.RoundTrip
import NeuralMesh.Codec.Base64
import NeuralMesh.Codec.Utf8
import NeuralMesh.Js.KeyOrder
import NeuralMesh.Js.Object
import NeuralMesh.Crypto.Dilithium
import NeuralMesh.Crypto.ManifestSignature
import NeuralMesh.Server.ManifestProvider
import NeuralMesh.Server.ManifestTransport
import NeuralMesh.Transition
import NeuralMesh.Answers
import NeuralMesh.SlidingWindow
import NeuralMesh.Gateway.ManifestCache
import NeuralMesh.Sandbox.NullPrototype
import NeuralMesh.Js.Trim
import NeuralMesh.Js.Regex
import NeuralMesh.Js.RegExpExec
import NeuralMesh.Js.RegExpSource
import NeuralMesh.Crypto.LogicImageId
import NeuralMesh.Server.ExtractLogic
import NeuralMesh.Server.PreflightSource
import NeuralMesh.Codec.Hex
import NeuralMesh.Worker.ImageId
import NeuralMesh.Worker.ZkVerifier
import NeuralMesh.Js.Graph
import NeuralMesh.Server.OutputSanitizer
import NeuralMesh.Server.SanitizedTwice
import NeuralMesh.Worker.LogicExecution
import NeuralMesh.Server.SemanticEvidence
import NeuralMesh.Js.Document
import NeuralMesh.Js.Encoding
import NeuralMesh.Js.TextLength
import NeuralMesh.Server.AggregationPolicy
import NeuralMesh.Server.AggregationBounds
import NeuralMesh.Server.PatternRules
import NeuralMesh.Server.CreditCards
import NeuralMesh.Server.PiiScanner
import NeuralMesh.Server.PiiKeys
import NeuralMesh.Server.BoundaryPattern
import NeuralMesh.Server.TokenConventions
import NeuralMesh.Server.PiiGraph
import NeuralMesh.Server.SanitizedGraph
import NeuralMesh.Server.OutputPolicy
import NeuralMesh.Server.Egress
import NeuralMesh.Server.Release
import NeuralMesh.Server.QueryBudget
import NeuralMesh.Server.ExecuteLogic
import NeuralMesh.Server.PolicyRuns
import NeuralMesh.Server.BudgetRuns
import NeuralMesh.Gateway.Transcoding
import NeuralMesh.Sandbox.DatasetBinding
import NeuralMesh.Worker.SeededNoise
import NeuralMesh.Js.Reading
import NeuralMesh.Gateway.ProxyExtraction
import NeuralMesh.Gateway.ProxyName
import NeuralMesh.Gateway.ProxyPrefix
import NeuralMesh.Worker.LiteralOutput
import NeuralMesh.Js.ExactNumber
import NeuralMesh.Worker.DpEngine
import NeuralMesh.Worker.NoisyShape
import NeuralMesh.Worker.CountKeys
import NeuralMesh.Worker.NoiseDraws
import NeuralMesh.Gateway.ProxiedCall
import NeuralMesh.Parsing.Predictive
import NeuralMesh.Js.Lexer
import NeuralMesh.Js.ScriptGrammar
import NeuralMesh.Security.ParseFailure
import NeuralMesh.Server.BudgetTables
import NeuralMesh.Server.BudgetHistory
import NeuralMesh.Server.BudgetStore
import NeuralMesh.Server.BudgetFailures
import NeuralMesh.Server.BudgetLock
import NeuralMesh.Node.Sessions
import NeuralMesh.Node.ZkReceipt
import NeuralMesh.Gateway.RateLimiter
import NeuralMesh.Gateway.McpRequest
import NeuralMesh.Gateway.Admission
import NeuralMesh.Codec.Pieces
import NeuralMesh.Gateway.Segmentation
import NeuralMesh.Gateway.ToolNames
import NeuralMesh.Server.Revocation
import NeuralMesh.Security.EsTree
import NeuralMesh.Security.Guardian
import NeuralMesh.Security.ZkReceipts
import NeuralMesh.Security.TaintAnalysis
import NeuralMesh.Node.Handshakes
import NeuralMesh.Client.SealedRequest
import NeuralMesh.Chain
import NeuralMesh.Codec.JsonLines
import NeuralMesh.Security.AuditLogger
import NeuralMesh.Security.AuditTampering
import NeuralMesh.Traced
import NeuralMesh.Saturation
import NeuralMesh.Security.TaintMonotone
import NeuralMesh.Js.Scopes
import NeuralMesh.Security.LogicProgram
import NeuralMesh.Security.TaintClosure
import NeuralMesh.Security.CorrelationGuard
import NeuralMesh.Security.RecordShapes
import NeuralMesh.Security.ChargedFields
import NeuralMesh.Security.Noninterference
import NeuralMesh.Node.RateLimits
import NeuralMesh.Server.RateLimits
import NeuralMesh.Server.RefusedCalls
import NeuralMesh.Gateway.FixedWindow
import NeuralMesh.Gateway.Housekeeping
import NeuralMesh.Security.AuditWrites
import NeuralMesh.Security.CertManager
import NeuralMesh.Server.StoredAnswers
import NeuralMesh.Server.BudgetReset
import NeuralMesh.Server.Throttle
import NeuralMesh.Draining
import NeuralMesh.Codec.LengthPrefixed
import NeuralMesh.Gateway.GrpcWeb
import NeuralMesh.Rpc.LpmCodec
import NeuralMesh.Codec.Truncation
import NeuralMesh.Mesh.ManifestFraming
import NeuralMesh.Mesh.DialBreaker
import NeuralMesh.Mesh.Reannouncement
import NeuralMesh.Security.Rbac
import NeuralMesh.Security.IssuerAliases
import NeuralMesh.Bridge.ReceiptCheck
import NeuralMesh.Bridge.SessionCap
import NeuralMesh.Codec.FieldText
import NeuralMesh.Observability.Metrics
import NeuralMesh.InsertionMap
import NeuralMesh.Node.PushEvent
import NeuralMesh.Observability.Histogram
import NeuralMesh.Checksum
import NeuralMesh.Server.Checksums
import NeuralMesh.Codec.Exposition
import NeuralMesh.Codec.ExpositionText
import NeuralMesh.Observability.PrometheusText
import NeuralMesh.Backoff
import NeuralMesh.Gateway.Discovery
import NeuralMesh.Gateway.DiscoveryRuns
import NeuralMesh.Gateway.DiscoveryQueries
import NeuralMesh.Gateway.ToolNotifications
import NeuralMesh.Observability.Traceparent
import NeuralMesh.FirstOffer
import NeuralMesh.Server.ResourceRegistry
import NeuralMesh.Gateway.ResourceAgreement
import NeuralMesh.Gateway.NodeTokens
import NeuralMesh.Gateway.TokenRouting
import NeuralMesh.Gateway.TokenProvenance
import NeuralMesh.Client.Connections
import NeuralMesh.Client.ConnectionRuns
import NeuralMesh.Js.Indented
import NeuralMesh.Codec.TornText
import NeuralMesh.Mesh.RoutingTable
import NeuralMesh.Server.BudgetFile
import NeuralMesh.Server.AuthGate
import NeuralMesh.Server.AuthorizedRuns
import NeuralMesh.Gateway.McpDispatch
import NeuralMesh.Gateway.AgentStdio
import NeuralMesh.Mesh.Identity
import NeuralMesh.Gateway.GrpcWebDispatch
