import WebShader.Binary.Basic
import WebShader.Binary.Printer
import WebShader.Binary.Reader
import WebShader.Binary.Shortest
import WebShader.Binding.Layout
import WebShader.Binding.Plan
import WebShader.Builder
import WebShader.Builtin
import WebShader.Code.Lowering
import WebShader.Code.Printer
import WebShader.Code.Syntax
import WebShader.Config
import WebShader.Constructor
import WebShader.Error
import WebShader.Expression
import WebShader.Function
import WebShader.Glsl.Expression
import WebShader.Glsl.Module
import WebShader.Glsl.TypeName
import WebShader.Identifier
import WebShader.Interface
import WebShader.Intrinsic
import WebShader.Intrinsic.Call
import WebShader.Memory
import WebShader.Node
import WebShader.Operator
import WebShader.Place
import WebShader.Primitive
import WebShader.Program
import WebShader.Proofs.AcceptedArguments
import WebShader.Proofs.AddedTypes
import WebShader.Proofs.AddressedPlaces
import WebShader.Proofs.Arenas
import WebShader.Proofs.AssignedMemory
import WebShader.Proofs.AttachedScripts
import WebShader.Proofs.AuthoredScopes
import WebShader.Proofs.BindingOrder
import WebShader.Proofs.BindingPartition
import WebShader.Proofs.BindingSteps
import WebShader.Proofs.BlockExpressions
import WebShader.Proofs.BlockLayout
import WebShader.Proofs.BlockNames
import WebShader.Proofs.Bodies
import WebShader.Proofs.CallGraph
import WebShader.Proofs.CallOrder
import WebShader.Proofs.ClosedStages
import WebShader.Proofs.CodeValues
import WebShader.Proofs.Conditionals
import WebShader.Proofs.ConsistentRegistries
import WebShader.Proofs.ConstantOrder
import WebShader.Proofs.ConstantSessions
import WebShader.Proofs.ConstantValues
import WebShader.Proofs.ControlFlow
import WebShader.Proofs.Datum
import WebShader.Proofs.DeclarationReading
import WebShader.Proofs.DeclarationTexts
import WebShader.Proofs.DeclaredLayout
import WebShader.Proofs.DeclaredNames
import WebShader.Proofs.DeclaredStructs
import WebShader.Proofs.DescendingArenas
import WebShader.Proofs.DetachedBranches
import WebShader.Proofs.Endings
import WebShader.Proofs.ExactIntegers
import WebShader.Proofs.ExactLayout
import WebShader.Proofs.Executions
import WebShader.Proofs.ExpressionFaults
import WebShader.Proofs.FailedOperations
import WebShader.Proofs.FunctionNames
import WebShader.Proofs.FunctionResults
import WebShader.Proofs.Gathering
import WebShader.Proofs.GlslLegible
import WebShader.Proofs.GlslNames
import WebShader.Proofs.GlslTypes
import WebShader.Proofs.GlslValues
import WebShader.Proofs.GroupLayouts
import WebShader.Proofs.HeldTypes
import WebShader.Proofs.IndifferentRelations
import WebShader.Proofs.IntrinsicOverloads
import WebShader.Proofs.KeptReports
import WebShader.Proofs.LegibleCode
import WebShader.Proofs.LegibleLiterals
import WebShader.Proofs.LegibleStages
import WebShader.Proofs.LexicalScopes
import WebShader.Proofs.LifeCycle
import WebShader.Proofs.ListTraversal
import WebShader.Proofs.LiteralValues
import WebShader.Proofs.Lives
import WebShader.Proofs.MemoizedAccesses
import WebShader.Proofs.NameResolution
import WebShader.Proofs.NameScopes
import WebShader.Proofs.Narratives
import WebShader.Proofs.NaturalLayout
import WebShader.Proofs.Nesting
import WebShader.Proofs.OperandOrder
import WebShader.Proofs.OperationSteps
import WebShader.Proofs.Operations
import WebShader.Proofs.Outlines
import WebShader.Proofs.OverloadSelection
import WebShader.Proofs.Places
import WebShader.Proofs.PrintedCalls
import WebShader.Proofs.PrintedConstants
import WebShader.Proofs.PrintedScopes
import WebShader.Proofs.PrintedTargets
import WebShader.Proofs.PrintedValues
import WebShader.Proofs.Promotion
import WebShader.Proofs.Reachable
import WebShader.Proofs.ReachedOperations
import WebShader.Proofs.ReadTrees
import WebShader.Proofs.Rearrangements
import WebShader.Proofs.RecalledAccesses
import WebShader.Proofs.RecordedLayout
import WebShader.Proofs.Registration
import WebShader.Proofs.RegistryTables
import WebShader.Proofs.Remainders
import WebShader.Proofs.Repeatable
import WebShader.Proofs.RepeatedCalls
import WebShader.Proofs.Reports
import WebShader.Proofs.ResolvedStages
import WebShader.Proofs.ScalarTypes
import WebShader.Proofs.ScopeDiscipline
import WebShader.Proofs.Scoping
import WebShader.Proofs.ScriptCalls
import WebShader.Proofs.ScriptConstants
import WebShader.Proofs.ScriptLives
import WebShader.Proofs.ScriptReports
import WebShader.Proofs.ScriptResults
import WebShader.Proofs.ScriptScopes
import WebShader.Proofs.ScriptSessions
import WebShader.Proofs.Scripts
import WebShader.Proofs.SessionParts
import WebShader.Proofs.Sessions
import WebShader.Proofs.SourceOutlines
import WebShader.Proofs.SpelledTypes
import WebShader.Proofs.StageContents
import WebShader.Proofs.StageLinkage
import WebShader.Proofs.StagePorts
import WebShader.Proofs.StatementOutlines
import WebShader.Proofs.StatementReading
import WebShader.Proofs.StructDeclarations
import WebShader.Proofs.StructOrder
import WebShader.Proofs.StructPlacement
import WebShader.Proofs.StructuralIdentity
import WebShader.Proofs.SupportedScripts
import WebShader.Proofs.SwizzleMasks
import WebShader.Proofs.Tags
import WebShader.Proofs.TermValues
import WebShader.Proofs.TextMeaning
import WebShader.Proofs.TextReading
import WebShader.Proofs.TextTrees
import WebShader.Proofs.Tokens
import WebShader.Proofs.TypeKey
import WebShader.Proofs.TypeRegistry
import WebShader.Proofs.TypedCalls
import WebShader.Proofs.TypedExpressions
import WebShader.Proofs.TypedOperations
import WebShader.Proofs.TypedScripts
import WebShader.Proofs.TypedSteps
import WebShader.Proofs.TypingRules
import WebShader.Proofs.UnboundedLayout
import WebShader.Proofs.UncheckedTraversals
import WebShader.Proofs.Upgrade
import WebShader.Proofs.UpgradedOperations
import WebShader.Proofs.UpgradedRuns
import WebShader.Proofs.UpgradedScripts
import WebShader.Proofs.UpgradedSources
import WebShader.Proofs.VectorConstructors
import WebShader.Proofs.WgslDeclarations
import WebShader.Proofs.WgslLegible
import WebShader.Proofs.WgslNames
import WebShader.Proofs.WgslTypes
import WebShader.Proofs.WgslValues
import WebShader.Proofs.WithinReach
import WebShader.Proofs.WrappedTypes
import WebShader.Proofs.WrappedValues
import WebShader.Proofs.WrittenCalls
import WebShader.Reflection
import WebShader.Resolved
import WebShader.Resource
import WebShader.Role
import WebShader.Scope
import WebShader.Script.Run
import WebShader.Script.Step
import WebShader.Script.Transcript
import WebShader.Semantic
import WebShader.Stage
import WebShader.Statement
import WebShader.Swizzle
import WebShader.Target
import WebShader.Term
import WebShader.Texture
import WebShader.Type.Host
import WebShader.Type.Intern
import WebShader.Type.Layout
import WebShader.Type.Registry
import WebShader.Type.Shape
import WebShader.Value
import WebShader.Wgsl.Expression
import WebShader.Wgsl.Module
import WebShader.Wgsl.TypeName
