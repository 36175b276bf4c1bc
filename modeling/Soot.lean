import Soot.Computation.Machine
import Soot.Computation.StateExcept
import Soot.Analysis.EmitStable
import Soot.Analysis.Resolve
import Soot.Analysis.EmitInversion
import Soot.Model.Layout
import Soot.Model.Source
import Soot.Program.Instruction
import Soot.Program.Variant
import Soot.Program.VirtualMachine
import Soot.Program.StringId
import Soot.Program.Node
import Soot.Program.FunctionNode
import Soot.Program.Emit
import Soot.Analysis.EmitLayout
import Soot.Analysis.Steps
import Soot.Analysis.Simulation
import Soot.Analysis.Prologue
import Soot.Analysis.BodyCorrect
import Soot.Analysis.EmitRequests
import Soot.Analysis.ConstantPool
import Soot.Program.Object
import Soot.Program.TypeSystem
import Soot.Analysis.ConstantFolding
import Soot.Analysis.Loading
import Soot.Analysis.Unloading
import Soot.Computation.StatefulExcept
import Soot.Program.FileNode
import Soot.Analysis.Subtyping
import Soot.Analysis.MethodTables
import Soot.Analysis.FieldLayout
import Soot.Analysis.CompileCalls
import Soot.Analysis.Rollback
import Soot.Program.Arena
import Soot.Program.Collector
import Soot.Computation.Marking
import Soot.Model.Heap
import Soot.Analysis.HeapRuns
import Soot.Analysis.Passes
import Soot.Program.Containers
import Soot.Analysis.Mutation
import Soot.Analysis.MutatorRuns
import Soot.Program.Reentry
import Soot.Analysis.Reentry
import Soot.Program.Carbon
import Soot.Model.Modules
import Soot.Analysis.ModuleRuns
import Soot.Program.StateScripts
import Soot.Model.StateScripts
import Soot.Analysis.ScriptLayout
import Soot.Analysis.ScriptLinking
import Soot.Computation.Recording
import Soot.Program.Process
import Soot.Program.Scheduler
import Soot.Model.KernelSteps
import Soot.Model.Processes
import Soot.Analysis.KernelRuns
import Soot.Analysis.CurrentProcess
import Soot.Analysis.Queues
import Soot.Analysis.Stacks
import Soot.Analysis.Ticks
import Soot.Program.HeapTypes
import Soot.Analysis.HeapTypes
import Soot.Computation.DepthFirst
import Soot.Analysis.LoadOrder
import Soot.Computation.Texts
import Soot.Program.RemoteRuntime
import Soot.Model.RemoteCall
import Soot.Analysis.RemoteCall
import Soot.Program.Script.Object
import Soot.Program.Script.Arguments
import Soot.Program.Script.Interpreter
import Soot.Model.Script.Evaluation
import Soot.Analysis.Script.Application
import Soot.Program.Script.Reader
import Soot.Model.Script.Texts
import Soot.Analysis.Script.Reading
import Soot.Analysis.Script.Tokens
import Soot.Analysis.Script.RoundTrip
import Soot.Computation.Probing
import Soot.Program.Script.Tables
import Soot.Model.Script.Tables
import Soot.Analysis.Script.EnvironmentMap
import Soot.Analysis.Script.Binding
import Soot.Program.Script.Quasiquote
import Soot.Analysis.Script.Quasiquote
import Soot.Program.ProcessTree
import Soot.Model.ProcessForest
import Soot.Analysis.ProcessForest
import Soot.Program.Timeline
import Soot.Model.Timeline
import Soot.Analysis.Timeline
import Soot.Computation.Archives
import Soot.Program.Script.Archive
import Soot.Model.Script.Archive
import Soot.Analysis.Script.Archive
import Soot.Analysis.Finished
import Soot.Analysis.Script.SymbolTable
import Soot.Analysis.Script.Checks
import Soot.Analysis.Script.HashTable
import Soot.Analysis.Script.Strings
import Soot.Computation.Lines
import Soot.Program.Script.SourceText
import Soot.Analysis.Script.SourceText
import Soot.Computation.Wrapping
import Soot.Program.Script.Numbers
import Soot.Analysis.Script.Arithmetic
import Soot.Model.Addressing
import Soot.Analysis.Addressing
import Soot.Program.ContainerCalls
import Soot.Model.ContainerTags
import Soot.Analysis.ContainerTags
import Soot.Model.Branches
import Soot.Analysis.Branches
import Soot.Computation.Records
import Soot.Program.ScriptElements
import Soot.Analysis.ScriptElements
import Soot.Computation.Pooling
import Soot.Program.DataSegment
import Soot.Model.StringPool
import Soot.Analysis.StringPool
import Soot.Program.TypeQueries
import Soot.Model.TypeQueries
import Soot.Analysis.Signatures
import Soot.Analysis.Bitfields
import Soot.Analysis.ForwardDeclarations
import Soot.Computation.Best
import Soot.Program.MethodOwners
import Soot.Model.MethodTables
import Soot.Analysis.MethodOwners
import Soot.Computation.CommonAncestors
import Soot.Analysis.CommonAncestors
import Soot.Model.MachineSteps
import Soot.Analysis.IntegerSteps
import Soot.Analysis.TypedMemory
import Soot.Computation.CallStacks
import Soot.Analysis.CallFrames
import Soot.Computation.Collecting
import Soot.Analysis.ReverseLookup
import Soot.Analysis.JsonText
import Soot.Analysis.SidTables
import Soot.Analysis.MemoryRegion
import Soot.Analysis.ElementPayload
import Soot.Analysis.ProjectFiles
import Soot.Analysis.TypeMaps
import Soot.Analysis.DeftypeAsserts
import Soot.Analysis.Utf8
import Soot.Analysis.TrieWithDuplicates
import Soot.Analysis.FrameTree
import Soot.Analysis.Engine
import Soot.Analysis.Repl
