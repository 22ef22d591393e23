import RegisterMachine.Assembly.Encoding
import RegisterMachine.Assembly.Error
import RegisterMachine.Assembly.ImportGraph
import RegisterMachine.Assembly.Line
import RegisterMachine.Assembly.Link
import RegisterMachine.Assembly.SymbolTable
import RegisterMachine.Assembly.Unit
import RegisterMachine.CommandLine.Help
import RegisterMachine.CommandLine.Options
import RegisterMachine.CommandLine.Session
import RegisterMachine.Image.Basic
import RegisterMachine.Image.Codec
import RegisterMachine.Log
import RegisterMachine.Machine.Action
import RegisterMachine.Machine.Basic
import RegisterMachine.Machine.Buffer
import RegisterMachine.Machine.CallStack
import RegisterMachine.Machine.Console
import RegisterMachine.Machine.Fault
import RegisterMachine.Machine.HandleTable
import RegisterMachine.Machine.Heap
import RegisterMachine.Machine.Run
import RegisterMachine.Machine.Step
import RegisterMachine.Machine.Trace
import RegisterMachine.Machine.Variables
import RegisterMachine.Macro.Call
import RegisterMachine.Macro.Definition
import RegisterMachine.Macro.Expand
import RegisterMachine.Main
import RegisterMachine.Numeric.Binary
import RegisterMachine.Numeric.Decimal
import RegisterMachine.Numeric.Double
import RegisterMachine.Numeric.Integer
import RegisterMachine.Numeric.Single
import RegisterMachine.Numeric.Word
import RegisterMachine.Program.Basic
import RegisterMachine.Program.Listing
import RegisterMachine.Program.Opcode
import RegisterMachine.Program.Operand
import RegisterMachine.Proofs.Action
import RegisterMachine.Proofs.Assembly.Addresses
import RegisterMachine.Proofs.Assembly.Agreement
import RegisterMachine.Proofs.Assembly.Code
import RegisterMachine.Proofs.Assembly.Collection
import RegisterMachine.Proofs.Assembly.Comparison
import RegisterMachine.Proofs.Assembly.Duplicates
import RegisterMachine.Proofs.Assembly.ImportClosure
import RegisterMachine.Proofs.Assembly.ImportGraph
import RegisterMachine.Proofs.Assembly.Insertion
import RegisterMachine.Proofs.Assembly.InstructionText
import RegisterMachine.Proofs.Assembly.LetterCase
import RegisterMachine.Proofs.Assembly.Linking
import RegisterMachine.Proofs.Assembly.Listing
import RegisterMachine.Proofs.Assembly.Literals
import RegisterMachine.Proofs.Assembly.Locations
import RegisterMachine.Proofs.Assembly.OperandCounts
import RegisterMachine.Proofs.Assembly.Positions
import RegisterMachine.Proofs.Assembly.Relocation
import RegisterMachine.Proofs.Assembly.Resolution
import RegisterMachine.Proofs.Assembly.Statements
import RegisterMachine.Proofs.Assembly.WellFormed
import RegisterMachine.Proofs.Image.Codec
import RegisterMachine.Proofs.Image.RoundTrip
import RegisterMachine.Proofs.Machine.Arithmetic
import RegisterMachine.Proofs.Machine.Atomicity
import RegisterMachine.Proofs.Machine.Buffer
import RegisterMachine.Proofs.Machine.CallFaults
import RegisterMachine.Proofs.Machine.Calls
import RegisterMachine.Proofs.Machine.Faults
import RegisterMachine.Proofs.Machine.Footprint
import RegisterMachine.Proofs.Machine.HandleTable
import RegisterMachine.Proofs.Machine.HeapContents
import RegisterMachine.Proofs.Machine.HeapExhaustion
import RegisterMachine.Proofs.Machine.HeapHandles
import RegisterMachine.Proofs.Machine.HeapHistory
import RegisterMachine.Proofs.Machine.HeapTable
import RegisterMachine.Proofs.Machine.Literals
import RegisterMachine.Proofs.Machine.Lockstep
import RegisterMachine.Proofs.Machine.Memory
import RegisterMachine.Proofs.Machine.NamedScopes
import RegisterMachine.Proofs.Machine.PendingCalls
import RegisterMachine.Proofs.Machine.Reachable
import RegisterMachine.Proofs.Machine.Run
import RegisterMachine.Proofs.Machine.Setting
import RegisterMachine.Proofs.Machine.Shape
import RegisterMachine.Proofs.Machine.Soundness
import RegisterMachine.Proofs.Machine.StackScopes
import RegisterMachine.Proofs.Machine.Step
import RegisterMachine.Proofs.Macro.Blanking
import RegisterMachine.Proofs.Macro.CallText
import RegisterMachine.Proofs.Macro.Chains
import RegisterMachine.Proofs.Macro.Definition
import RegisterMachine.Proofs.Macro.DefinitionText
import RegisterMachine.Proofs.Macro.Depth
import RegisterMachine.Proofs.Macro.Expansion
import RegisterMachine.Proofs.Macro.Insertion
import RegisterMachine.Proofs.Macro.Lines
import RegisterMachine.Proofs.Macro.Order
import RegisterMachine.Proofs.Macro.Origins
import RegisterMachine.Proofs.Macro.Remainder
import RegisterMachine.Proofs.Macro.Substitution
import RegisterMachine.Proofs.Numeric.Integer
import RegisterMachine.Proofs.Program.Listing
import RegisterMachine.Proofs.Program.Operand
import RegisterMachine.Proofs.Program.WellFormed
import RegisterMachine.Proofs.Result
import RegisterMachine.Proofs.Service.Calls
import RegisterMachine.Proofs.Service.Console
import RegisterMachine.Proofs.Service.Frame
import RegisterMachine.Proofs.Service.Loading
import RegisterMachine.Proofs.Service.Memory
import RegisterMachine.Proofs.Service.Setting
import RegisterMachine.Proofs.Text.Pieces
import RegisterMachine.Proofs.Text.Rows
import RegisterMachine.Proofs.Text.Thinning
import RegisterMachine.Proofs.Text.Utf8
import RegisterMachine.Service.Allocation
import RegisterMachine.Service.Basic
import RegisterMachine.Service.Core
import RegisterMachine.Service.Standard
import RegisterMachine.Service.Variables
import RegisterMachine.Source.File
import RegisterMachine.Source.FileTree
import RegisterMachine.Source.Loading
import RegisterMachine.Source.Manifest
import RegisterMachine.Text.Basic
import RegisterMachine.Text.Escaped
import RegisterMachine.Text.Quoted
import RegisterMachine.Text.Unshown
import RegisterMachine.Text.Utf8
