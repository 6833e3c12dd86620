import SproutLang.Library.Exec
import SproutLang.Library.Fuel
import SproutLang.Library.Memory
import SproutLang.Library.Ownership
import SproutLang.Library.Runs
import SproutLang.Library.Leads
import SproutLang.Library.Positions
import SproutLang.Library.Fields
import SproutLang.Library.CheckedInt
import SproutLang.Library.BigEndian
import SproutLang.Library.Lexing
import SproutLang.Library.Outline
import SproutLang.Library.Arena
import SproutLang.Shared.Values
import SproutLang.VM.State
import SproutLang.VM.Heap.Collector
import SproutLang.VM.Heap.Layout
import SproutLang.VM.Heap.Alloc
import SproutLang.VM.Heap.Arrays
import SproutLang.VM.Execution
import SproutLang.VM.Effects
import SproutLang.VM.Heap.ArrayStore
import SproutLang.VM.Heap.AccessCheck
import SproutLang.VM.Heap.ArrayAllocation
import SproutLang.VM.Heap.Marking
import SproutLang.VM.Heap.Evacuation
import SproutLang.VM.Heap.Collection
import SproutLang.VM.Heap.Exactness
import SproutLang.VM.Heap.TwoSpace
import SproutLang.VM.Heap.ObjectGraph
import SproutLang.VM.Heap.ArrayLayout
import SproutLang.VM.Loader
import SproutLang.VM.RootValidity
import SproutLang.VM.HeapLimit
import SproutLang.VM.Heap.CollectorFrame
import SproutLang.VM.IntArithmetic
import SproutLang.VM.ValueClasses
import SproutLang.VM.UserSpace
import SproutLang.VM.PointerMoves
import SproutLang.VM.Calls
import SproutLang.VM.Frames
import SproutLang.VM.Boundaries
import SproutLang.VM.TypedMachine
import SproutLang.VM.TypedRefinement
import SproutLang.VM.TypedRuns
import SproutLang.VM.ObjectMachine
import SproutLang.VM.ObjectRelation
import SproutLang.VM.ObjectRefinement
import SproutLang.VM.ObjectRuns
import SproutLang.VM.Faults
import SproutLang.VM.Ownership
import SproutLang.VM.Heap.Footprint
import SproutLang.Assembler.Python
import SproutLang.Assembler.Assembler
import SproutLang.VM.InstructionStream
import SproutLang.VM.FunctionTable
import SproutLang.Assembler.Source
import SproutLang.Assembler.Mnemonics
import SproutLang.Assembler.Lines
import SproutLang.Assembler.Ascii
import SproutLang.Assembler.Emission
import SproutLang.Assembler.Linking
import SproutLang.Assembler.Labels
import SproutLang.Assembler.Syntax
import SproutLang.Assembler.Diagnostics
import SproutLang.Assembler.Agreement
import SproutLang.Assembler.FunctionTable
import SproutLang.Assembler.Frames
import SproutLang.Assembler.Listing
import SproutLang.Assembler.Boundaries
import SproutLang.Assembler.Tokens
import SproutLang.Assembler.Literals
import SproutLang.Assembler.Meaning
import SproutLang.Assembler.SourceMachine
import SproutLang.Assembler.Placement
import SproutLang.Assembler.SourceSimulation
import SproutLang.Assembler.SourceRuns
import SproutLang.Compiler.Tree
import SproutLang.Compiler.MemManager
import SproutLang.Compiler.Parser
import SproutLang.Compiler.Lexer
import SproutLang.Compiler.Reading
import SproutLang.Compiler.Statements
import SproutLang.Compiler.Termination
import SproutLang.Compiler.Grammar
import SproutLang.Compiler.Programs
import SproutLang.Compiler.Lexemes
import SproutLang.Compiler.Terminals
import SproutLang.Compiler.Printing
import SproutLang.Compiler.Ebnf
import SproutLang.Compiler.Composition
import SproutLang.Compiler.Accounting
import SproutLang.Compiler.Dump
import SproutLang.Compiler.Connectives
import SproutLang.Compiler.SourceTexts
import SproutLang.Compiler.Compile
import SproutLang.Programs.Template
import SproutLang.Programs.Matmul
import SproutLang.Programs.Collatz
import SproutLang.VM.SpaceSafety
