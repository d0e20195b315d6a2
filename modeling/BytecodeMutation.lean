import BytecodeMutation.Archive
import BytecodeMutation.Archive.Bzip2
import BytecodeMutation.Archive.Directory
import BytecodeMutation.Archive.Entry
import BytecodeMutation.Archive.Inflate
import BytecodeMutation.Archive.Lzma
import BytecodeMutation.Archive.PrefixCode
import BytecodeMutation.Archive.Words
import BytecodeMutation.Assembly
import BytecodeMutation.Assembly.Frames
import BytecodeMutation.Assembly.Placement
import BytecodeMutation.Assembly.PoolTail
import BytecodeMutation.Assembly.Tables
import BytecodeMutation.Block
import BytecodeMutation.Bytes
import BytecodeMutation.CharSet
import BytecodeMutation.ClassFile.Attribute
import BytecodeMutation.ClassFile.Basic
import BytecodeMutation.ClassFile.Constant
import BytecodeMutation.ClassFile.Frame
import BytecodeMutation.ClassFile.Parse
import BytecodeMutation.ClassFile.Pool
import BytecodeMutation.ClassFile.Span
import BytecodeMutation.ClassFile.Structure
import BytecodeMutation.ClassInput
import BytecodeMutation.CommandLine.Arguments
import BytecodeMutation.CommandLine.Run
import BytecodeMutation.Config
import BytecodeMutation.Descriptor
import BytecodeMutation.Engine
import BytecodeMutation.Error
import BytecodeMutation.Fault
import BytecodeMutation.FileTree
import BytecodeMutation.Filter
import BytecodeMutation.Filter.InlinedFinally
import BytecodeMutation.Filter.Range
import BytecodeMutation.Instruction.Basic
import BytecodeMutation.Instruction.Decode
import BytecodeMutation.Instruction.Encode
import BytecodeMutation.Instruction.Format
import BytecodeMutation.Json
import BytecodeMutation.Json.Read
import BytecodeMutation.Main
import BytecodeMutation.Method
import BytecodeMutation.Mutation
import BytecodeMutation.Mutation.Record
import BytecodeMutation.Opcode
import BytecodeMutation.Operator
import BytecodeMutation.Operator.Arithmetic
import BytecodeMutation.Operator.Calls
import BytecodeMutation.Operator.Conditionals
import BytecodeMutation.Operator.Selection
import BytecodeMutation.PathName
import BytecodeMutation.Pattern.Bracket
import BytecodeMutation.Pattern.Compile
import BytecodeMutation.Pattern.Escape
import BytecodeMutation.Pattern.Flags
import BytecodeMutation.Pattern.Match
import BytecodeMutation.Pattern.Parse
import BytecodeMutation.Pattern.Syntax
import BytecodeMutation.Proofs.Addressing
import BytecodeMutation.Proofs.AlignedTables
import BytecodeMutation.Proofs.Application
import BytecodeMutation.Proofs.Arrangement
import BytecodeMutation.Proofs.Canonical
import BytecodeMutation.Proofs.Chaining
import BytecodeMutation.Proofs.Codec
import BytecodeMutation.Proofs.Commuting
import BytecodeMutation.Proofs.ControlFlow
import BytecodeMutation.Proofs.Copies
import BytecodeMutation.Proofs.Coverage
import BytecodeMutation.Proofs.Decisions
import BytecodeMutation.Proofs.Descriptors
import BytecodeMutation.Proofs.Differences
import BytecodeMutation.Proofs.ElementValues
import BytecodeMutation.Proofs.Emission
import BytecodeMutation.Proofs.Execution
import BytecodeMutation.Proofs.Failures
import BytecodeMutation.Proofs.Filtering
import BytecodeMutation.Proofs.Fixpoint
import BytecodeMutation.Proofs.FrameTables
import BytecodeMutation.Proofs.Frames
import BytecodeMutation.Proofs.Grouping
import BytecodeMutation.Proofs.Independence
import BytecodeMutation.Proofs.Indexes
import BytecodeMutation.Proofs.Keeping
import BytecodeMutation.Proofs.Layout
import BytecodeMutation.Proofs.Limits
import BytecodeMutation.Proofs.LineSearch
import BytecodeMutation.Proofs.Lines
import BytecodeMutation.Proofs.Listing
import BytecodeMutation.Proofs.Methods
import BytecodeMutation.Proofs.Ordering
import BytecodeMutation.Proofs.Outlines
import BytecodeMutation.Proofs.Overflow
import BytecodeMutation.Proofs.Parsing
import BytecodeMutation.Proofs.Persistence
import BytecodeMutation.Proofs.Pieces
import BytecodeMutation.Proofs.Placing
import BytecodeMutation.Proofs.PoolGrowth
import BytecodeMutation.Proofs.PoolWalk
import BytecodeMutation.Proofs.Ranges
import BytecodeMutation.Proofs.Readers
import BytecodeMutation.Proofs.Relocation
import BytecodeMutation.Proofs.Replacements
import BytecodeMutation.Proofs.Requests
import BytecodeMutation.Proofs.Results
import BytecodeMutation.Proofs.Returning
import BytecodeMutation.Proofs.Rewriting
import BytecodeMutation.Proofs.Scanning
import BytecodeMutation.Proofs.Shapes
import BytecodeMutation.Proofs.Slots
import BytecodeMutation.Proofs.Sources
import BytecodeMutation.Proofs.Spanning
import BytecodeMutation.Proofs.Splice
import BytecodeMutation.Proofs.StackEffects
import BytecodeMutation.Proofs.StackTypes
import BytecodeMutation.Proofs.Standing
import BytecodeMutation.Proofs.Strings
import BytecodeMutation.Proofs.Structures
import BytecodeMutation.Proofs.Suppression
import BytecodeMutation.Proofs.Tables
import BytecodeMutation.Proofs.Tiling
import BytecodeMutation.Proofs.Visit
import BytecodeMutation.Proofs.Widening
import BytecodeMutation.Proofs.Writing
import BytecodeMutation.Reader
import BytecodeMutation.Report
import BytecodeMutation.Scan
import BytecodeMutation.Text
import BytecodeMutation.Text.Lossy
import BytecodeMutation.Text.ModifiedUtf8
import BytecodeMutation.Toml
import BytecodeMutation.Unicode.Age
import BytecodeMutation.Unicode.Breaks
import BytecodeMutation.Unicode.CaseVariants
import BytecodeMutation.Unicode.Category
import BytecodeMutation.Unicode.Property
import BytecodeMutation.Unicode.Query
import BytecodeMutation.Unicode.Script
import BytecodeMutation.Unicode.Table
