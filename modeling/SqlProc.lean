import SqlProc.Base.Bytes
import SqlProc.Base.Numbers
import SqlProc.Base.Checked
import SqlProc.Base.Limits
import SqlProc.Base.Exec
import SqlProc.Base.Errors
import SqlProc.Base.Lockstep
import SqlProc.Base.File
import SqlProc.Support.Records
import SqlProc.Support.Machine
import SqlProc.Support.SortedEntries
import SqlProc.Support.BPlusTree
import SqlProc.Support.BPlusInsert
import SqlProc.Index.Node
import SqlProc.Index.Holds
import SqlProc.Index.Refine
import SqlProc.Index.Map
import SqlProc.Index.Range
import SqlProc.Index.Visits
import SqlProc.Index.Failure
import SqlProc.Index.Destroy
import SqlProc.Index.Shape
import SqlProc.Index.Grow
import SqlProc.Index.Memory
import SqlProc.Index.PkIndex
import SqlProc.Schema.Load
import SqlProc.Schema.Format
import SqlProc.Front.Statement
import SqlProc.Front.Tokenizer
import SqlProc.Front.Parser
import SqlProc.Front.Syntax
import SqlProc.Front.Lexing
import SqlProc.Front.RoundTrip
import SqlProc.Front.Grammar
import SqlProc.Front.Positions
import SqlProc.Front.Places
import SqlProc.Front.Scripts
import SqlProc.Storage.Csv
import SqlProc.Storage.CsvMemory
import SqlProc.Storage.Table
import SqlProc.Storage.Rows
import SqlProc.Storage.Print
import SqlProc.Storage.Rebuild
import SqlProc.Storage.Append
import SqlProc.Storage.WholeLines
import SqlProc.Storage.WellFormed
import SqlProc.Storage.LinearChecks
import SqlProc.Storage.EntryPoints
import SqlProc.Storage.SameOn
import SqlProc.Executor.Execute
import SqlProc.Executor.Slots
import SqlProc.Executor.Insert
import SqlProc.Executor.Cells
import SqlProc.Executor.Errors
import SqlProc.Executor.Places
import SqlProc.Executor.Frame
import SqlProc.Executor.Steps
import SqlProc.Executor.AutoId
import SqlProc.Executor.ExplicitId
import SqlProc.Executor.Atomic
import SqlProc.Executor.Consistency
import SqlProc.Executor.Select
import SqlProc.Executor.Reopen
import SqlProc.Executor.NextId
import SqlProc.Executor.Isolation
import SqlProc.Executor.ReadBack
import SqlProc.Executor.Reorder
import SqlProc.Executor.WhereScan
import SqlProc.Executor.Lookup
import SqlProc.Relational.Database
import SqlProc.Relational.Values
import SqlProc.Relational.Table
import SqlProc.Relational.Insert
import SqlProc.Relational.Select
import SqlProc.App.Interactive
import SqlProc.App.Benchmark
import SqlProc.App.Main
import SqlProc.Relational.Session
import SqlProc.Relational.Files
import SqlProc.Relational.Capacity
import SqlProc.Relational.Restart
import SqlProc.Relational.Programs
import SqlProc.Relational.Process
import SqlProc.Relational.Scripts
import SqlProc.Relational.Benchmark
