import SE101.Lib.CString
import SE101.Lib.Hexadecimal
import SE101.Lib.Interaction
import SE101.Lib.Lifecycle
import SE101.Lib.Lines
import SE101.Lib.LinkedList
import SE101.Lib.LittleEndian
import SE101.Lib.Numeral
import SE101.Lib.ObjectStore
import SE101.Lib.Quoting
import SE101.Lib.Reachability
import SE101.Lib.Scan
import SE101.Lib.Scanf
import SE101.Lib.Semaphore
import SE101.Lib.Simulation
import SE101.Malloc.Allocate
import SE101.Malloc.Allocator
import SE101.Malloc.Break
import SE101.Malloc.Carve
import SE101.Malloc.Check
import SE101.Malloc.Client
import SE101.Malloc.Coalesce
import SE101.Malloc.Consistency
import SE101.Malloc.Contract
import SE101.Malloc.Extend
import SE101.Malloc.Fit
import SE101.Malloc.Free
import SE101.Malloc.FreeLists
import SE101.Malloc.FreeOrder
import SE101.Malloc.Heap
import SE101.Malloc.Layout
import SE101.Malloc.Leaks
import SE101.Malloc.Mdriver
import SE101.Malloc.Objects
import SE101.Malloc.Place
import SE101.Malloc.Ranges
import SE101.Malloc.Realloc
import SE101.Malloc.Replay
import SE101.Malloc.Runs
import SE101.Malloc.Sizes
import SE101.Malloc.Slack
import SE101.Malloc.SpecialSizes
import SE101.Malloc.Speculation
import SE101.Malloc.Termination
import SE101.Malloc.TraceFile
import SE101.Malloc.Utilization
import SE101.Malloc.Walks
import SE101.Malloc.WellFormed
import SE101.Proxy.Buffer
import SE101.Proxy.Closing
import SE101.Proxy.Concurrency
import SE101.Proxy.Doit
import SE101.Proxy.LogEntry
import SE101.Proxy.Logging
import SE101.Proxy.Relay
import SE101.Proxy.Request
import SE101.Proxy.RequestLine
import SE101.Proxy.Response
import SE101.Proxy.Rio
import SE101.Proxy.Server
import SE101.Proxy.Sockets
import SE101.Proxy.Survival
import SE101.Proxy.Transfers
import SE101.Proxy.Transparency
import SE101.Proxy.Uri
import SE101.Proxy.UriParts
import SE101.Tsh.Command
import SE101.Tsh.DoBgfg
import SE101.Tsh.Foreground
import SE101.Tsh.JobIds
import SE101.Tsh.Jobs
import SE101.Tsh.Keyboard
import SE101.Tsh.Listed
import SE101.Tsh.Listing
import SE101.Tsh.Looked
import SE101.Tsh.Parseline
import SE101.Tsh.Pids
import SE101.Tsh.Reaping
import SE101.Tsh.Shell
import SE101.Tsh.Sound
import SE101.Tsh.Waitpid
import SE101.Tsh.Wakeup
import SE101.Y64.Bounds
import SE101.Y64.Bytes
import SE101.Y64.Comparison
import SE101.Y64.CondCodes
import SE101.Y64.Encoding
import SE101.Y64.Faults
import SE101.Y64.Isa
import SE101.Y64.Reference
import SE101.Y64.Refinement
import SE101.Y64.Report
import SE101.Y64.Run
import SE101.Y64.Sim
import SE101.Y64.SimMemory
import SE101.Y64.Validity
import SE101.Y64Asm.Accepted
import SE101.Y64Asm.Agreement
import SE101.Y64Asm.Align
import SE101.Y64Asm.Assembler
import SE101.Y64Asm.Entries
import SE101.Y64Asm.Execution
import SE101.Y64Asm.Grammar
import SE101.Y64Asm.Image
import SE101.Y64Asm.Lexer
import SE101.Y64Asm.Lines
import SE101.Y64Asm.Listing
import SE101.Y64Asm.Literals
import SE101.Y64Asm.Machine
import SE101.Y64Asm.Reading
import SE101.Y64Asm.Relocation
import SE101.Y64Asm.Source
import SE101.Y64Asm.SourceLines
import SE101.Y64Asm.Spelling
import SE101.Y64Asm.Terminators
import SE101.Y64Asm.Tokens
import SE101.Y64Asm.TwoPass
