import UpToDate.Bytes
import UpToDate.Diagnostic.Basic
import UpToDate.Diagnostic.Severity
import UpToDate.Diagnostic.Sink
import UpToDate.Dict
import UpToDate.Digest.Basic
import UpToDate.Digest.XXH3
import UpToDate.Disk.Basic
import UpToDate.Disk.Folder
import UpToDate.Disk.Locate
import UpToDate.Disk.Operations
import UpToDate.Disk.Path
import UpToDate.Execution.Attempt
import UpToDate.Execution.Engine
import UpToDate.Execution.Outcome
import UpToDate.Execution.Report
import UpToDate.Execution.Work
import UpToDate.FileTree.Basic
import UpToDate.FileTree.Entry
import UpToDate.FileTree.Inspect
import UpToDate.FileTree.Leaf
import UpToDate.FileTree.PatternSet
import UpToDate.FileTree.Visit
import UpToDate.Glob.Match
import UpToDate.Glob.Pattern
import UpToDate.History.Changes
import UpToDate.History.Codec
import UpToDate.History.Fingerprint
import UpToDate.History.State
import UpToDate.History.Store
import UpToDate.Proofs.Dict
import UpToDate.Proofs.Disk.Growth
import UpToDate.Proofs.Disk.Named
import UpToDate.Proofs.Disk.Nodes
import UpToDate.Proofs.Disk.Paths
import UpToDate.Proofs.Disk.Routes
import UpToDate.Proofs.Execution.Attempt
import UpToDate.Proofs.Execution.Course
import UpToDate.Proofs.Execution.Exits
import UpToDate.Proofs.Execution.Inputs
import UpToDate.Proofs.FileTree.Sightings
import UpToDate.Proofs.FileTree.Visit
import UpToDate.Proofs.History.Calls
import UpToDate.Proofs.History.Changes
import UpToDate.Proofs.History.Codec
import UpToDate.Proofs.History.Files
import UpToDate.Proofs.History.Fingerprint
import UpToDate.Proofs.History.Names
import UpToDate.Proofs.History.Store
import UpToDate.Proofs.Script
import UpToDate.Script
import UpToDate.Settings.Basic
import UpToDate.Settings.Check
import UpToDate.Settings.Decode
import UpToDate.Text.Blank
import UpToDate.Text.Capital
import UpToDate.Text.Quoted
import UpToDate.Text.Visible
import UpToDate.Toml.Datetime
import UpToDate.Toml.Document
import UpToDate.Toml.Number
import UpToDate.Toml.Quoted
import UpToDate.Toml.Reader
import UpToDate.Toml.Statement
import UpToDate.Toml.Table
import UpToDate.Toml.Value
import UpToDate.Proofs.History.Format
import UpToDate.Proofs.History.Damage
import UpToDate.Proofs.FileTree.Composition
import UpToDate.Proofs.FileTree.Listed
import UpToDate.Proofs.Glob.Reading
import UpToDate.Proofs.Glob.Below
import UpToDate.Proofs.Settings.Trees
import UpToDate.Proofs.Text.Capital
import UpToDate.Proofs.Settings.Refusals
import UpToDate.Proofs.Result
import UpToDate.Proofs.Disk.Ahead
import UpToDate.Proofs.Execution.Records
import UpToDate.Proofs.Disk.Looks
import UpToDate.Proofs.Disk.Parents
import UpToDate.Proofs.Interleaving
import UpToDate.Proofs.Disk.Making
import UpToDate.Proofs.Disk.Confined
import UpToDate.Proofs.Disk.Entries
import UpToDate.Proofs.Disk.Sharing
import UpToDate.Proofs.History.Sharing
import UpToDate.Proofs.Execution.Independence
import UpToDate.Proofs.FileTree.Walk
import UpToDate.Proofs.Glob.Descent
import UpToDate.Proofs.FileTree.Pruning
import UpToDate.Proofs.Execution.Reporting
import UpToDate.Proofs.Turns
import UpToDate.Proofs.Disk.Steady
import UpToDate.Proofs.History.Requests
import UpToDate.Proofs.History.Readers
import UpToDate.Proofs.Settings.Producers
import UpToDate.Proofs.History.Messages
import UpToDate.Proofs.FileTree.Presence
import UpToDate.Proofs.Execution.Outputs
import UpToDate.Proofs.History.Room
import UpToDate.Proofs.Execution.Recording
import UpToDate.Proofs.FileTree.Lenient
import UpToDate.Proofs.History.Confinement
import UpToDate.Proofs.History.Hashing
import UpToDate.Proofs.Disk.Depth
import UpToDate.Proofs.FileTree.Cycles
import UpToDate.Proofs.FileTree.Refining
import UpToDate.Proofs.Execution.Faults
import UpToDate.Proofs.Execution.Diagnostics
import UpToDate.Proofs.Diagnostic.Log
import UpToDate.Proofs.Execution.Preparation
