import Marshal.CommandLine.Basic
import Marshal.CommandLine.Parse
import Marshal.CommandLine.Usage
import Marshal.Data.Fault
import Marshal.Data.Kept
import Marshal.Data.Source
import Marshal.Data.Value
import Marshal.Decimal.Shortest
import Marshal.Decimal.Written
import Marshal.Disk
import Marshal.Emit.Code
import Marshal.Emit.Flatten
import Marshal.Emit.Literal
import Marshal.Emit.Plan
import Marshal.Emit.Routines
import Marshal.Emit.Writer
import Marshal.Header.Code
import Marshal.Header.Continuation
import Marshal.Header.Render
import Marshal.Header.Sink
import Marshal.Json.Draft
import Marshal.Json.Number
import Marshal.Json.Print
import Marshal.Json.Read
import Marshal.Json.Token
import Marshal.Main
import Marshal.Path
import Marshal.Plugin.Basic
import Marshal.Plugin.Exported
import Marshal.Plugin.Library
import Marshal.Plugin.Loader
import Marshal.Plugin.Registry
import Marshal.Run.Partition
import Marshal.Run.Pipeline
import Marshal.Run.Program
import Marshal.Schema.Bundle
import Marshal.Schema.Decode
import Marshal.Schema.Description
import Marshal.Schema.Encode
import Marshal.Schema.Graph
import Marshal.Schema.Link
import Marshal.Schema.Node
import Marshal.Schema.Session
import Marshal.Schema.Site
import Marshal.Schema.Store
import Marshal.Settings.Basic
import Marshal.Settings.Load
import Marshal.Settings.Read
import Marshal.Text.Line
import Marshal.Text.Quoted
import Marshal.Text.Raw
import Marshal.Text.Unprintable
import Marshal.Toml.Document
import Marshal.Toml.Number
import Marshal.Toml.Table
import Marshal.Toml.Text
import Marshal.Toml.Value
import Marshal.Proofs.Schema.Reach
import Marshal.Proofs.Schema.Replay
import Marshal.Proofs.Schema.Copy
import Marshal.Proofs.Json.Drafts
import Marshal.Proofs.Data.Shows
import Marshal.Proofs.Json.Reading
import Marshal.Proofs.Schema.Forms
import Marshal.Proofs.Schema.Wire
import Marshal.Proofs.Emit.Plans
import Marshal.Proofs.Emit.Unfold
import Marshal.Proofs.Plugin.Loaded
import Marshal.Proofs.Header.Lexer
import Marshal.Proofs.Header.Continued
import Marshal.Proofs.Header.Reading
import Marshal.Proofs.Header.Comments
import Marshal.Proofs.Emit.Transfer
import Marshal.Proofs.Emit.Shapes
import Marshal.Proofs.Emit.Leaves
import Marshal.Proofs.Data.Gives
import Marshal.Proofs.Schema.Fresh
import Marshal.Proofs.Schema.Linking
import Marshal.Proofs.Path.Order
import Marshal.Proofs.Schema.Merged
import Marshal.Proofs.Schema.Scoping
import Marshal.Proofs.Run.Crew
import Marshal.Proofs.Run.Sequential
import Marshal.Proofs.Disk.Changes
import Marshal.Proofs.Header.Places
import Marshal.Proofs.Run.Written
import Marshal.Proofs.Header.Joined
import Marshal.Proofs.Header.Macros
import Marshal.Proofs.Header.Requests
import Marshal.Proofs.Plugin.Registered
import Marshal.Proofs.Schema.Contents
import Marshal.Proofs.Header.Names
import Marshal.Proofs.Schema.Resolved
import Marshal.Proofs.Schema.Renumbered
import Marshal.Proofs.Schema.Relinked
import Marshal.Proofs.Schema.Sound
import Marshal.Proofs.Schema.Embedded
import Marshal.Proofs.Schema.Independent
import Marshal.Proofs.Disk.Spellings
import Marshal.Proofs.Plugin.Directory
import Marshal.Proofs.Plugin.Local
import Marshal.Proofs.Run.Inputs
import Marshal.Proofs.Schema.References
import Marshal.Proofs.Data.Levels
import Marshal.Proofs.Json.Levels
import Marshal.Proofs.Schema.Reprinted
import Marshal.Proofs.Run.Accounts
import Marshal.Proofs.Schema.Walk
import Marshal.Proofs.Schema.Restored
import Marshal.Proofs.Emit.Direct
import Marshal.Proofs.Emit.Depth
import Marshal.Proofs.Emit.Obstacles
import Marshal.Proofs.Emit.Entered
import Marshal.Proofs.Emit.Hidden
import Marshal.Proofs.Emit.Scopes
import Marshal.Proofs.Emit.Ascents
import Marshal.Proofs.Emit.Keys
import Marshal.Proofs.Schema.Normalized
import Marshal.Proofs.Emit.Normalized
import Marshal.Proofs.Emit.Sharing
import Marshal.Proofs.Schema.Declared
import Marshal.Proofs.Header.Copied
import Marshal.Proofs.Emit.Spellings
import Marshal.Proofs.Emit.Lines
import Marshal.Proofs.Run.Pieces
import Marshal.Proofs.Settings.Layers
import Marshal.Proofs.Header.Alias
import Marshal.Proofs.Header.Lookup
import Marshal.Proofs.Header.Bytes
import Marshal.Proofs.Header.Delimited
import Marshal.Proofs.Emit.Spelled
import Marshal.Proofs.Emit.Nested
import Marshal.Proofs.Emit.Redirected
import Marshal.Proofs.Emit.Unbroken
import Marshal.Proofs.Emit.Restores
