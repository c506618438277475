import FontCatalog.Binary64
import FontCatalog.Catalog
import FontCatalog.Catalog.Document
import FontCatalog.Catalog.Files
import FontCatalog.Catalog.Listing
import FontCatalog.Catalog.Summary
import FontCatalog.Client
import FontCatalog.Command
import FontCatalog.Command.Arguments
import FontCatalog.Command.Basic
import FontCatalog.Command.Roots
import FontCatalog.Disk
import FontCatalog.Environment
import FontCatalog.Face
import FontCatalog.Face.Json
import FontCatalog.FileTree
import FontCatalog.FileTree.Change
import FontCatalog.FileTree.Walk
import FontCatalog.FontFile
import FontCatalog.FontFile.Manifest
import FontCatalog.Json.Basic
import FontCatalog.Json.Lexer
import FontCatalog.Json.Reader
import FontCatalog.Json.Shape
import FontCatalog.Json.Skip
import FontCatalog.Json.Writer
import FontCatalog.Main
import FontCatalog.Match
import FontCatalog.Name
import FontCatalog.NameMap
import FontCatalog.Network
import FontCatalog.OsError
import FontCatalog.Path
import FontCatalog.Scan
import FontCatalog.Scan.Failure
import FontCatalog.Scan.Progress
import FontCatalog.Scan.ProgressLine
import FontCatalog.Scan.State
import FontCatalog.Scan.Worker
import FontCatalog.Search.Comparison
import FontCatalog.Search.Copies
import FontCatalog.Search.Error
import FontCatalog.Search.Extensions
import FontCatalog.Search.Finder
import FontCatalog.Server
import FontCatalog.Server.Connection
import FontCatalog.Server.Service
import FontCatalog.Settings
import FontCatalog.Settings.Document
import FontCatalog.Settings.Json
import FontCatalog.Sfnt.Directory
import FontCatalog.Sfnt.Language
import FontCatalog.Sfnt.MacRoman
import FontCatalog.Sfnt.Metadata
import FontCatalog.Sfnt.Names
import FontCatalog.Socket
import FontCatalog.Text.Alphanumeric
import FontCatalog.Text.Blank
import FontCatalog.Text.Casing
import FontCatalog.Text.Digits
import FontCatalog.Text.Printable
import FontCatalog.Text.Quoted
import FontCatalog.Text.Ranges
import FontCatalog.Text.Utf16
import FontCatalog.Text.Utf8
import FontCatalog.Toml.Basic
import FontCatalog.Toml.Entries
import FontCatalog.Toml.Lexer
import FontCatalog.Toml.Number
import FontCatalog.Toml.Reader
import FontCatalog.Toml.Writer
import FontCatalog.Wire.Error
import FontCatalog.Wire.Frame
import FontCatalog.Wire.Request
import FontCatalog.Wire.Response
import FontCatalog.Proofs.Catalog.Agreement
import FontCatalog.Proofs.Catalog.Atomicity
import FontCatalog.Proofs.Catalog.Document
import FontCatalog.Proofs.Catalog.Families
import FontCatalog.Proofs.Catalog.Files
import FontCatalog.Proofs.Catalog.Firsts
import FontCatalog.Proofs.Catalog.Groups
import FontCatalog.Proofs.Catalog.Listing
import FontCatalog.Proofs.Catalog.Loading
import FontCatalog.Proofs.Catalog.Lookups
import FontCatalog.Proofs.Catalog.Merging
import FontCatalog.Proofs.Catalog.Stems
import FontCatalog.Proofs.Client
import FontCatalog.Proofs.Client.Dialogue
import FontCatalog.Proofs.Client.Pairing
import FontCatalog.Proofs.Command
import FontCatalog.Proofs.FileTree.Spelling
import FontCatalog.Proofs.Match.Folding
import FontCatalog.Proofs.Match.Ladder
import FontCatalog.Proofs.Match.Likeness
import FontCatalog.Proofs.Match.Ranks
import FontCatalog.Proofs.Match.Styles
import FontCatalog.Proofs.Match.Truncation
import FontCatalog.Proofs.Scan.Agreement
import FontCatalog.Proofs.Scan.Cancellation
import FontCatalog.Proofs.Scan.Completion
import FontCatalog.Proofs.Scan.Copies
import FontCatalog.Proofs.Scan.Termination
import FontCatalog.Proofs.Search.Comparison
import FontCatalog.Proofs.Search.Copies
import FontCatalog.Proofs.Search.Discovery
import FontCatalog.Proofs.Search.Finder
import FontCatalog.Proofs.Search.Handout
import FontCatalog.Proofs.Server.Events
import FontCatalog.Proofs.Server.Replacements
import FontCatalog.Proofs.Server.Requests
import FontCatalog.Proofs.Server.Stream
import FontCatalog.Proofs.Server.Swaps
import FontCatalog.Proofs.Server.Transcript
import FontCatalog.Proofs.Wire.Compatibility
import FontCatalog.Proofs.Wire.Messages
import FontCatalog.Proofs.Wire.Readers
import FontCatalog.Proofs.Sfnt.Naming
import FontCatalog.Proofs.Match.OwnNames
import FontCatalog.Proofs.Server.Newest
import FontCatalog.Proofs.Binary64
import FontCatalog.Proofs.Scan.Limits
import FontCatalog.Proofs.Scan.Polls
import FontCatalog.Proofs.Toml.Strings
import FontCatalog.Proofs.Toml.Values
import FontCatalog.Proofs.Toml.Documents
import FontCatalog.Proofs.Settings.Sections
import FontCatalog.Proofs.Settings.Saving
import FontCatalog.Proofs.Catalog.OwnKeys
