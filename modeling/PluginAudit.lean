import PluginAudit.Audit
import PluginAudit.Bytes
import PluginAudit.Check
import PluginAudit.CommandLine.Arguments
import PluginAudit.CommandLine.Invocation
import PluginAudit.CommandLine.Outcome
import PluginAudit.CommandLine.Similar
import PluginAudit.Condition.Argument
import PluginAudit.Condition.Call
import PluginAudit.Condition.Evaluation
import PluginAudit.Condition.Expression
import PluginAudit.Condition.Function
import PluginAudit.Condition.Literal
import PluginAudit.Condition.Location
import PluginAudit.ContentVersion
import PluginAudit.Crc32
import PluginAudit.Dialogue
import PluginAudit.Executable
import PluginAudit.Failure
import PluginAudit.Game
import PluginAudit.Host.Disk
import PluginAudit.Host.Installation
import PluginAudit.Host.Memory
import PluginAudit.Host.Query
import PluginAudit.Host.SystemError
import PluginAudit.Host.Tree
import PluginAudit.Json
import PluginAudit.LoadOrder
import PluginAudit.Log
import PluginAudit.Log.Event
import PluginAudit.Main
import PluginAudit.Metadata.Document
import PluginAudit.Metadata.Entry
import PluginAudit.Metadata.Fault
import PluginAudit.Metadata.Loading
import PluginAudit.Metadata.Merge
import PluginAudit.Metadata.Record
import PluginAudit.Metadata.Schema
import PluginAudit.Metadata.Store
import PluginAudit.Number.Binary64
import PluginAudit.Number.Shortest
import PluginAudit.Ordered
import PluginAudit.Package
import PluginAudit.Path
import PluginAudit.Pattern.Assembly
import PluginAudit.Pattern.Name
import PluginAudit.Pattern.Node
import PluginAudit.Pattern.Token
import PluginAudit.Pattern.UnitSet
import PluginAudit.Plugin.Structure
import PluginAudit.Text.Case
import PluginAudit.Text.CaseTable
import PluginAudit.Text.Digits
import PluginAudit.Text.Distance
import PluginAudit.Text.Identifier
import PluginAudit.Text.Search
import PluginAudit.Text.Utf16
import PluginAudit.Text.Utf8
import PluginAudit.Value
import PluginAudit.Version
import PluginAudit.Warning
import PluginAudit.Warning.Markup
import PluginAudit.Warning.Report
import PluginAudit.Yaml.BlockScalar
import PluginAudit.Yaml.Directive
import PluginAudit.Yaml.Document
import PluginAudit.Yaml.Fault
import PluginAudit.Yaml.FlowScalar
import PluginAudit.Yaml.Lexeme
import PluginAudit.Yaml.Node
import PluginAudit.Yaml.Numeral
import PluginAudit.Yaml.Outline
import PluginAudit.Yaml.Piece
import PluginAudit.Yaml.Properties
import PluginAudit.Yaml.Resolution
import PluginAudit.Yaml.Scalar
import PluginAudit.Proofs.Attempts
import PluginAudit.Proofs.BooleanGrammar
import PluginAudit.Proofs.DialogueRules
import PluginAudit.Proofs.FixedAnswers
import PluginAudit.Proofs.ConditionSteps
import PluginAudit.Proofs.Containment
import PluginAudit.Proofs.WarningPass
import PluginAudit.Proofs.Masking
import PluginAudit.Proofs.WrittenCalls
import PluginAudit.Proofs.CallSearch
import PluginAudit.Proofs.AnsweredCalls
import PluginAudit.Proofs.ConditionMeaning
import PluginAudit.Proofs.LowerCase
import PluginAudit.Proofs.KeyedLists
import PluginAudit.Proofs.RecordMerging
import PluginAudit.Proofs.StoreMerging
import PluginAudit.Proofs.DeclaredPatterns
import PluginAudit.Proofs.PluginSafety
import PluginAudit.Proofs.PluginImage
import PluginAudit.Proofs.PluginDecoding
import PluginAudit.Proofs.StoreHistory
import PluginAudit.Proofs.PatternWays
import PluginAudit.Proofs.RefusedItems
import PluginAudit.Proofs.AnchoredPatterns
import PluginAudit.Proofs.CallSites
import PluginAudit.Proofs.QuotedArguments
import PluginAudit.Proofs.ConditionPieces
import PluginAudit.Proofs.ComposedConditions
import PluginAudit.Proofs.EntryMerging
import PluginAudit.Proofs.HostFailures
import PluginAudit.Proofs.InfoMessages
import PluginAudit.Proofs.VersionOrder
import PluginAudit.Proofs.PathParts
import PluginAudit.Proofs.FileAnswers
import PluginAudit.Proofs.ListedFiles
import PluginAudit.Proofs.ContextChecksum
import PluginAudit.Proofs.SteadyDisk
import PluginAudit.Proofs.TreeWalks
import PluginAudit.Proofs.MatchingFiles
import PluginAudit.Proofs.Spellings
import PluginAudit.Proofs.EscapedNames
import PluginAudit.Proofs.LiteralPatterns
import PluginAudit.Proofs.OutsideRefusals
import PluginAudit.Proofs.NestedGroups
import PluginAudit.Proofs.SkippedEntries
import PluginAudit.Proofs.AlikeTexts
import PluginAudit.Proofs.LeftoverPlaceholders
import PluginAudit.Proofs.RespacedConditions
import PluginAudit.Proofs.NearestDoubles
import PluginAudit.Proofs.ComparedVersions
import PluginAudit.Proofs.NumericVersions
import PluginAudit.Proofs.SpelledArguments
import PluginAudit.Proofs.RestoredTexts
import PluginAudit.Proofs.SerialChecksum
import PluginAudit.Proofs.LocalChanges
import PluginAudit.Proofs.PackageQuestions
import PluginAudit.Proofs.SingleReading
import PluginAudit.Proofs.InstalledPlugins
import PluginAudit.Proofs.WrittenMarkup
import PluginAudit.Proofs.VisibleText
import PluginAudit.Proofs.DeclaredVersions
import PluginAudit.Proofs.WrittenLoadOrders
import PluginAudit.Proofs.VersionBlocks
import PluginAudit.Proofs.AcceptedEntries
import PluginAudit.Proofs.HeaderWalk
import PluginAudit.Proofs.RecordTypes
