import Cascade.Text.Basic
import Cascade.Text.Blank
import Cascade.Text.Digit
import Cascade.Text.Line
import Cascade.Text.Order
import Cascade.Text.Printable
import Cascade.Text.Quoted
import Cascade.Text.Utf8
import Cascade.Text.Word
import Cascade.Number.Binary64
import Cascade.Number.Shortest
import Cascade.Table
import Cascade.Value.Basic
import Cascade.Value.Rendering
import Cascade.Dotenv.Numeral
import Cascade.Dotenv.Assigned
import Cascade.Dotenv.Document
import Cascade.Reference.Scan
import Cascade.Reference.Expand
import Cascade.Reference.Mapping
import Cascade.Json.Reader
import Cascade.Json.Writer
import Cascade.Files.Path
import Cascade.Files.System
import Cascade.Files.Physical
import Cascade.Files.Change
import Cascade.World
import Cascade.Environment
import Cascade.Failure
import Cascade.Log.Entry
import Cascade.Log.Pretty
import Cascade.Log.Loki
import Cascade.Log.Logger
import Cascade.Secrets
import Cascade.Source.EnvFile
import Cascade.Source.Cache
import Cascade.Source.Preferences
import Cascade.Settings
import Cascade.Resolver
import Cascade.Shared
import Cascade.CommandLine.Arguments
import Cascade.CommandLine.Preferences
import Cascade.CommandLine.Run
import Cascade.Main
import Cascade.Text.CodePoint
import Cascade.Proofs.Rewriting
import Cascade.Proofs.ChainMeaning
import Cascade.Proofs.MappingRun
import Cascade.Proofs.MappingExpansion
import Cascade.Proofs.CacheAnswers
import Cascade.Proofs.Answers
import Cascade.Proofs.Writable
import Cascade.Proofs.Names
import Cascade.Proofs.WholeFile
import Cascade.Proofs.WildcardAgreement
import Cascade.Proofs.FailsWith
import Cascade.Proofs.Resilience
import Cascade.Proofs.CacheRun
import Cascade.Proofs.Walking
import Cascade.Proofs.PhysicalPlaces
import Cascade.Proofs.Freshness
import Cascade.Proofs.LoadOnce
import Cascade.Proofs.CacheHistory
import Cascade.Proofs.StableReads
import Cascade.Proofs.Priority
import Cascade.Proofs.Digits
import Cascade.Proofs.WrittenEnv
import Cascade.Proofs.Rounding
import Cascade.Proofs.ShortestDecimal
import Cascade.Proofs.WrittenNumber
import Cascade.Proofs.WrittenString
import Cascade.Proofs.WrittenJson
import Cascade.Proofs.NameOrder
import Cascade.Proofs.StoredGroups
import Cascade.Proofs.ReadStorable
import Cascade.Proofs.Walks
import Cascade.Proofs.StoredDocument
import Cascade.Proofs.StoreEquivalence
import Cascade.Proofs.SettingValue
import Cascade.Proofs.SettingEquivalence
import Cascade.Proofs.PushedLines
import Cascade.Proofs.CommandHistory
import Cascade.Proofs.ReplacedDocument
import Cascade.Proofs.UnrelatedData
import Cascade.Proofs.SettingFlags
import Cascade.Proofs.OneVariable
import Cascade.Proofs.FlagMasking
import Cascade.Proofs.FixedPoint
import Cascade.Proofs.Isolation
import Cascade.Proofs.OneLevel
import Cascade.Proofs.SharedLife
import Cascade.Proofs.LineByLine
import Cascade.Proofs.Pattern
import Cascade.Proofs.ReferenceGrammar
import Cascade.Proofs.Transfer
import Cascade.Proofs.Substitution
import Cascade.Proofs.Asking
import Cascade.Proofs.ExpansionSteps
import Cascade.Proofs.ExpansionEnds
import Cascade.Proofs.NumeralGrammar
import Cascade.Proofs.QuotedTokens
import Cascade.Proofs.DisplayedValue
import Cascade.Proofs.FailedLoad
import Cascade.Proofs.Absence
import Cascade.Proofs.NearestFile
import Cascade.Proofs.ParsedOnce
import Cascade.Proofs.TimesApart
import Cascade.Proofs.RootedTrees
import Cascade.Proofs.MadeDirectories
import Cascade.Proofs.FailedWrite
import Cascade.Proofs.LogThreshold
import Cascade.Proofs.ArgumentGrammar
import Cascade.Proofs.ResolutionLog
import Cascade.Proofs.JoinedPairs
import Cascade.Proofs.CanonicalDocument
import Cascade.Proofs.LeadingBack
import Cascade.Proofs.MemoMoments
