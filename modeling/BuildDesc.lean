import BuildDesc.Buckets
import BuildDesc.Clause
import BuildDesc.Condition.Basic
import BuildDesc.Condition.Eval
import BuildDesc.Condition.Reader
import BuildDesc.Configuration
import BuildDesc.Dict
import BuildDesc.Document
import BuildDesc.Error
import BuildDesc.FileTree
import BuildDesc.Options
import BuildDesc.Path
import BuildDesc.Platform
import BuildDesc.Reading
import BuildDesc.Record
import BuildDesc.Resolution
import BuildDesc.Resource.FileVersion
import BuildDesc.Resource.Script
import BuildDesc.Resource.Template
import BuildDesc.Text.Layout
import BuildDesc.Text.Numeral
import BuildDesc.Text.Quoted
import BuildDesc.Text.Separated
import BuildDesc.Text.Space
import BuildDesc.Text.Word
import BuildDesc.Token
import BuildDesc.Traced
import BuildDesc.Value.Access
import BuildDesc.Value.Basic
import BuildDesc.Value.Reader
import BuildDesc.Proofs.Accounting
import BuildDesc.Proofs.Accumulation
import BuildDesc.Proofs.Changes
import BuildDesc.Proofs.ClauseLists
import BuildDesc.Proofs.Clauses
import BuildDesc.Proofs.ClosingQuotes
import BuildDesc.Proofs.Comparisons
import BuildDesc.Proofs.Concatenation
import BuildDesc.Proofs.ConditionGrammar
import BuildDesc.Proofs.ConditionLaws
import BuildDesc.Proofs.ConditionPrinting
import BuildDesc.Proofs.ConditionText
import BuildDesc.Proofs.Configurations
import BuildDesc.Proofs.Documents
import BuildDesc.Proofs.Failures
import BuildDesc.Proofs.FileNames
import BuildDesc.Proofs.FileTrees
import BuildDesc.Proofs.FileVersions
import BuildDesc.Proofs.Insertions
import BuildDesc.Proofs.Layouts
import BuildDesc.Proofs.Levels
import BuildDesc.Proofs.Literals
import BuildDesc.Proofs.Loading
import BuildDesc.Proofs.Lookups
import BuildDesc.Proofs.Merging
import BuildDesc.Proofs.Nesting
import BuildDesc.Proofs.Noninterference
import BuildDesc.Proofs.Outcomes
import BuildDesc.Proofs.Paths
import BuildDesc.Proofs.RawRounds
import BuildDesc.Proofs.Representation
import BuildDesc.Proofs.ScriptFiles
import BuildDesc.Proofs.SourceFiles
import BuildDesc.Proofs.Spelling
import BuildDesc.Proofs.Splitting
import BuildDesc.Proofs.TemplateLines
import BuildDesc.Proofs.Templates
import BuildDesc.Proofs.Transcripts
import BuildDesc.Proofs.Validation
import BuildDesc.Proofs.ValueGrammar
import BuildDesc.Proofs.ValuePrinting
import BuildDesc.Proofs.VersionLaws
import BuildDesc.Proofs.Walks
