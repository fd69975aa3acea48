import RuleClasses.Text.Lines
import RuleClasses.Text.NameSet
import RuleClasses.Text.WordChar
import RuleClasses.Text.Lowercase
import RuleClasses.Json.Printer
import RuleClasses.Grammar.Encoding
import RuleClasses.Grammar.Decoding
import RuleClasses.Text.Blank
import RuleClasses.RootType
import RuleClasses.ClassOrder
import RuleClasses.Plan
import RuleClasses.Layout
import RuleClasses.Layout.Block
import RuleClasses.Layout.Page
import RuleClasses.Config
import RuleClasses.Emit
import RuleClasses.Session
import RuleClasses.Files.Disk
import RuleClasses.Files.Glob
import RuleClasses.CommandLine.Arguments
import RuleClasses.CommandLine.Run
import RuleClasses.Main
import RuleClasses.Generation
import RuleClasses.Proofs.Levels
import RuleClasses.Proofs.Line
import RuleClasses.Proofs.Chains
import RuleClasses.Proofs.Declarations
import RuleClasses.Proofs.Strictness
import RuleClasses.Proofs.Clashes
import RuleClasses.Proofs.CommonClass
import RuleClasses.Proofs.Additions
import RuleClasses.Proofs.Annotations
import RuleClasses.Proofs.Rows
import RuleClasses.Proofs.Sources
import RuleClasses.Proofs.Headers
import RuleClasses.Proofs.Renderings
import RuleClasses.Proofs.Spellings
import RuleClasses.Proofs.JsonTexts
import RuleClasses.Proofs.JsonDepth
import RuleClasses.Proofs.Answers
import RuleClasses.Proofs.ExprForms
import RuleClasses.Proofs.Records
import RuleClasses.Proofs.GrammarForms
import RuleClasses.Proofs.TreeNumbers
import RuleClasses.Proofs.JsonValues
import RuleClasses.Proofs.Encodings
import RuleClasses.Proofs.Paths
import RuleClasses.Proofs.FileTrees
import RuleClasses.Proofs.MakingFiles
import RuleClasses.Proofs.Saving
import RuleClasses.Proofs.Batches
import RuleClasses.Proofs.SideBySide
import RuleClasses.Proofs.MergedOptions
import RuleClasses.Proofs.CommonCycle
import RuleClasses.Proofs.SameNames
import RuleClasses.Proofs.Fields
import RuleClasses.Proofs.BindingOrder
import RuleClasses.Proofs.Blocks
import RuleClasses.Proofs.Writing
import RuleClasses.Proofs.LegalNames
import RuleClasses.Proofs.ClassPaths
import RuleClasses.Proofs.RootPaths
import RuleClasses.Proofs.FirstBindings
import RuleClasses.Proofs.Outputs
import RuleClasses.Proofs.OutputDirectory
import RuleClasses.Proofs.PrettyTexts
import RuleClasses.Proofs.ReportLists
import RuleClasses.Proofs.ConfigForms
import RuleClasses.Proofs.ReleaseLoop
import RuleClasses.Proofs.FirstValue
import RuleClasses.Proofs.MisnamedKinds
import RuleClasses.Proofs.DeclaredClasses
import RuleClasses.Proofs.SourceOrder
