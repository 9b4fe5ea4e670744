import DocComments.Text
import DocComments.Text.Blank
import DocComments.Text.WordCharacter
import DocComments.Text.LowerCase
import DocComments.Text.Lines
import DocComments.Wording.FileCues
import DocComments.Wording.Summary
import DocComments.Wording.Returns
import DocComments.Wording.Parameter
import DocComments.FilePath
import DocComments.Curated
import DocComments.Curated.Shipped
import DocComments.Block
import DocComments.Block.Location
import DocComments.Edit
import DocComments.Refresh
import DocComments.Identifier
import DocComments.Declaration
import DocComments.Declaration.Recognition
import DocComments.Declaration.Parameters
import DocComments.FileTree
import DocComments.FileSystem
import DocComments.Glob
import DocComments.Discovery
import DocComments.Run
import DocComments.CommandLine
import DocComments.Main
import DocComments.Proofs.Lines
import DocComments.Proofs.Words
import DocComments.Proofs.Landmarks
import DocComments.Proofs.Blocks
import DocComments.Proofs.Sentences
import DocComments.Proofs.Generated
import DocComments.Proofs.Fresh
import DocComments.Proofs.Segments
import DocComments.Proofs.Rewriting
import DocComments.Proofs.Planning
import DocComments.Proofs.Passes
import DocComments.Proofs.Splicing
import DocComments.Proofs.InPlace
import DocComments.Proofs.Progress
import DocComments.Proofs.Refreshed
import DocComments.Proofs.Documented
import DocComments.Proofs.SecondPass
import DocComments.Proofs.Sites
import DocComments.Proofs.EditScripts
import DocComments.Proofs.LaterPasses
import DocComments.Proofs.Templates
import DocComments.Proofs.LineEndings
import DocComments.Proofs.FirstWord
import DocComments.Proofs.Patterns
import DocComments.Proofs.Heads
import DocComments.Proofs.LineParts
import DocComments.Proofs.TypePattern
import DocComments.Proofs.MethodPattern
import DocComments.Proofs.PropertyPattern
import DocComments.Proofs.Grammar
import DocComments.Proofs.Indented
import DocComments.Proofs.ParameterLists
import DocComments.Proofs.ParameterMarks
import DocComments.Proofs.ParameterNames
import DocComments.Proofs.Paths
import DocComments.Proofs.Lookups
import DocComments.Proofs.Locations
import DocComments.Proofs.RootNames
import DocComments.Proofs.Listings
import DocComments.Proofs.Runs
import DocComments.Proofs.Letters
import DocComments.Proofs.LowerCase
import DocComments.Proofs.WordRuns
import DocComments.Proofs.WordPositions
import DocComments.Proofs.Phrases
import DocComments.Proofs.Spans
import DocComments.Proofs.Changes
import DocComments.Proofs.Verbs
import DocComments.Proofs.Objects
import DocComments.Proofs.ReturnTexts
import DocComments.Proofs.CueInfluence
import DocComments.Proofs.MethodBlocks
import DocComments.Proofs.EarlierLines
import DocComments.Proofs.FileNames
import DocComments.Proofs.SourceFiles
import DocComments.Proofs.Discovered
import DocComments.Proofs.RootSlash
