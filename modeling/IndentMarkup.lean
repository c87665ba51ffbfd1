import IndentMarkup.Abort
import IndentMarkup.Build
import IndentMarkup.CommandLine
import IndentMarkup.Config
import IndentMarkup.Config.Load
import IndentMarkup.Decimal.Binary64
import IndentMarkup.Decimal.Numeral
import IndentMarkup.Decimal.Shortest
import IndentMarkup.Element
import IndentMarkup.Error
import IndentMarkup.FileTree
import IndentMarkup.FileTree.Source
import IndentMarkup.Line
import IndentMarkup.Line.Reading
import IndentMarkup.Log
import IndentMarkup.Main
import IndentMarkup.Node
import IndentMarkup.Node.Render
import IndentMarkup.OrderedMap
import IndentMarkup.Outline
import IndentMarkup.Path
import IndentMarkup.Pattern
import IndentMarkup.Program
import IndentMarkup.Proofs.Absorption
import IndentMarkup.Proofs.AttributeOrder
import IndentMarkup.Proofs.AttributeRows
import IndentMarkup.Proofs.BuildEffects
import IndentMarkup.Proofs.Comments
import IndentMarkup.Proofs.Concatenation
import IndentMarkup.Proofs.ConfigAborts
import IndentMarkup.Proofs.ConfigChecks
import IndentMarkup.Proofs.Continuations
import IndentMarkup.Proofs.Decoding
import IndentMarkup.Proofs.Descents
import IndentMarkup.Proofs.ElementLeads
import IndentMarkup.Proofs.ElementLines
import IndentMarkup.Proofs.Files
import IndentMarkup.Proofs.HalfDedents
import IndentMarkup.Proofs.Halves
import IndentMarkup.Proofs.InPlace
import IndentMarkup.Proofs.Independence
import IndentMarkup.Proofs.InsertionOrder
import IndentMarkup.Proofs.Joints
import IndentMarkup.Proofs.Layout
import IndentMarkup.Proofs.LineBreaks
import IndentMarkup.Proofs.Lossless
import IndentMarkup.Proofs.Moving
import IndentMarkup.Proofs.Nesting
import IndentMarkup.Proofs.OneLine
import IndentMarkup.Proofs.OpenFrames
import IndentMarkup.Proofs.Placement
import IndentMarkup.Proofs.Rebuilding
import IndentMarkup.Proofs.RenderedParts
import IndentMarkup.Proofs.Rendering
import IndentMarkup.Proofs.Runs
import IndentMarkup.Proofs.Separators
import IndentMarkup.Proofs.Settling
import IndentMarkup.Proofs.SourceLines
import IndentMarkup.Proofs.TagLines
import IndentMarkup.Proofs.TurnEffects
import IndentMarkup.Proofs.Turns
import IndentMarkup.Proofs.WatcherLife
import IndentMarkup.Proofs.Watching
import IndentMarkup.Proofs.WriteEntries
import IndentMarkup.Proofs.Writing
import IndentMarkup.Template
import IndentMarkup.Text.Basic
import IndentMarkup.Text.Code
import IndentMarkup.Text.Digit
import IndentMarkup.Text.LineBreak
import IndentMarkup.Text.Printable
import IndentMarkup.Text.Quoted
import IndentMarkup.Text.Utf8
import IndentMarkup.Text.Word
import IndentMarkup.Value
import IndentMarkup.Value.Display
import IndentMarkup.Value.Store
import IndentMarkup.Watch
import IndentMarkup.Yaml.Cursor
import IndentMarkup.Yaml.Load
import IndentMarkup.Yaml.Node
import IndentMarkup.Yaml.Node.Assembly
import IndentMarkup.Yaml.Schema
import IndentMarkup.Yaml.Source
import IndentMarkup.Yaml.Token
import IndentMarkup.Yaml.Token.Name
import IndentMarkup.Yaml.Token.Scalar
import IndentMarkup.Yaml.Token.Stream
