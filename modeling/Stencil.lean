import Stencil.Compiler.Summary
import Stencil.Engine
import Stencil.Helper.ControlFlow
import Stencil.Helper.Stock
import Stencil.Template.Dump
import Stencil.Template.Same
import Stencil.Token.Cursor
import Stencil.Proofs.Grammar
import Stencil.Proofs.Grammar.Accepted
import Stencil.Proofs.Grammar.Derived
import Stencil.Proofs.Partition
import Stencil.Proofs.Writing
import Stencil.Proofs.WellFormed
import Stencil.Proofs.Image
import Stencil.Proofs.JsonLiteral
import Stencil.Proofs.CodeGrammar
import Stencil.Proofs.Rendering
import Stencil.Proofs.Meaning
import Stencil.Proofs.Meaning.Preserved
import Stencil.Proofs.Readback
import Stencil.Proofs.ControlFlow
import Stencil.Proofs.Unregistered
import Stencil.Proofs.Tidy
import Stencil.Proofs.Tidy.Preserved
import Stencil.Proofs.Refusal
import Stencil.Proofs.OpenBlocks
import Stencil.Proofs.Demotion
import Stencil.Proofs.Splice
import Stencil.Proofs.Limit
import Stencil.Proofs.FaultPlace
import Stencil.Proofs.Finality
import Stencil.Proofs.Sealing
import Stencil.Proofs.WayOut
import Stencil.Proofs.Completion
import Stencil.Proofs.Relocation
import Stencil.Proofs.Concatenation
import Stencil.Proofs.Lookahead
import Stencil.Proofs.Blanks
import Stencil.Proofs.Folding
import Stencil.Proofs.SummaryReading
import Stencil.Proofs.Configuration
import Stencil.Proofs.Causes
import Stencil.Proofs.QuotedText
import Stencil.Proofs.JsonReading
import Stencil.Proofs.DocumentOrder
import Stencil.Proofs.LineColumn
import Stencil.Proofs.Sameness
import Stencil.Proofs.SameCode
import Stencil.Proofs.JsonText
import Stencil.Proofs.DumpReading
import Stencil.Proofs.SlotText
import Stencil.Proofs.OneTag
import Stencil.Proofs.OneTag.Preserved
import Stencil.Proofs.Interleaving
import Stencil.Proofs.Descent.Ending
