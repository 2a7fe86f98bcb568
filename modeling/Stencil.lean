import Stencil.Main
import Stencil.Proofs.Script.Environment
import Stencil.Proofs.Script.Grammar.Highest
import Stencil.Proofs.Script.Grammar.Spans
import Stencil.Proofs.Script.History
import Stencil.Proofs.Script.Lexemes.Segments
import Stencil.Proofs.Script.Print.Escapes
import Stencil.Proofs.Script.Print.RoundTrip
import Stencil.Proofs.Script.Run.Aside
import Stencil.Proofs.Script.Run.Constants
import Stencil.Proofs.Script.Run.Depth
import Stencil.Proofs.Script.Run.Expansions
import Stencil.Proofs.Script.Run.ForLoops
import Stencil.Proofs.Script.Run.Mutators
import Stencil.Proofs.Script.Run.Undefined
import Stencil.Proofs.Script.Run.WriteThrough
import Stencil.Proofs.Script.Value.Equality
import Stencil.Proofs.Script.Value.Numeric
import Stencil.Proofs.Script.Value.Search
import Stencil.Proofs.Template.Comments
import Stencil.Proofs.Template.Located
import Stencil.Proofs.Template.Loop
import Stencil.Proofs.Template.RoundTrip
import Stencil.Proofs.Template.Segments
import Stencil.Proofs.Template.Successive
import Stencil.Proofs.Script.Lexemes.Counters
import Stencil.Proofs.Script.Lexemes.Lines
import Stencil.Proofs.Number.Bounds
import Stencil.Proofs.Script.Value.Slice
