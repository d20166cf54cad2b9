import Stencil.Host.HostValue
import Stencil.Render.Include
import Stencil.Template.Arena
import Stencil.Proofs.Expr.Bounds
import Stencil.Proofs.Expr.Completeness
import Stencil.Proofs.Expr.Finite
import Stencil.Proofs.Expr.Integers
import Stencil.Proofs.Expr.Lexeme
import Stencil.Proofs.Expr.Lexing
import Stencil.Proofs.Expr.Names
import Stencil.Proofs.Expr.Shortcut
import Stencil.Proofs.Context.Checkpoints
import Stencil.Proofs.Entries
import Stencil.Proofs.Host.Agreement
import Stencil.Proofs.Host.Collection
import Stencil.Proofs.Number.Finite
import Stencil.Proofs.Number.Rounding
import Stencil.Proofs.Render.Chains
import Stencil.Proofs.Render.Concatenation
import Stencil.Proofs.Render.Course
import Stencil.Proofs.Render.Execution
import Stencil.Proofs.Render.Inclusion
import Stencil.Proofs.Render.Layout
import Stencil.Proofs.Render.Locality
import Stencil.Proofs.Render.Loops
import Stencil.Proofs.Render.Restoration
import Stencil.Proofs.Render.Steps
import Stencil.Proofs.Render.WellFormed
import Stencil.Proofs.Template.AttributeValue
import Stencil.Proofs.Template.Attributes
import Stencil.Proofs.Template.Classes
import Stencil.Proofs.Template.Nesting
import Stencil.Proofs.Template.Numbering
import Stencil.Proofs.Template.Preorder
import Stencil.Proofs.Template.Reading
import Stencil.Proofs.Template.Tag
import Stencil.Proofs.Text.Mention
import Stencil.Proofs.Value.Comparison
import Stencil.Proofs.Value.Laws
import Stencil.Proofs.Value.Symmetry
import Stencil.Proofs.Expr.Spelling
import Stencil.Proofs.Markup.StartTag
import Stencil.Proofs.Markup.Entities
import Stencil.Proofs.Template.LoopHeader
import Stencil.Proofs.Template.Markers
import Stencil.Proofs.Render.StartTags
import Stencil.Proofs.Template.AttributeList
import Stencil.Proofs.Template.WellFormed
import Stencil.Proofs.Expr.Safety
import Stencil.Proofs.Expr.Path
import Stencil.Proofs.Expr.Literals
import Stencil.Proofs.Expr.Substring
import Stencil.Proofs.Text.Pieces
import Stencil.Proofs.Expr.Joining
import Stencil.Proofs.Value.Kinds
import Stencil.Proofs.Expr.Extremes
import Stencil.Proofs.Render.Views
import Stencil.Proofs.Template.Words
