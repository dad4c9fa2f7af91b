import Stencil.Config.Read
import Stencil.Decimal.Read
import Stencil.Host.Script
import Stencil.Proofs.Text.Search
import Stencil.Proofs.Tag
import Stencil.Proofs.Descent
import Stencil.Proofs.Node
import Stencil.Proofs.Segment
import Stencil.Proofs.Outline
import Stencil.Proofs.Depth
import Stencil.Proofs.Layout
import Stencil.Proofs.Seam
import Stencil.Proofs.Raw
import Stencil.Proofs.Append
import Stencil.Proofs.Change
import Stencil.Proofs.Render.Job
import Stencil.Proofs.Render.Data
import Stencil.Proofs.Render.Law
import Stencil.Proofs.Render.Restore
import Stencil.Proofs.Render.Machine
import Stencil.Proofs.Contents
import Stencil.Proofs.Context
import Stencil.Proofs.Render.Coupling
import Stencil.Proofs.Render.Alike
import Stencil.Proofs.Render.Cache
import Stencil.Proofs.Text.Respace
import Stencil.Proofs.Text.Indent
import Stencil.Proofs.Indent
import Stencil.Proofs.Lines
import Stencil.Proofs.Respace
import Stencil.Proofs.SideBySide
import Stencil.Proofs.Shape
import Stencil.Proofs.LineEnds
import Stencil.Proofs.Render.Outcome
import Stencil.Proofs.Render.Paste
import Stencil.Proofs.Render.Laxer
import Stencil.Proofs.Render.Confined
import Stencil.Proofs.Render.Unused
import Stencil.Proofs.Escape
import Stencil.Proofs.Render.Written
import Stencil.Proofs.Render.Escaped
import Stencil.Proofs.Finality
import Stencil.Proofs.LineRule
import Stencil.Proofs.WellFormed
import Stencil.Proofs.Render.Ways
import Stencil.Proofs.Resolution
import Stencil.Proofs.Text.Position
import Stencil.Proofs.Stack
import Stencil.Proofs.Blame
import Stencil.Proofs.Grammar
import Stencil.Proofs.Stripped
import Stencil.Proofs.Render.Stripped
import Stencil.Proofs.Outside
import Stencil.Proofs.Comment
import Stencil.Proofs.PlainForm
import Stencil.Proofs.Render.Block
import Stencil.Proofs.Render.Dotted
import Stencil.Proofs.Render.Calls
import Stencil.Proofs.LineView
import Stencil.Proofs.Unescape
import Stencil.Proofs.Offset.Lap
import Stencil.Proofs.Offset.Reader
import Stencil.Proofs.Frames
