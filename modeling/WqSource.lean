import WqSource.Main
import WqSource.Proofs.Tree.Parts
import WqSource.Proofs.Tree.Shape
import WqSource.Proofs.Complete.Block
import WqSource.Proofs.Complete.Operator
import WqSource.Proofs.Complete.Program
import WqSource.Proofs.Token.Number
import WqSource.Proofs.Token.Numeral
import WqSource.Proofs.Alike.Cursor
import WqSource.Proofs.Alike.Rules
import WqSource.Proofs.Alike.Block
import WqSource.Proofs.Alike.Primary
import WqSource.Proofs.Alike.Operator
import WqSource.Proofs.Alike.Program
import WqSource.Proofs.Alike.Layout
import WqSource.Proofs.Token.Extent
import WqSource.Proofs.Token.Append
import WqSource.Proofs.Alike.Seam
import WqSource.Proofs.Alike.Lines
import WqSource.Proofs.Spans.Cursor
import WqSource.Proofs.Spans.Block
import WqSource.Proofs.Spans.Primary
import WqSource.Proofs.Spans.Operator
import WqSource.Proofs.Spans.Program
import WqSource.Proofs.Token.Lexeme
import WqSource.Proofs.Token.Reading
import WqSource.Proofs.Token.Tiling
import WqSource.Proofs.Token.Spelled
import WqSource.Proofs.Tree.Spacing
import WqSource.Proofs.Tree.Balance
import WqSource.Proofs.Complete.Text
import WqSource.Proofs.Sound.Words
import WqSource.Proofs.Complete.Format
import WqSource.Proofs.Alone.Cut
import WqSource.Proofs.Alone.Block
import WqSource.Proofs.Alone.Primary
import WqSource.Proofs.Alone.Operator
import WqSource.Proofs.Alone.Expression
import WqSource.Proofs.Origin.Block
import WqSource.Proofs.Origin.Primary
import WqSource.Proofs.Origin.Operator
import WqSource.Proofs.Origin.Program
import WqSource.Proofs.Token.Slice
import WqSource.Proofs.Alone.Program
import WqSource.Proofs.Token.Exact
import WqSource.Proofs.Grammar.Apart
import WqSource.Proofs.Command.Verdict
import WqSource.Proofs.Tree.Levels
import WqSource.Proofs.Nesting.Counter
import WqSource.Proofs.Nesting.Grammar
import WqSource.Proofs.Nesting.Session
import WqSource.Proofs.Nesting.Limit
import WqSource.Proofs.Tree.Identity
import WqSource.Proofs.Warnings.Program
import WqSource.Proofs.Nesting.Height
import WqSource.Proofs.Recovery.Resume
import WqSource.Proofs.Token.Respaced
import WqSource.Proofs.Token.Run
import WqSource.Proofs.Token.HostLine
import WqSource.Proofs.Complete.Spelling
import WqSource.Proofs.Separators.Filler
import WqSource.Proofs.Separators.Items
import WqSource.Proofs.Separators.Forms
import WqSource.Proofs.Separators.Program
import WqSource.Proofs.Separators.Arms
import WqSource.Proofs.Separators.Conditional
import WqSource.Proofs.Token.Quoted
import WqSource.Proofs.Token.Blank
import WqSource.Proofs.Complete.Blank
import WqSource.Proofs.Alone.Single
