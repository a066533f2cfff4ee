import LuaSearch.Cli.Run
import LuaSearch.Main
import LuaSearch.Match.Find
import LuaSearch.Match.Session
import LuaSearch.Parse.Chunk
import LuaSearch.Syntax.Outline
import LuaSearch.Template
import LuaSearch.Token.Cover
import LuaSearch.Proofs.Match.Nesting
import LuaSearch.Proofs.Match.Occurrence
import LuaSearch.Proofs.Match.Report
import LuaSearch.Proofs.Match.Exhaustive
import LuaSearch.Proofs.Match.Greedy
import LuaSearch.Proofs.Match.Simulation
import LuaSearch.Proofs.Match.Rollback
import LuaSearch.Proofs.Match.Relabel
import LuaSearch.Proofs.Parse.Agree
import LuaSearch.Proofs.Parse.Layout.Expression
import LuaSearch.Proofs.Parse.Layout.Statement
import LuaSearch.Proofs.Layout
import LuaSearch.Proofs.Match.Halt
import LuaSearch.Proofs.Match.Policy
import LuaSearch.Proofs.Match.Similar
import LuaSearch.Proofs.Parse.Gives
import LuaSearch.Proofs.Parse.Depth
import LuaSearch.Proofs.Match.Limit
import LuaSearch.Proofs.Text.Quote
import LuaSearch.Proofs.Token.Stop
import LuaSearch.Proofs.Token.Lexeme
import LuaSearch.Proofs.Syntax.Render
import LuaSearch.Proofs.Parse.Reads
import LuaSearch.Proofs.Syntax.Standing
import LuaSearch.Proofs.Parse.Lead
import LuaSearch.Proofs.RoundTrip
import LuaSearch.Proofs.Match.Independence
import LuaSearch.Proofs.Match.Cursor
import LuaSearch.Proofs.Match.Completeness
import LuaSearch.Proofs.Match.SingleStatement
import LuaSearch.Proofs.Match.Origin
import LuaSearch.Proofs.Match.Anchor
import LuaSearch.Proofs.Match.Headroom
import LuaSearch.Proofs.Parse.Formed.Expression
import LuaSearch.Proofs.Parse.Formed.Statement
import LuaSearch.Proofs.Match.Reflexive
import LuaSearch.Proofs.Span
import LuaSearch.Proofs.Token.Tiling
import LuaSearch.Proofs.Literal
import LuaSearch.Proofs.Parse.Precedence
import LuaSearch.Proofs.Parse.Lands
import LuaSearch.Proofs.Syntax.Placed
import LuaSearch.Proofs.Parse.Placed.Expression
import LuaSearch.Proofs.Parse.Placed.Statement
import LuaSearch.Proofs.Slices
import LuaSearch.Proofs.Syntax.Parts
import LuaSearch.Proofs.Syntax.Outline
import LuaSearch.Proofs.Lowering
import LuaSearch.Proofs.Match.Rules
import LuaSearch.Proofs.Match.Transitive
import LuaSearch.Proofs.Match.Tally
import LuaSearch.Proofs.Match.Lowering
import LuaSearch.Proofs.Parse.Formed.Tree
import LuaSearch.Proofs.Token.Munch
import LuaSearch.Proofs.Token.Proper
import LuaSearch.Proofs.Phrase.Expression
import LuaSearch.Proofs.Phrase.Operand
import LuaSearch.Proofs.Phrase.Statement
import LuaSearch.Proofs.Phrase.Block
import LuaSearch.Proofs.Phrase.Source
import LuaSearch.Proofs.Parse.Leaves
import LuaSearch.Proofs.Concrete.Syntax
import LuaSearch.Proofs.Concrete.Reads
import LuaSearch.Proofs.Concrete.Found.Expression
import LuaSearch.Proofs.Concrete.Found.Statement
import LuaSearch.Proofs.Concrete.Source
import LuaSearch.Proofs.Concrete.WrittenOut
import LuaSearch.Proofs.Concrete.Printed
import LuaSearch.Proofs.Shorthand
import LuaSearch.Proofs.Respacing
import LuaSearch.Proofs.Parse.Steps
import LuaSearch.Proofs.Parse.Steps.Expression
import LuaSearch.Proofs.Parse.Steps.Statement
import LuaSearch.Proofs.Parse.Forward
import LuaSearch.Proofs.Parse.Calls
import LuaSearch.Proofs.Parse.OperatorChain
import LuaSearch.Proofs.Match.Recorded
import LuaSearch.Proofs.Shown
import LuaSearch.Proofs.Json
import LuaSearch.Proofs.Syntax.Json
import LuaSearch.Proofs.Cli.Search
import LuaSearch.Proofs.Parse.Unended
import LuaSearch.Proofs.Parse.Unended.Expression
import LuaSearch.Proofs.Parse.Unended.Statement
import LuaSearch.Proofs.Match.EmptyTemplate
import LuaSearch.Proofs.Match.Recursion
import LuaSearch.Proofs.Position
