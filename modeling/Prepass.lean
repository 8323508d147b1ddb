import Prepass.Scan
import Prepass.Proofs.Macro.Restoring
import Prepass.Proofs.Macro.Balance
import Prepass.Proofs.Macro.Ending
import Prepass.Proofs.Directive.Keyword
import Prepass.Proofs.Token.Lexeme
import Prepass.Proofs.Conditional.Role
import Prepass.Proofs.Session.Aloof
import Prepass.Proofs.Conditional.Tree
import Prepass.Proofs.Conditional.Steps
import Prepass.Proofs.Conditional.Passing
import Prepass.Proofs.Conditional.Refinement
import Prepass.Proofs.Session.Reachable
import Prepass.Proofs.Macro.Silence
import Prepass.Proofs.Session.Listing
import Prepass.Proofs.Session.Lockstep
import Prepass.Proofs.Scan.Isolation
import Prepass.Proofs.Token.Content
import Prepass.Proofs.Macro.ObjectLike
import Prepass.Proofs.Conditional.Counting
import Prepass.Proofs.Macro.Signs
import Prepass.Proofs.Macro.Faultless
import Prepass.Proofs.Expression.Blame
import Prepass.Proofs.Directive.Lexed
import Prepass.Proofs.Session.Run
import Prepass.Proofs.Session.Safety
import Prepass.Proofs.Macro.Telling
import Prepass.Proofs.Macro.Placeless
import Prepass.Proofs.Macro.Deeper
import Prepass.Proofs.Token.Respelling
import Prepass.Proofs.Macro.Identity
import Prepass.Proofs.Conditional.Move
import Prepass.Proofs.Conditional.Coherence
import Prepass.Proofs.Macro.Lexed
import Prepass.Proofs.Token.Stream
import Prepass.Proofs.Session.Segments
import Prepass.Proofs.Expression.Grammar
import Prepass.Proofs.Expression.Reading
import Prepass.Proofs.Expression.Climbing
import Prepass.Proofs.Expression.Exactness
import Prepass.Proofs.Line.Phases
import Prepass.Proofs.Line.Cleaning
import Prepass.Proofs.Line.Agreement
import Prepass.Proofs.Text.Classes
import Prepass.Proofs.Token.Recogniser
import Prepass.Proofs.Token.Reading
import Prepass.Proofs.Token.Lossless
import Prepass.Proofs.Token.Layout
import Prepass.Proofs.Directive.Spelling
import Prepass.Proofs.Line.Continuation
import Prepass.Proofs.Line.Composition
import Prepass.Proofs.Token.Adjacent
import Prepass.Proofs.Directive.Definition
import Prepass.Proofs.Directive.Yields
import Prepass.Proofs.Directive.Parameters
import Prepass.Proofs.Directive.Redefinition
import Prepass.Proofs.Session.Undefining
import Prepass.Proofs.Macro.Invocation
import Prepass.Proofs.Macro.Substituting
import Prepass.Proofs.Expression.Operands
import Prepass.Proofs.Expression.Arithmetic
import Prepass.Proofs.Expression.Integers
import Prepass.Proofs.Macro.Pieces
import Prepass.Proofs.Macro.Pasting
import Prepass.Proofs.Line.Accounting
import Prepass.Proofs.Line.Retention
import Prepass.Proofs.Macro.Stringizing
import Prepass.Proofs.Directive.Defining
import Prepass.Proofs.Directive.Inclusion
import Prepass.Proofs.Macro.Placed
import Prepass.Proofs.Session.Windows
import Prepass.Proofs.Session.Including
import Prepass.Proofs.Line.Columns
import Prepass.Proofs.Token.Columns
import Prepass.Proofs.Macro.Layout
import Prepass.Proofs.Macro.Ceiling
import Prepass.Proofs.Macro.Renaming
import Prepass.Proofs.Macro.Slots
import Prepass.Proofs.Macro.Chains
import Prepass.Proofs.Macro.Rewriting
import Prepass.Proofs.Line.Shape
