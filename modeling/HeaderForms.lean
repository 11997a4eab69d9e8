import HeaderForms.Main
import HeaderForms.File.Tree
import HeaderForms.Proofs.Form.RoundTrip
import HeaderForms.Proofs.Macro.Expansion
import HeaderForms.Proofs.Header.RoundTrip
import HeaderForms.Proofs.Form.Substitution
import HeaderForms.Proofs.Macro.Template
import HeaderForms.Proofs.Macro.Table
import HeaderForms.Proofs.Header.Macros
import HeaderForms.Proofs.Macro.Definition
import HeaderForms.Proofs.Include.Run
import HeaderForms.Proofs.Token.Parser
import HeaderForms.Proofs.Header.Account
import HeaderForms.Proofs.Token.RoundTrip
import HeaderForms.Proofs.Token.Reads
import HeaderForms.Proofs.Expr.Shape
import HeaderForms.Proofs.Expr.Rendering
import HeaderForms.Proofs.Expr.Levels
import HeaderForms.Proofs.Expr.Reading
import HeaderForms.Proofs.Expr.RoundTrip
import HeaderForms.Proofs.Token.Joined
import HeaderForms.Proofs.Header.Recovery
import HeaderForms.Proofs.Header.Legacy
import HeaderForms.Proofs.Header.History
import HeaderForms.Proofs.Macro.Arguments
import HeaderForms.Proofs.Token.Balance
import HeaderForms.Proofs.Expr.Balance
import HeaderForms.Proofs.TypeExpr.Balance
import HeaderForms.Proofs.Macro.Unquotes
import HeaderForms.Proofs.ByteOrder
import HeaderForms.Proofs.Macro.Entries
import HeaderForms.Proofs.Template.Nesting
import HeaderForms.Proofs.Macro.Parameters
import HeaderForms.Proofs.TypeExpr.Shape
import HeaderForms.Proofs.TypeExpr.Rendering
import HeaderForms.Proofs.TypeExpr.RoundTrip
import HeaderForms.Proofs.Declaration.Conversion
import HeaderForms.Proofs.Declaration.Arity
import HeaderForms.Proofs.Declaration.Head
import HeaderForms.Proofs.Header.Integers
import HeaderForms.Proofs.Expr.Literal
import HeaderForms.Proofs.Include.Library
import HeaderForms.Proofs.Form.Precision
import HeaderForms.Proofs.Macro.Calls
import HeaderForms.Proofs.TypeExpr.Bitstring
import HeaderForms.Proofs.Form.Spelling
import HeaderForms.Proofs.Form.Diagnosis
