import ScriptFront.Lexer.Basic
import ScriptFront.Window.Basic

/-!
# Sources of tokens

A lexer supplies its significant tokens as they are asked for. A list of batches supplies one batch
a time, whatever was asked.
-/

namespace ScriptFront

instance : TokenSupply Lexer where
  nextBatch count lexer :=
    match Lexer.batch count lexer with
    | .ok tokens lexer => (.ok tokens, lexer)
    | .error e lexer => (.error e, lexer)
  tokensLeft := Lexer.tokensLeft

/-- Tokens that come in batches of given sizes. -/
structure Batches where
  /-- The batches still to come. -/
  batches : List (List Token)

instance : TokenSupply Batches where
  nextBatch _ source :=
    match source.batches with
    | [] => (.ok [], source)
    | batch :: batches => (.ok batch, ⟨batches⟩)
  tokensLeft source := source.batches.flatten.length

end ScriptFront
