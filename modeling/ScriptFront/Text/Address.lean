/-!
# Addresses and paths

A rough test for texts that name a resource: absolute addresses with a scheme, rooted and relative
paths, paths on a lettered drive, and bare host names of the web.
-/

namespace ScriptFront.Text

/-- Whether `part` occurs in a text. -/
def occursIn (part : List Char) : List Char → Bool
  | [] => part.isEmpty
  | c :: rest => part.isPrefixOf (c :: rest) || occursIn part rest

/-- Whether a text begins with a drive letter, a colon and a slash of either kind. -/
def hasDrive : List Char → Bool
  | letter :: ':' :: slash :: _ => letter.isAlpha && (slash == '\\' || slash == '/')
  | _ => false

/-- Whether a text looks like an address or a path. -/
def looksLikeAddress (s : String) : Bool :=
  let cs := s.toList
  hasDrive cs || occursIn "://".toList cs ||
    ["/", "./", "../", "www."].any fun start ↦ start.toList.isPrefixOf cs

end ScriptFront.Text
