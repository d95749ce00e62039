/-!
# Patterns of tokens

An extension says by a pattern which tokens it recognises. A pattern is a sequence of elements; an
element is a leaf, which matches one token or one run of tokens, a group of elements, or the choice
of two elements. Every element is either required or optional.

That an element is optional is a flag of the element and not an element around it. So nothing can be
optional twice, and the elements of a pattern that must match can be counted.
-/

namespace ScriptFront

/-- What a typed leaf accepts. -/
inductive LeafType where
  | number
  | word
  /-- A time of day: an hour, with or without minutes and half of the day. -/
  | time
  /-- A truth value or a word for one. -/
  | bool
  /-- A string literal that looks like an address or a path. -/
  | uri
  /-- A token that the extension may start at. -/
  | startToken
  | identSymbol
  /-- A name whose plural is defined. -/
  | singularSymbol
  /-- Names with commas between them. -/
  | paramNames
  /-- A key of the first map of the extension. -/
  | tokenMap1
  /-- A key of the second map of the extension. -/
  | tokenMap2
  /-- A token that closes an expression; it is looked at and left. -/
  | exprTerminators
deriving DecidableEq, Repr

namespace LeafType

def all : List LeafType :=
  [.number, .word, .time, .bool, .uri, .startToken, .identSymbol, .singularSymbol, .paramNames,
    .tokenMap1, .tokenMap2, .exprTerminators]

def name : LeafType → String
  | .number => "Number"
  | .word => "Word"
  | .time => "Time"
  | .bool => "Bool"
  | .uri => "Uri"
  | .startToken => "StartToken"
  | .identSymbol => "IdentSymbol"
  | .singularSymbol => "SingularSymbol"
  | .paramNames => "ParamNames"
  | .tokenMap1 => "TokenMap1"
  | .tokenMap2 => "TokenMap2"
  | .exprTerminators => "ExprTerminators"

/-- The small form of a character, as far as names of types need it: the sign for the unit of
temperature is a capital letter too. -/
def lower (c : Char) : Char := if c = '\u212A' then 'k' else c.toLower

/-- The type that a name means; case, signs in front and joining marks do not count. -/
def ofName? (text : String) : Option LeafType :=
  let plain :=
    ((text.toList.dropWhile (· == '@')).filter fun c ↦ c != '-' && c != '_').map lower
  all.find? fun type ↦ type.name.toList.map Char.toLower == plain

/-- Whether a match yields a value beside the matched text. -/
def hasValue : LeafType → Bool
  | .number | .time | .word | .bool | .startToken | .paramNames | .tokenMap1 | .tokenMap2 => true
  | .uri | .identSymbol | .singularSymbol | .exprTerminators => false

end LeafType

/-- A leaf of a pattern. -/
inductive Leaf where
  /-- The token with this spelling. -/
  | literal (text : String)
  /-- A token of a type, captured under a name. -/
  | typed (name : String) (type : LeafType)
  /-- One of several spellings in any case, captured under a name. -/
  | oneOf (name : String) (values : List String)
  /-- Any token the first time the name occurs, and the same spelling again afterwards. -/
  | sameAs (name : String)
deriving DecidableEq, Repr

/-- An element of a pattern. -/
inductive Element where
  /-- A token or a run of tokens. -/
  | leaf (leaf : Leaf) (required : Bool)
  /-- Elements one after the other. -/
  | group (elements : List Element) (required : Bool)
  /-- The first element that matches. -/
  | either (left right : Element) (required : Bool)
deriving Repr

namespace Element

/-- Whether the element must match. -/
def required : Element → Bool
  | .leaf _ required | .group _ required | .either _ _ required => required

/-- The element made optional. -/
def asOptional : Element → Element
  | .leaf l _ => .leaf l false
  | .group elements _ => .group elements false
  | .either left right _ => .either left right false

/-- How many of the elements must match. -/
def requiredCount (elements : List Element) : Nat := (elements.filter required).length

end Element

end ScriptFront
