import LinearModel.Json.Token

/-!
# JSON texts as trees

A tree is what the brackets of a text say, with its literals as they are spelled. It is built
token by token: `Reading` is the state in between, a stack of the arrays and objects that are
still open and what is expected next. There is no limit on the nesting here.
-/

namespace LinearModel.Json

/-- A JSON text by its brackets. The members of an object keep their order and repetitions. -/
inductive Tree where
  | null
  | bool (value : Bool)
  | number (literal : NumberLiteral)
  | string (literal : StringLiteral)
  | array (items : List Tree)
  | object (members : List (StringLiteral × Tree))

/-- An array or object that is open: what it holds so far, last first, and for an object the key
whose value is being read. -/
inductive OpenNode where
  | array (items : List Tree)
  | object (members : List (StringLiteral × Tree)) (key : StringLiteral)

/-- What has been read, by what has to come next. -/
inductive Reading where
  /-- A value. -/
  | value (stack : List OpenNode)
  /-- The first item of an array, or its end. -/
  | firstItem (stack : List OpenNode)
  /-- The first key of an object, or its end. -/
  | firstKey (stack : List OpenNode)
  /-- The next key of an object. -/
  | key (members : List (StringLiteral × Tree)) (stack : List OpenNode)
  /-- The colon after a key. -/
  | colon (members : List (StringLiteral × Tree)) (key : StringLiteral) (stack : List OpenNode)
  /-- What follows a value: the next part of the innermost open node, or its end. -/
  | after (tree : Tree) (stack : List OpenNode)

namespace Reading

/-- The first token of a value. -/
def openValue (stack : List OpenNode) : Token → Option Reading
  | .null => some (.after .null stack)
  | .bool b => some (.after (.bool b) stack)
  | .number literal => some (.after (.number literal) stack)
  | .string literal => some (.after (.string literal) stack)
  | .leftBracket => some (.firstItem stack)
  | .leftBrace => some (.firstKey stack)
  | _ => none

/-- The token after a value. -/
def goOn (tree : Tree) : List OpenNode → Token → Option Reading
  | .array items :: stack, .comma => some (.value (.array (tree :: items) :: stack))
  | .array items :: stack, .rightBracket => some (.after (.array (tree :: items).reverse) stack)
  | .object members name :: stack, .comma => some (.key ((name, tree) :: members) stack)
  | .object members name :: stack, .rightBrace =>
    some (.after (.object ((name, tree) :: members).reverse) stack)
  | _, _ => none

/-- One more token. -/
def step : Reading → Token → Option Reading
  | value stack, token => openValue stack token
  | firstItem stack, .rightBracket => some (.after (.array []) stack)
  | firstItem stack, token => openValue (.array [] :: stack) token
  | firstKey stack, .rightBrace => some (.after (.object []) stack)
  | firstKey stack, .string literal => some (.colon [] literal stack)
  | key members stack, .string literal => some (.colon members literal stack)
  | colon members name stack, .colon => some (.value (.object members name :: stack))
  | after tree stack, token => goOn tree stack token
  | _, _ => none

/-- The whole tree, if it is complete. -/
def finish? : Reading → Option Tree
  | after tree [] => some tree
  | _ => none

end Reading

namespace Tree

/-- The tree of exactly these tokens. -/
def ofTokens? (tokens : List Token) : Option Tree :=
  (tokens.foldlM Reading.step (.value [])).bind Reading.finish?

/-- The tree of a text. -/
def ofText? (text : String) : Option Tree := (Token.scan text.toList).bind ofTokens?

end Tree

end LinearModel.Json
