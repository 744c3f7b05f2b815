import KeyCustody.Json.Token

/-!
# JSON values

A JSON value as it is written: arrays and objects in order, with repeated names where the text
repeats them, numbers by their numerals and strings by their bodies. `Json.parse?` reads a text that
consists of one value, and `Json.render` writes a value without blanks.

Reading puts the tokens of a text together with an explicit stack of unfinished arrays and objects
(`Stage`), so the depth of a text costs no depth of recursion.
-/

namespace KeyCustody

/-- A JSON value as it is written. -/
inductive Json where
  | null
  | bool (value : Bool)
  | number (numeral : Bytes)
  | string (body : Bytes)
  | array (items : List Json)
  | object (members : List (Bytes × Json))

namespace Json

/-! ### Writing -/

mutual

/-- The tokens of a value. -/
def tokens : Json → List Token
  | .null => [.null]
  | .bool value => [.bool value]
  | .number numeral => [.number numeral]
  | .string body => [.string body]
  | .array items => .openArray :: itemTokens items
  | .object members => .openObject :: memberTokens members

/-- The tokens of the items of an array, up to its end. -/
def itemTokens : List Json → List Token
  | [] => [.closeArray]
  | item :: rest => item.tokens ++ moreItemTokens rest

/-- The tokens of the items of an array after an item. -/
def moreItemTokens : List Json → List Token
  | [] => [.closeArray]
  | item :: rest => .comma :: (item.tokens ++ moreItemTokens rest)

/-- The tokens of the members of an object, up to its end. -/
def memberTokens : List (Bytes × Json) → List Token
  | [] => [.closeObject]
  | member :: rest => memberToken member ++ moreMemberTokens rest

/-- The tokens of the members of an object after a member. -/
def moreMemberTokens : List (Bytes × Json) → List Token
  | [] => [.closeObject]
  | member :: rest => .comma :: (memberToken member ++ moreMemberTokens rest)

/-- The tokens of one member. -/
def memberToken : Bytes × Json → List Token
  | (name, value) => .string name :: .colon :: value.tokens

end

/-- A value written without blanks. -/
def render (value : Json) : Bytes := value.tokens.flatMap Token.text

/-! ### Reading -/

/-- An array or object whose end has not been read; what it holds so far stands last one first.
An object waits for the value of `name`. -/
inductive Frame where
  | array (done : List Json)
  | object (done : List (Bytes × Json)) (name : Bytes)

/-- What may come next, inside the unfinished arrays and objects, innermost first. -/
inductive Stage where
  | needValue (stack : List Frame)
  | firstItem (stack : List Frame)
  | firstName (stack : List Frame)
  | needName (stack : List Frame) (done : List (Bytes × Json))
  | needColon (stack : List Frame) (done : List (Bytes × Json)) (name : Bytes)
  | after (stack : List Frame) (value : Json)

/-- The token where a value has to begin. -/
def Stage.feedValue (stack : List Frame) : Token → Option Stage
  | .null => some (.after stack .null)
  | .bool value => some (.after stack (.bool value))
  | .number numeral => some (.after stack (.number numeral))
  | .string body => some (.after stack (.string body))
  | .openArray => some (.firstItem stack)
  | .openObject => some (.firstName stack)
  | _ => none

/-- The stage after one more token. -/
def Stage.feed : Stage → Token → Option Stage
  | .needValue stack, token => feedValue stack token
  | .firstItem stack, .closeArray => some (.after stack (.array []))
  | .firstItem stack, token => feedValue (.array [] :: stack) token
  | .firstName stack, .closeObject => some (.after stack (.object []))
  | .firstName stack, .string name => some (.needColon stack [] name)
  | .needName stack done, .string name => some (.needColon stack done name)
  | .needColon stack done name, .colon => some (.needValue (.object done name :: stack))
  | .after (.array done :: stack) value, .comma =>
    some (.needValue (.array (value :: done) :: stack))
  | .after (.array done :: stack) value, .closeArray =>
    some (.after stack (.array (value :: done).reverse))
  | .after (.object done name :: stack) value, .comma =>
    some (.needName stack ((name, value) :: done))
  | .after (.object done name :: stack) value, .closeObject =>
    some (.after stack (.object ((name, value) :: done).reverse))
  | _, _ => none

/-- The value that is complete when no token is left. -/
def Stage.value? : Stage → Option Json
  | .after [] value => some value
  | _ => none

/-- The value that a list of tokens spells. -/
def ofTokens? (tokens : List Token) : Option Json :=
  (tokens.foldlM Stage.feed (.needValue [])).bind Stage.value?

/-- The value that a text consists of, with blanks allowed around it. -/
def parse? (text : Bytes) : Option Json := (Token.list? text).bind ofTokens?

end Json

end KeyCustody
