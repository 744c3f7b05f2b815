import KeyCustody.Bytes.Basic

/-!
# Tokens of JSON texts

`Token.list?` cuts a byte string into the tokens of a JSON text, or refuses it. A string token keeps
its body, the octets between the quotation marks, as it was written, and a number token keeps its
numeral: what they denote is decided only where a value is wanted, so that parts of a message which
nobody reads are held to the grammar alone. `Token.text` writes a token.

The cutting is one pass over the octets with a small state, `Mode`.
-/

namespace KeyCustody.Json

/-- A token: one of six marks, one of three words, a numeral or the body of a string. -/
inductive Token where
  | openArray
  | closeArray
  | openObject
  | closeObject
  | comma
  | colon
  | null
  | bool (value : Bool)
  | number (numeral : Bytes)
  | string (body : Bytes)
  deriving DecidableEq, Repr

/-- The quotation mark. -/
def quote : UInt8 := 0x22

/-- The backslash. -/
def backslash : UInt8 := 0x5c

/-- The letter that begins an escape by code unit. -/
def unitMark : UInt8 := 0x75

/-- The octets that may stand between two tokens: space, tabulator and the two line ends. -/
def isBlank (b : UInt8) : Bool := b == 0x20 || b == 0x09 || b == 0x0a || b == 0x0d

/-- The decimal digits. -/
def isDigit (b : UInt8) : Bool := 0x30 ≤ b && b ≤ 0x39

/-- The lower-case letters, of which words are made. -/
def isLetter (b : UInt8) : Bool := 0x61 ≤ b && b ≤ 0x7a

/-- The octets of which numerals are made: digits, signs, the point and the exponent mark. -/
def isNumeric (b : UInt8) : Bool :=
  isDigit b || b == 0x2d || b == 0x2b || b == 0x2e || b == 0x65 || b == 0x45

/-- The hexadecimal digits. -/
def isHexDigit (b : UInt8) : Bool :=
  isDigit b || (0x61 ≤ b && b ≤ 0x66) || (0x41 ≤ b && b ≤ 0x46)

/-- The character that a backslash and one letter stand for, if there is one. -/
def shortEscape? (b : UInt8) : Option UInt8 :=
  if b = quote ∨ b = backslash ∨ b = 0x2f then some b
  else if b = 0x62 then some 0x08
  else if b = 0x66 then some 0x0c
  else if b = 0x6e then some 0x0a
  else if b = 0x72 then some 0x0d
  else if b = 0x74 then some 0x09
  else none

/-! ### Numerals -/

/-- Whether nothing or an exponent follows the digits of a numeral. -/
def isExponent : Bytes → Bool
  | [] => true
  | mark :: rest =>
    (mark == 0x65 || mark == 0x45) &&
      let digits := match rest with
        | sign :: rest => if sign == 0x2b || sign == 0x2d then rest else sign :: rest
        | [] => []
      !digits.isEmpty && digits.all isDigit

/-- Whether nothing, a fraction, an exponent or both follow the whole digits of a numeral. -/
def isFraction : Bytes → Bool
  | 0x2e :: digit :: rest => isDigit digit && isExponent (rest.dropWhile isDigit)
  | rest => isExponent rest

/-- Whether a byte string is a numeral without a sign: whole digits with no leading zero, then a
fraction and an exponent, both optional. -/
def isUnsigned : Bytes → Bool
  | [] => false
  | first :: rest =>
    if first == 0x30 then isFraction rest
    else isDigit first && isFraction (rest.dropWhile isDigit)

/-- Whether a byte string is a numeral. -/
def isNumeral : Bytes → Bool
  | 0x2d :: rest => isUnsigned rest
  | rest => isUnsigned rest

/-! ### Words -/

/-- The token that a word stands for. -/
def Token.ofWord? (word : Bytes) : Option Token :=
  if word = Bytes.ofText "null" then some .null
  else if word = Bytes.ofText "true" then some (.bool true)
  else if word = Bytes.ofText "false" then some (.bool false)
  else none

/-- The token that a run of numeric octets stands for. -/
def Token.ofNumeral? (run : Bytes) : Option Token :=
  if isNumeral run then some (.number run) else none

/-! ### Cutting -/

/-- The state of the cutting between two octets. The octets of an unfinished token are held last
one first. -/
inductive Mode where
  | between
  | word (octets : Bytes)
  | numeral (octets : Bytes)
  | body (octets : Bytes)
  | escape (octets : Bytes)
  | unit (missing : Nat) (octets : Bytes)
  deriving DecidableEq, Repr

/-- The first octet of a token, or a blank. -/
@[inline] def Mode.start (b : UInt8) : Option (Mode × List Token) :=
  if isBlank b then some (.between, [])
  else if b = 0x5b then some (.between, [.openArray])
  else if b = 0x5d then some (.between, [.closeArray])
  else if b = 0x7b then some (.between, [.openObject])
  else if b = 0x7d then some (.between, [.closeObject])
  else if b = 0x2c then some (.between, [.comma])
  else if b = 0x3a then some (.between, [.colon])
  else if b = quote then some (.body [], [])
  else if isLetter b then some (.word [b], [])
  else if isNumeric b then some (.numeral [b], [])
  else none

/-- The first octet after a token that it ends. -/
@[inline] def Mode.startAfter (token : Option Token) (b : UInt8) : Option (Mode × List Token) :=
  match token, Mode.start b with
  | some token, some (mode, tokens) => some (mode, token :: tokens)
  | _, _ => none

/-- One octet: the new state and the tokens that it completes. -/
@[inline] def Mode.step : Mode → UInt8 → Option (Mode × List Token)
  | .between, b => start b
  | .word octets, b =>
    if isLetter b then some (.word (b :: octets), [])
    else startAfter (Token.ofWord? octets.reverse) b
  | .numeral octets, b =>
    if isNumeric b then some (.numeral (b :: octets), [])
    else startAfter (Token.ofNumeral? octets.reverse) b
  | .body octets, b =>
    if b = quote then some (.between, [.string octets.reverse])
    else if b = backslash then some (.escape (b :: octets), [])
    else if b < 0x20 then none
    else some (.body (b :: octets), [])
  | .escape octets, b =>
    if b = unitMark then some (.unit 3 (b :: octets), [])
    else if (shortEscape? b).isSome then some (.body (b :: octets), [])
    else none
  | .unit missing octets, b =>
    if isHexDigit b then
      match missing with
      | 0 => some (.body (b :: octets), [])
      | missing + 1 => some (.unit missing (b :: octets), [])
    else none

/-- The tokens that the end of the text completes. -/
def Mode.finish : Mode → Option (List Token)
  | .between => some []
  | .word octets => (Token.ofWord? octets.reverse).map ([·])
  | .numeral octets => (Token.ofNumeral? octets.reverse).map ([·])
  | _ => none

/-- The tokens of a text of which a part has been cut; `done` holds them last one first. -/
def Token.cut (mode : Mode) (done : List Token) : Bytes → Option (List Token)
  | [] => mode.finish.map fun tokens => (tokens.reverse ++ done).reverse
  | b :: rest =>
    match mode.step b with
    | none => none
    | some (mode, tokens) => Token.cut mode (tokens.reverse ++ done) rest

/-- The tokens of a JSON text. -/
def Token.list? (text : Bytes) : Option (List Token) := Token.cut .between [] text

/-- A token as it is written. -/
def Token.text : Token → Bytes
  | .openArray => [0x5b]
  | .closeArray => [0x5d]
  | .openObject => [0x7b]
  | .closeObject => [0x7d]
  | .comma => [0x2c]
  | .colon => [0x3a]
  | .null => Bytes.ofText "null"
  | .bool true => Bytes.ofText "true"
  | .bool false => Bytes.ofText "false"
  | .number numeral => numeral
  | .string body => quote :: body ++ [quote]

end KeyCustody.Json
