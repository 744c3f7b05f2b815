import KeyCustody.Json.Basic

/-!
# Texts in JSON strings

`Json.ofText` writes a text as a string: the two marks and the control characters are escaped, all
else stands as it is. `Json.text?` reads the text that a string denotes; every escape of the format
is understood, and a body that is not UTF-8, or that names half of a surrogate pair, denotes no
text.
-/

namespace KeyCustody.Json

/-! ### Writing -/

/-- The lower-case hexadecimal digit of a number below sixteen. -/
def hexDigit (n : UInt8) : UInt8 := if n < 10 then 0x30 + n else 0x57 + n

/-- An octet of a text as it is written in a string. -/
def escapeOctet (b : UInt8) : Bytes :=
  if b = quote ∨ b = backslash then [backslash, b]
  else if b = 0x08 then [backslash, 0x62]
  else if b = 0x0c then [backslash, 0x66]
  else if b = 0x0a then [backslash, 0x6e]
  else if b = 0x0d then [backslash, 0x72]
  else if b = 0x09 then [backslash, 0x74]
  else if b < 0x20 then [backslash, unitMark, 0x30, 0x30, hexDigit (b / 16), hexDigit (b % 16)]
  else [b]

/-- The string that denotes a text. -/
def ofText (s : String) : Json := .string ((Bytes.ofText s).flatMap escapeOctet)

/-! ### Reading -/

/-- The value of a hexadecimal digit of either case. -/
def hexValue (b : UInt8) : Nat :=
  if isDigit b then b.toNat - 0x30
  else if 0x61 ≤ b then b.toNat - 0x57
  else b.toNat - 0x37

/-- The code unit that four octets write in hexadecimal. -/
def codeUnit? (p q r s : UInt8) : Option Nat :=
  if [p, q, r, s].all isHexDigit then
    some (((hexValue p * 16 + hexValue q) * 16 + hexValue r) * 16 + hexValue s)
  else none

/-- The code units that begin a surrogate pair. -/
def isHighSurrogate (unit : Nat) : Bool := 0xd800 ≤ unit && unit ≤ 0xdbff

/-- The code units that end a surrogate pair. -/
def isLowSurrogate (unit : Nat) : Bool := 0xdc00 ≤ unit && unit ≤ 0xdfff

/-- The UTF-8 octets of a code point. -/
def utf8 (code : Nat) : Bytes := String.utf8EncodeChar (Char.ofNat code)

/-- The octets that a body denotes; `done` holds those already read, last one first. -/
def unescape (done : Bytes) : Bytes → Option Bytes
  | [] => some done.reverse
  | b :: rest =>
    if b ≠ backslash then unescape (b :: done) rest
    else match rest with
      | [] => none
      | mark :: rest =>
        if mark ≠ unitMark then
          match shortEscape? mark with
          | some b => unescape (b :: done) rest
          | none => none
        else match rest with
          | p :: q :: r :: s :: rest =>
            match codeUnit? p q r s with
            | none => none
            | some high =>
              if isLowSurrogate high then none
              else if isHighSurrogate high then
                match rest with
                | slash :: mark :: p :: q :: r :: s :: rest =>
                  if slash ≠ backslash ∨ mark ≠ unitMark then none
                  else match codeUnit? p q r s with
                    | none => none
                    | some low =>
                      if isLowSurrogate low then
                        let code := 0x10000 + (high - 0xd800) * 0x400 + (low - 0xdc00)
                        unescape ((utf8 code).reverse ++ done) rest
                      else none
                | _ => none
              else unescape ((utf8 high).reverse ++ done) rest
          | _ => none

/-- The text that a body denotes. -/
def bodyText? (body : Bytes) : Option String := (unescape [] body).bind Bytes.text?

/-- The text that a string denotes. -/
def text? : Json → Option String
  | .string body => bodyText? body
  | _ => none

end KeyCustody.Json
