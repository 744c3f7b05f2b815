import KeyCustody.Calendar.Instant
import KeyCustody.Json.Fields

/-!
# Files of sealed records

A sealed record is kept with its name as a JSON text of three fields: the name, the sealed octets in
hexadecimal, and the instant of sealing, of which nothing is kept. In the file of a record each
field has a line of its own (`SealedRecord.page`); the journal lists several records without blanks
(`SealedRecord.encodeList`).
-/

namespace KeyCustody

/-- The name of a record and its sealed octets in hexadecimal. -/
structure SealedRecord where
  name : String
  body : String
  deriving DecidableEq, Repr

namespace SealedRecord

/-- The fields of a record in the order in which they are written. -/
def members (r : SealedRecord) : List (Bytes × Json) :=
  [Json.member "name" (.ofText r.name), Json.member "sealed" (.ofText r.body),
    Json.member "sealed_at" (.ofText Calendar.placeholder)]

/-- The JSON value of a record. -/
def toJson (r : SealedRecord) : Json := .object r.members

/-- The record of a JSON value. -/
def ofJson? (value : Json) : Option SealedRecord := do
  let fields ← value.fields? ["name", "sealed", "sealed_at"]
  let name ← fields.required "name" Json.text?
  let body ← fields.required "sealed" Json.text?
  fields.required "sealed_at" fun value =>
    value.text?.bind fun text => if Calendar.isInstant text then some () else none
  some ⟨name, body⟩

/-- A field on a line of its own. -/
def line (member : Bytes × Json) : Bytes :=
  Bytes.ofText "\n  " ++ (Json.string member.1).render ++ Bytes.ofText ": " ++ member.2.render

/-- The text of the file of a record. -/
def page (r : SealedRecord) : Bytes :=
  Bytes.ofText "\x7b" ++ (Bytes.ofText ",").intercalate (r.members.map line) ++
    Bytes.ofText "\n\x7d"

/-- The record that a text writes. -/
def decode? (text : Bytes) : Option SealedRecord := (Json.parse? text).bind ofJson?

/-- The text of a list of records. -/
def encodeList (records : List SealedRecord) : Bytes := (Json.array (records.map toJson)).render

/-- The list of records that a text writes. -/
def decodeList? (text : Bytes) : Option (List SealedRecord) :=
  (Json.parse? text).bind (Json.list? ofJson?)

end SealedRecord

end KeyCustody
