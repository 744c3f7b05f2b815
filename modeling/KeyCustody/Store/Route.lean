import KeyCustody.Fault

/-!
# Routes and paths

A text such as `a/../b` leads to a node of a disk name by name, and each name has to be taken from a
folder: the text leads nowhere where there is no folder `a`. So a `Route` keeps all the names
between the strokes of its text, the empty ones, `.` and `..` included, and `Route.text` gives the
text back. A `Path` is where a route has led to. It keeps only the names that lead deeper, and those
that lead out of the place where a program stands, so that paths tell nodes apart.
-/

namespace KeyCustody

/-- The names that lead to a node from where a program stands, or from the root of the machine,
which is shown by a stroke as the first name. -/
abbrev Path := List String

namespace Path

/-- Whether a path is that of a folder which every disk has: where a program stands, a folder around
that place, or the root of the machine. -/
def isGiven (path : Path) : Bool := path.all (· = "..") || path = ["/"]

/-- The path one step along a name, where the empty name and `.` stay and `..` turns back. A turn
that leads out of the place where a program stands is kept. -/
def enter (path : Path) (name : String) : Path :=
  if name = "" ∨ name = "." then path
  else if name ≠ ".." then path ++ [name]
  else if path = ["/"] then path
  else if path.isGiven then path ++ [name]
  else path.dropLast

/-- The text of a path. -/
def text : Path → String
  | "/" :: names => "/" ++ String.intercalate "/" names
  | names => String.intercalate "/" names

end Path

/-- The names between the strokes of a text. -/
structure Route where
  names : List String
  deriving DecidableEq, Repr

namespace Route

/-- The route along a text. -/
def ofText (text : String) : Route := ⟨(text.toList.splitOn '/').map String.ofList⟩

/-- The text of a route. -/
def text (r : Route) : String := String.intercalate "/" r.names

/-- The number of octets of the text of a route. -/
def size (r : Route) : Nat := r.text.utf8ByteSize

/-- Whether a route starts at the root of the machine: its text begins with a stroke. -/
def isAbsolute (r : Route) : Bool := r.names.head? = some "" && 1 < r.names.length

/-- The path at which a route starts. -/
def start (r : Route) : Path := if r.isAbsolute then ["/"] else []

/-- The route that first leads to a folder and from there along another route, unless that one
starts at the root by itself. -/
def join (folder next : Route) : Route :=
  if next.isAbsolute then next
  else if folder.names.getLast? = some "" then ⟨folder.names.dropLast ++ next.names⟩
  else ⟨folder.names ++ next.names⟩

/-- The names of a route that lead away from where one stands. -/
def strides (r : Route) : List String := r.names.filter fun name => name ≠ "" ∧ name ≠ "."

/-- Whether the last name of a route, strokes at its end apart, is `.`. -/
def endsInDot (r : Route) : Bool := (r.names.filter (· ≠ "")).getLast? = some "."

/-- The largest number of octets of the text of a route. -/
def maxSize : Nat := 4095

/-- Why no disk follows a route, if there is a reason. -/
def refusal? (r : Route) : Option Refusal :=
  if r.names.any fun name => name.toList.contains '\x00' then some .nameWithNul
  else if r.size = 0 ∨ maxSize < r.size then some .refused
  else none

end Route

end KeyCustody
