import KeyCustody.Command
import KeyCustody.Fault

/-!
# The outbox

Commands wait in the outbox, oldest first, until they have been answered. Each gets a number that
was never used before, and a reply names the command by that number, so that commands may be
answered in any order. The outbox is bounded: `enqueue` refuses a command that has no room and uses
up no number for it. Numbers are natural numbers here; that those of a run fit into the 64 bits they
have in a snapshot (`sequenceBound`) is a proviso on the run.

`draw` is one poll of the relay. The commands that it hands out are the oldest queued ones; those
handed out by earlier polls grow older by one poll, and with a time limit those too old are taken
out as failed. The polls of a command are counted in 32 bits, so the count wraps around.
-/

namespace KeyCustody

/-- The commands that have not been answered, oldest first, the number of the next command and the
number of commands for which there is room. -/
structure Outbox where
  commands : List Command
  nextSequence : Nat
  capacity : Nat
  deriving DecidableEq

/-- What one poll takes out of the outbox: the commands handed out, the number still queued behind
them, and the commands that waited too long for a reply. -/
structure Draw where
  commands : List Command
  remaining : Nat
  expired : List Command
  deriving DecidableEq

namespace Outbox

/-- The number below which the sequence numbers of a snapshot lie. -/
def sequenceBound : Nat := 0x10000000000000000

/-- The largest number of polls that a command can count. -/
def maxPolls : Nat := 0xffffffff

/-- The largest number of commands that one poll may hand out. -/
def maxPerPoll : Nat := 32

/-- The outbox without commands, whose first number is one. -/
def empty (capacity : Nat) : Outbox := ⟨[], 1, capacity⟩

/-- The number of commands that have not been answered. -/
def depth (q : Outbox) : Nat := q.commands.length

/-- The number of commands that no poll has handed out. -/
def queuedCount (q : Outbox) : Nat := q.commands.countP (·.status = .queued)

/-- The number of commands for which there is still room. -/
def freeSlots (q : Outbox) : Nat := q.capacity - q.depth

/-- The outbox with a bound of its own; commands beyond it stay. -/
def withCapacity (q : Outbox) (capacity : Nat) : Outbox := { q with capacity := capacity }

/-- The outbox that continues the numbers of an earlier one, never going back. -/
def resumeFrom (q : Outbox) (nextSequence : Nat) : Outbox :=
  { q with nextSequence := max q.nextSequence nextSequence }

/-- The command of a number. -/
def get? (q : Outbox) (sequence : Nat) : Option Command :=
  q.commands.find? (·.sequence = sequence)

/-- Whether some command concerns a key. -/
def references (q : Outbox) (key : KeyRef) : Bool := q.commands.any (·.key = key)

/-- One more command, with its number. -/
def enqueue (q : Outbox) (kind : CommandKind) (key : KeyRef) (payload : Bytes) :
    Except Fault (Nat × Outbox) :=
  if q.capacity ≤ q.depth then .error (.queueFull q.depth)
  else
    .ok (q.nextSequence,
      { q with
        commands := q.commands ++ [⟨q.nextSequence, kind, key, payload, .queued, 0⟩]
        nextSequence := q.nextSequence + 1 })

/-! ### Polls -/

/-- The count of polls after one more; after the largest count it is zero again. -/
def countPoll (polls : Nat) : Nat := (polls + 1) % (maxPolls + 1)

/-- A command after one more poll. -/
def age (c : Command) : Command :=
  if c.status.isShipped then
    { c with status := .awaitingReply, polls := countPoll c.polls }
  else c

/-- Whether one more poll makes a command too old for a limit. -/
def expires (limit : Option Nat) (c : Command) : Bool :=
  match limit with
  | none => false
  | some limit => c.status.isShipped && limit < countPoll c.polls

/-- The commands of which the first `count` queued ones are handed out. -/
def deliver : Nat → List Command → List Command
  | 0, commands => commands
  | _ + 1, [] => []
  | count + 1, c :: rest =>
    if c.status = .queued then { c with status := .delivered } :: deliver count rest
    else c :: deliver (count + 1) rest

/-- One poll for up to `count` commands, with a limit on the age of those handed out before. -/
def draw (q : Outbox) (count : Nat) (limit : Option Nat) : Except Fault (Draw × Outbox) :=
  if count = 0 ∨ maxPerPoll < count then
    .error (.badParameters (.pollCount maxPerPoll count))
  else
    let expired := (q.commands.filter (expires limit)).map fun c =>
      { age c with status := .failed }
    let kept := (q.commands.filter fun c => !expires limit c).map age
    let handed := ((kept.filter (·.status = .queued)).take count).map fun c =>
      { c with status := .delivered }
    let after := { q with commands := deliver count kept }
    .ok (⟨handed, after.queuedCount, expired⟩, after)

/-! ### Replies -/

/-- The answered command of a number, taken out of the outbox. -/
def finalize (q : Outbox) (sequence : Nat) (success : Bool) : Except Fault (Command × Outbox) :=
  match q.get? sequence with
  | none =>
    if sequence < q.nextSequence ∧ 0 < sequence then
      .error (.badBufferData (.finalized sequence))
    else .error (.badBufferData (.unknown sequence))
  | some c =>
    if c.status.isShipped then
      .ok ({ c with status := if success then .completed else .failed },
        { q with commands := q.commands.eraseP (·.sequence = sequence) })
    else .error (.badBufferData (.undelivered sequence))

end Outbox

end KeyCustody
