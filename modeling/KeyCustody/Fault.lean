import KeyCustody.Bytes.Hex
import KeyCustody.Invocation.SlotKind
import KeyCustody.Text.Quoted
import KeyCustody.Uuid

/-!
# Faults

What can go wrong, as causes. A `Fault` belongs to one of eight families, each with a result code;
inside a family the cause says what happened, and `Fault.message` is the one place where causes
become words. Where a collaborator states a cause in its own words, the cause is `stated`.

Only a full outbox is worth trying again (`Fault.isRetryable`).
-/

namespace KeyCustody

/-! ### Storage -/

/-- Why the file system refuses an access. The first case covers all that it alone decides. -/
inductive Refusal where
  | refused
  | nameWithNul
  | notText
  deriving DecidableEq, Repr

/-- What follows the description of a refused access in a message. -/
def Refusal.suffix : Refusal → String
  | refused => ""
  | nameWithNul => ": file name contained an unexpected NUL byte"
  | notText => ": stream did not contain valid UTF-8"

/-- An access to files that failed. -/
inductive AccessCause where
  | createFolder (why : Refusal)
  | readJournal (why : Refusal)
  | removeJournal (why : Refusal)
  | readRecord (name : String) (why : Refusal)
  | readFile (path : String) (why : Refusal)
  | removeRecord (name : String) (why : Refusal)
  | write (why : Refusal)
  | rename (why : Refusal)
  | injected
  | stated (text : String)
  deriving DecidableEq, Repr

/-- A sealed record that cannot be taken apart. -/
inductive SealingCause where
  | unreadable (name : String)
  | notHex (name : String) (why : Hex.Fault)
  | tooShort
  | stated (text : String)
  deriving DecidableEq, Repr

/-- A record that is not what was stored under its name. -/
inductive IntegrityCause where
  | misplaced (stored name : String)
  | badTag (name : String)
  | badSnapshot
  | stated (text : String)
  deriving DecidableEq, Repr

/-- A failure of the record store. -/
inductive StoreFault where
  | access (cause : AccessCause)
  | sealing (cause : SealingCause)
  | integrity (cause : IntegrityCause)
  deriving DecidableEq, Repr

/-! ### Settings -/

/-- Settings that cannot be used. -/
inductive SettingsFault where
  | unreadable (path : String) (why : Refusal)
  | malformed
  | queueDepth (depth : Nat)
  | batch (count : Nat)
  | noTimeout
  | noSecret
  deriving DecidableEq, Repr

/-! ### The families -/

/-- A parameter that is malformed, too large or missing. -/
inductive ParameterCause where
  | unknownCommand (id : Nat)
  | slotKinds (actual expected : List SlotKind)
  | nullBuffer (label : String)
  | bufferSize (label : String) (size max : Nat)
  | partSize (label : String) (max size : Nat)
  | hashCount (max count : Nat)
  | hashBuffer (size count : Nat)
  | pollCount (max count : Nat)
  | attributes (max : Nat)
  | keyId (id : String)
  | settings (fault : SettingsFault)
  | unreadableFile (path : String)
  | stated (text : String)
  deriving DecidableEq, Repr

/-- A reply that matches nothing, or an output that has no room. -/
inductive BufferCause where
  | malformedReply
  | payload (why : Hex.Fault)
  | materialSize (max size : Nat)
  | finalized (sequence : Nat)
  | unknown (sequence : Nat)
  | undelivered (sequence : Nat)
  | shortOutput (required capacity : Nat)
  | stated (text : String)
  deriving DecidableEq, Repr

/-- A refusal of the attestation gate. -/
inductive SecurityCause where
  | unknownMeasurement
  | changedMeasurement
  | unverified (ta : Uuid)
  | stated (text : String)
  deriving DecidableEq

/-- A failure of the transport, or of what no other family covers. -/
inductive GenericCause where
  | noSession (id : Nat)
  | poisoned
  | undecodableBatch
  | countsDisagree (returned remaining listed queued : Nat)
  | stated (text : String)
  deriving DecidableEq, Repr

/-- Why a call fails. -/
inductive Fault where
  | badParameters (cause : ParameterCause)
  | badBufferData (cause : BufferCause)
  | security (cause : SecurityCause)
  | queueFull (depth : Nat)
  | generic (cause : GenericCause)
  | alreadyInitialized
  | notInitialized
  | storage (fault : StoreFault)
  deriving DecidableEq

/-! ### Messages -/

/-- The words for a text that is not hexadecimal. -/
def Hex.Fault.message : Hex.Fault → String
  | oddLength => "Odd number of digits"
  | badDigit octet index =>
    "Invalid character " ++ Text.quotedChar (Char.ofNat octet.toNat) ++ " at position " ++
      toString index

/-- The words for a failed access. -/
def AccessCause.message : AccessCause → String
  | createFolder why => "Create dir" ++ why.suffix
  | readJournal why => "Read journal" ++ why.suffix
  | removeJournal why => "Remove journal" ++ why.suffix
  | readRecord name why => "Read " ++ name ++ why.suffix
  | readFile path why => "Read " ++ path ++ why.suffix
  | removeRecord name why => "Remove " ++ name ++ why.suffix
  | write why => "Write" ++ why.suffix
  | rename why => "Rename" ++ why.suffix
  | injected => "injected commit failure"
  | stated text => text

/-- The words for a record that cannot be taken apart. -/
def SealingCause.message : SealingCause → String
  | unreadable name => "Parse " ++ name
  | notHex name why => "Hex decode " ++ name ++ ": " ++ why.message
  | tooShort => "Sealed data too short"
  | stated text => text

/-- The words for a record that is not what was stored. -/
def IntegrityCause.message : IntegrityCause → String
  | misplaced stored name => "record '" ++ stored ++ "' stored under '" ++ name ++ "'"
  | badTag name => "MAC mismatch on '" ++ name ++ "'"
  | badSnapshot => "state snapshot"
  | stated text => text

/-- The words for a failure of the store. -/
def StoreFault.message : StoreFault → String
  | access cause => "Storage I/O error: " ++ cause.message
  | sealing cause => "Sealing error: " ++ cause.message
  | integrity cause => "Integrity verification failed: " ++ cause.message

/-- The words for settings that cannot be used. -/
def SettingsFault.message : SettingsFault → String
  | unreadable path why => "Cannot read config: " ++ path ++ why.suffix
  | malformed => "Malformed config"
  | queueDepth depth =>
    "Invalid config: max_queue_depth must be in 1..=1024, got " ++ toString depth
  | batch count => "Invalid config: max_batch must be in 1..=32, got " ++ toString count
  | noTimeout => "Invalid config: reply_timeout_polls must be at least 1 when set"
  | noSecret => "Invalid config: device_secret must not be empty"

/-- The words for a closed range of sizes that starts at one. -/
private def upTo (max : Nat) : String := "1..=" ++ toString max

/-- The words for a bad parameter. -/
def ParameterCause.message : ParameterCause → String
  | unknownCommand id => "unknown command id " ++ toString id
  | slotKinds actual expected =>
    "parameter types " ++ SlotKind.listText actual ++ ", expected " ++ SlotKind.listText expected
  | nullBuffer label => label ++ ": null buffer"
  | bufferSize label size max => label ++ ": size " ++ toString size ++ " outside " ++ upTo max
  | partSize label max size =>
    label ++ " must be " ++ upTo max ++ " bytes, got " ++ toString size
  | hashCount max count => "hash count must be " ++ upTo max ++ ", got " ++ toString count
  | hashBuffer size count =>
    "hash buffer of " ++ toString size ++ " bytes does not hold " ++ toString count ++ " digests"
  | pollCount max count => "poll batch must be " ++ upTo max ++ ", got " ++ toString count
  | attributes max => "key attributes exceed " ++ toString max ++ " bytes"
  | keyId id => "invalid key id " ++ Text.quoted id
  | settings fault => fault.message
  | unreadableFile path => path
  | stated text => text

/-- The words for a reply or output that cannot be used. -/
def BufferCause.message : BufferCause → String
  | malformedReply => "malformed reply"
  | payload why => "reply payload: " ++ why.message
  | materialSize max size =>
    "key material must be " ++ upTo max ++ " bytes, got " ++ toString size
  | finalized sequence => "reply for finalized seq " ++ toString sequence
  | unknown sequence => "reply for unknown seq " ++ toString sequence
  | undelivered sequence =>
    "reply for seq " ++ toString sequence ++ " which was never delivered"
  | shortOutput required capacity =>
    "output needs " ++ toString required ++ " bytes, buffer holds " ++ toString capacity
  | stated text => text

/-- The words for a refusal of the gate. -/
def SecurityCause.message : SecurityCause → String
  | unknownMeasurement => "measurement not in allow-list"
  | changedMeasurement => "measurement differs from the verified one"
  | unverified ta => "TA " ++ ta.text ++ " is not verified"
  | stated text => text

/-- The words for a failure of the transport. -/
def GenericCause.message : GenericCause → String
  | noSession id => "no open session " ++ toString id
  | poisoned => "agent lock poisoned"
  | undecodableBatch => "undecodable batch"
  | countsDisagree returned remaining listed queued =>
    "batch counts disagree: header " ++ toString returned ++ "/" ++ toString remaining ++
      ", body " ++ toString listed ++ "/" ++ toString queued
  | stated text => text

namespace Fault

/-- The words for a fault. -/
def message : Fault → String
  | badParameters cause => "Bad parameters: " ++ cause.message
  | badBufferData cause => "Bad buffer data: " ++ cause.message
  | security cause => "Security error: " ++ cause.message
  | queueFull depth => "Command queue full (" ++ toString depth ++ " outstanding)"
  | generic cause => "Generic failure: " ++ cause.message
  | alreadyInitialized => "KTA already initialized"
  | notInitialized => "KTA not initialized"
  | storage fault => fault.message

/-- The result code that a caller of the trusted side sees. -/
def code : Fault → Nat
  | generic _ => 0xffff0000
  | alreadyInitialized => 0xffff0003
  | badBufferData _ => 0xffff0005
  | badParameters _ => 0xffff0006
  | notInitialized => 0xffff0007
  | queueFull _ => 0xffff000d
  | security _ => 0xffff000f
  | storage _ => 0xf0100003

/-- Whether the same call may succeed later. -/
def isRetryable : Fault → Bool
  | queueFull _ => true
  | _ => false

end Fault

end KeyCustody
