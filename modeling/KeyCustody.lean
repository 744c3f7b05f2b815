import KeyCustody.Agent.Basic
import KeyCustody.Anchor
import KeyCustody.Bytes.Basic
import KeyCustody.Bytes.Hex
import KeyCustody.Bytes.Sha256
import KeyCustody.Calendar.Instant
import KeyCustody.Command
import KeyCustody.Console.Basic
import KeyCustody.Console.Demo
import KeyCustody.Console.Run
import KeyCustody.Console.Seed
import KeyCustody.Custody.Basic
import KeyCustody.Custody.Snapshot
import KeyCustody.Fault
import KeyCustody.Gate
import KeyCustody.Invocation.Dispatch
import KeyCustody.Invocation.Slot
import KeyCustody.Invocation.SlotKind
import KeyCustody.Json.Basic
import KeyCustody.Json.Fields
import KeyCustody.Json.Text
import KeyCustody.Json.Token
import KeyCustody.KeyRef
import KeyCustody.Keyring
import KeyCustody.Main
import KeyCustody.Measurement
import KeyCustody.Outbox
import KeyCustody.Proofs.Json.Cutting
import KeyCustody.Proofs.Json.Parsing
import KeyCustody.Relay.Courier
import KeyCustody.Relay.Enclave
import KeyCustody.Relay.KeyService
import KeyCustody.Relay.Session
import KeyCustody.Settings
import KeyCustody.Settings.File
import KeyCustody.Store.Basic
import KeyCustody.Store.Disk
import KeyCustody.Store.Memory
import KeyCustody.Store.Route
import KeyCustody.Store.Tree
import KeyCustody.Store.Seal
import KeyCustody.Store.SealedRecord
import KeyCustody.Store.Vault
import KeyCustody.Table
import KeyCustody.Text.Printable
import KeyCustody.Text.Quoted
import KeyCustody.Uuid
import KeyCustody.Wire.Batch
import KeyCustody.Wire.Reply
import KeyCustody.Proofs.Json.Contents
import KeyCustody.Proofs.Bytes.Hex
import KeyCustody.Proofs.Bytes.Order
import KeyCustody.Proofs.Calendar
import KeyCustody.Proofs.Custody.Snapshot
import KeyCustody.Proofs.Keyring
import KeyCustody.Proofs.Outbox
import KeyCustody.Proofs.Outbox.Traffic
import KeyCustody.Proofs.Outbox.Draw
import KeyCustody.Proofs.Custody.Coherence
import KeyCustody.Proofs.Custody.Outcome
import KeyCustody.Proofs.Custody.Soundness
import KeyCustody.Proofs.Agent.Call
import KeyCustody.Proofs.Agent.Effect
import KeyCustody.Proofs.Agent.Invocation
import KeyCustody.Proofs.Store.Memory
import KeyCustody.Proofs.Agent.Atomicity
import KeyCustody.Proofs.Agent.Restart
import KeyCustody.Proofs.Agent.Run
import KeyCustody.Proofs.Agent.Close
import KeyCustody.Proofs.Agent.Provenance
import KeyCustody.Proofs.Agent.Traffic
import KeyCustody.Proofs.Agent.Numbering
import KeyCustody.Proofs.Agent.Delivery
import KeyCustody.Proofs.Agent.Finalization
import KeyCustody.Proofs.Agent.Recovery
import KeyCustody.Proofs.Json.Layout
import KeyCustody.Proofs.Store.Disk
import KeyCustody.Proofs.Store.Drive
import KeyCustody.Proofs.Store.Seal
import KeyCustody.Proofs.Store.SealedRecord
import KeyCustody.Proofs.Store.Vault
import KeyCustody.Proofs.Store.Commit
import KeyCustody.Proofs.Store.Crash
import KeyCustody.Proofs.Store.RollBack
import KeyCustody.Proofs.Store.Reopening
import KeyCustody.Proofs.Store.Agreement
import KeyCustody.Proofs.Agent.Sealed
import KeyCustody.Proofs.Agent.Crash
import KeyCustody.Proofs.Store.Reliable
import KeyCustody.Proofs.Store.Binding
import KeyCustody.Proofs.Agent.Isolation
import KeyCustody.Proofs.Agent.Replies
import KeyCustody.Proofs.Agent.Submission
import KeyCustody.Proofs.Agent.Timeout
import KeyCustody.Proofs.Agent.Exit
import KeyCustody.Proofs.Agent.Gate
import KeyCustody.Proofs.Agent.Trust
import KeyCustody.Proofs.Custody.Room
import KeyCustody.Proofs.Custody.Commutation
import KeyCustody.Proofs.Custody.Reply
import KeyCustody.Proofs.Custody.Expiry
import KeyCustody.Proofs.Custody.Isolation
import KeyCustody.Proofs.Agent.Backpressure
import KeyCustody.Proofs.Json.Size
import KeyCustody.Proofs.Wire
import KeyCustody.Proofs.Relay.Marshalling
import KeyCustody.Proofs.Relay.Session
import KeyCustody.Proofs.Relay.Work
import KeyCustody.Proofs.Relay.Convergence
import KeyCustody.Proofs.Relay.Exchange
import KeyCustody.Proofs.Relay.Progress
import KeyCustody.Proofs.Relay.Underway
import KeyCustody.Proofs.Relay.CacheCoherence
import KeyCustody.Proofs.Relay.Revocation
import KeyCustody.Proofs.Slot
import KeyCustody.Proofs.Store.Discard
import KeyCustody.Proofs.Custody.Request
import KeyCustody.Proofs.Agent.Provision
import KeyCustody.Proofs.Agent.Invariant
import KeyCustody.Proofs.Agent.Handshake
import KeyCustody.Proofs.Agent.Lookup
import KeyCustody.Proofs.Store.Tampering
import KeyCustody.Proofs.Agent.Occupancy
import KeyCustody.Proofs.Agent.Representation
