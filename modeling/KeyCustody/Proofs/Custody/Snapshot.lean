import KeyCustody.Custody.Snapshot
import KeyCustody.Proofs.Bytes.Hex
import KeyCustody.Proofs.Calendar
import KeyCustody.Proofs.Json.Contents
import KeyCustody.Proofs.Table
import Mathlib.Data.List.Indexes

/-!
# Snapshots read back

A snapshot is read as the state that it was taken of, without the verdicts, provided that the
numbers of the state fit into their fields (`Custody.InRange`). Each part has its own lemma, that
its value is plain and that it is read back from its value.

Nothing is kept of the instants in a snapshot, so each part is read alike from a value with other
instants in it (`Custody.encodeOn`), and a snapshot is read back whenever its entries and commands
were last changed (`Custody.snapshot_round_trip`).
-/

namespace KeyCustody

/-! ### Names, instants and measurements -/

theorem CommandKind.ofName?_name (k : CommandKind) : ofName? k.name = some k := by
  cases k <;> decide

theorem CommandStatus.ofName?_name (s : CommandStatus) : ofName? s.name = some s := by
  cases s <;> decide

theorem KeyStatus.ofName?_name (s : KeyStatus) : ofName? s.name = some s := by
  cases s <;> decide

theorem Json.instant?_ofText {date : String} (h : Calendar.isInstant date = true) :
    instant? (.ofText date) = some () := by
  simp [instant?, h]

/-- The instants in a snapshot: that of each entry, by the text under which it is filed, and that of
each command, by its place in the outbox. -/
structure Dates where
  entry : String → String
  command : Nat → String

namespace Dates

/-- Whether they are instants. -/
structure Valid (dates : Dates) : Prop where
  entry : ∀ slot, Calendar.isInstant (dates.entry slot) = true
  command : ∀ place, Calendar.isInstant (dates.command place) = true

/-- The same instant everywhere. -/
def standard : Dates := ⟨fun _ => Calendar.placeholder, fun _ => Calendar.placeholder⟩

theorem valid_standard : standard.Valid := by
  have h : Calendar.isInstant Calendar.placeholder = true := by decide +kernel
  exact ⟨fun _ => h, fun _ => h⟩

end Dates

theorem Measurement.ofJson?_toJson (m : Measurement) : ofJson? m.toJson = some m := by
  simp [ofJson?, toJson, parse?_text]

/-! ### The gate -/

namespace Gate

theorem isPlain_toJson (g : Gate) : g.toJson.IsPlain := by
  simp [toJson, Measurement.toJson]

/-- A gate is read back without its verdicts. -/
theorem ofJson?_toJson (g : Gate) : ofJson? g.toJson = some g.withoutVerdicts := by
  have hentries : g.allowed.keys.map (·, ()) = g.allowed.entries := by
    rw [Table.keys, List.map_map]
    exact List.map_id _
  have hallowed : Gate.ofList g.allowed.keys = g.withoutVerdicts := by
    rw [Gate.ofList, hentries, Table.ofList_entries, withoutVerdicts]
  have hlist : Json.list? Measurement.ofJson? (.array (g.allowed.keys.map Measurement.toJson)) =
      some g.allowed.keys :=
    Json.list?_array Measurement.toJson fun m _ => Measurement.ofJson?_toJson m
  obtain ⟨found, hfields, hlookup⟩ := Json.exists_fields
    [("allow_list", .array (g.allowed.keys.map Measurement.toJson))] (by simp)
  simp only [List.map_cons, List.map_nil] at hfields
  simp [ofJson?, toJson, hfields, hlookup, Json.Fields.required, hlist, hallowed]

end Gate

/-! ### The outbox -/

/-- Whether the numbers of a command fit into their fields. -/
structure Command.InRange (c : Command) : Prop where
  sequence_lt : c.sequence < Outbox.sequenceBound
  polls_le : c.polls ≤ Outbox.maxPolls

namespace Command

/-- The JSON value of a command that was enqueued at some instant. -/
def toJsonOn (date : String) (c : Command) : Json :=
  .object
    [Json.member "sequence" (.ofNat c.sequence),
      Json.member "kind" (.ofText c.kind.name),
      Json.member "ta_identity" (.ofText c.key.owner.text),
      Json.member "key_id" (.ofText c.key.id),
      Json.member "payload" (.ofOctets c.payload),
      Json.member "status" (.ofText c.status.name),
      Json.member "enqueued_at" (.ofText date),
      Json.member "polls_outstanding" (.ofNat c.polls)]

theorem isPlain_toJsonOn (date : String) (c : Command) : (c.toJsonOn date).IsPlain := by
  simp [toJsonOn]

theorem ofJson?_toJsonOn {date : String} (hdate : Calendar.isInstant date = true) {c : Command}
    (h : c.InRange) : ofJson? (c.toJsonOn date) = some c := by
  have hsequence := Json.nat64?_ofNat h.sequence_lt
  have hpolls := Json.nat32?_ofNat (Nat.lt_succ_of_le h.polls_le)
  obtain ⟨found, hfields, hlookup⟩ := Json.exists_fields
    [("sequence", .ofNat c.sequence), ("kind", .ofText c.kind.name),
      ("ta_identity", .ofText c.key.owner.text), ("key_id", .ofText c.key.id),
      ("payload", .ofOctets c.payload), ("status", .ofText c.status.name),
      ("enqueued_at", .ofText date), ("polls_outstanding", .ofNat c.polls)] (by simp)
  simp only [List.map_cons, List.map_nil] at hfields
  simp [ofJson?, toJsonOn, hfields, hlookup, Json.Fields.required, List.lookup_cons, hsequence,
    hpolls, CommandKind.ofName?_name, CommandStatus.ofName?_name, Uuid.parse?_text,
    Json.instant?_ofText hdate]

end Command

/-- Whether the numbers of an outbox fit into their fields. -/
structure Outbox.InRange (q : Outbox) : Prop where
  commands : ∀ c ∈ q.commands, c.InRange
  nextSequence_lt : q.nextSequence < sequenceBound
  capacity_lt : q.capacity < sequenceBound

namespace Outbox

/-- The JSON value of an outbox whose commands were enqueued at some instants. -/
def toJsonOn (dates : Nat → String) (q : Outbox) : Json :=
  .object
    [Json.member "commands" (.array (q.commands.mapIdx fun place c => c.toJsonOn (dates place))),
      Json.member "next_sequence" (.ofNat q.nextSequence),
      Json.member "max_depth" (.ofNat q.capacity)]

theorem isPlain_toJsonOn (dates : Nat → String) (q : Outbox) : (q.toJsonOn dates).IsPlain := by
  have hcommands : ∀ item ∈ q.commands.mapIdx fun place c => c.toJsonOn (dates place),
      item.IsPlain := by
    intro item hitem
    obtain ⟨place, -, rfl⟩ := List.mem_mapIdx.mp hitem
    exact Command.isPlain_toJsonOn _ _
  simpa [toJsonOn] using hcommands

theorem ofJson?_toJsonOn {dates : Nat → String}
    (hdates : ∀ place, Calendar.isInstant (dates place) = true) {q : Outbox} (h : q.InRange) :
    ofJson? (q.toJsonOn dates) = some q := by
  have hcommands : Json.list? Command.ofJson?
      (.array (q.commands.mapIdx fun place c => c.toJsonOn (dates place))) = some q.commands := by
    have hread : ∀ placed ∈ q.commands.zipIdx,
        Command.ofJson? (placed.1.toJsonOn (dates placed.2)) = some placed.1 := by
      intro placed hplaced
      exact Command.ofJson?_toJsonOn (hdates placed.2)
        (h.commands placed.1 (List.fst_mem_of_mem_zipIdx hplaced))
    rw [List.mapIdx_eq_zipIdx_map]
    exact (Json.mapM_map_eq_some hread).trans (congrArg some (List.zipIdx_map_fst 0 q.commands))
  have hnext := Json.nat64?_ofNat h.nextSequence_lt
  have hcapacity := Json.nat64?_ofNat h.capacity_lt
  obtain ⟨found, hfields, hlookup⟩ := Json.exists_fields
    [("commands", .array (q.commands.mapIdx fun place c => c.toJsonOn (dates place))),
      ("next_sequence", .ofNat q.nextSequence), ("max_depth", .ofNat q.capacity)] (by simp)
  simp only [List.map_cons, List.map_nil] at hfields
  simp [ofJson?, toJsonOn, hfields, hlookup, Json.Fields.required, List.lookup_cons, hcommands,
    hnext, hcapacity]

end Outbox

/-! ### The keyring -/

namespace Entry

/-- The JSON value of an entry that was last changed at some instant. -/
def toJsonOn (date : String) (e : Entry) : Json :=
  .object
    [Json.member "ta_identity" (.ofText e.key.owner.text),
      Json.member "key_id" (.ofText e.key.id),
      Json.member "key_material" (materialToJson e.material),
      Json.member "status" (.ofText e.status.name),
      Json.member "last_sequence" (.ofNat e.lastSequence),
      Json.member "updated_at" (.ofText date)]

theorem isPlain_toJsonOn (date : String) (e : Entry) : (e.toJsonOn date).IsPlain := by
  cases h : e.material <;> simp [toJsonOn, materialToJson, h]

theorem ofJson?_toJsonOn {date : String} (hdate : Calendar.isInstant date = true) {e : Entry}
    (h : e.lastSequence < Outbox.sequenceBound) : ofJson? (e.toJsonOn date) = some e := by
  have hsequence := Json.nat64?_ofNat h
  have hmaterial : Json.nullable? Json.octets? (materialToJson e.material) =
      some e.material := by
    rcases e.material with _ | material
    · rfl
    · exact congrArg (Option.map some) (Json.octets?_ofOctets material)
  obtain ⟨found, hfields, hlookup⟩ := Json.exists_fields
    [("ta_identity", .ofText e.key.owner.text), ("key_id", .ofText e.key.id),
      ("key_material", materialToJson e.material), ("status", .ofText e.status.name),
      ("last_sequence", .ofNat e.lastSequence), ("updated_at", .ofText date)] (by simp)
  simp only [List.map_cons, List.map_nil] at hfields
  simp [ofJson?, toJsonOn, hfields, hlookup, Json.Fields.required, Json.Fields.optional,
    List.lookup_cons, hsequence, hmaterial, KeyStatus.ofName?_name, Uuid.parse?_text,
    Json.instant?_ofText hdate]

end Entry

namespace Keyring

/-- The members of the JSON value of a keyring whose entries were last changed at some instants. -/
def membersOn (dates : String → String) (k : Keyring) : List (Bytes × Json) :=
  k.entries.entries.map fun entry => Json.member entry.1 (entry.2.toJsonOn (dates entry.1))

/-- The JSON value of a keyring whose entries were last changed at some instants. -/
def toJsonOn (dates : String → String) (k : Keyring) : Json :=
  .object [Json.member "entries" (.object (k.membersOn dates))]

theorem isPlain_toJsonOn (dates : String → String) (k : Keyring) : (k.toJsonOn dates).IsPlain := by
  have hentries : ∀ m ∈ k.membersOn dates, Json.IsPlainMember m := by
    intro m hm
    obtain ⟨entry, -, rfl⟩ := List.mem_map.mp hm
    exact Json.isPlainMember_member.mpr (Entry.isPlain_toJsonOn _ entry.2)
  simpa [toJsonOn] using hentries

theorem ofJson?_toJsonOn {dates : String → String}
    (hdates : ∀ slot, Calendar.isInstant (dates slot) = true) {k : Keyring}
    (h : ∀ e ∈ k.toList, e.lastSequence < Outbox.sequenceBound) :
    ofJson? (k.toJsonOn dates) = some k := by
  -- the members are first read as pairs, and then each entry from its value
  have hmembers : (Json.object (k.membersOn dates)).members? =
      some (k.entries.entries.map fun entry => (entry.1, entry.2.toJsonOn (dates entry.1))) :=
    Json.mapM_map_eq_some fun entry _ => by simp [Json.member]
  have hentries : (k.entries.entries.map fun entry =>
        (entry.1, entry.2.toJsonOn (dates entry.1))).mapM
      (fun member => (Entry.ofJson? member.2).map (member.1, ·)) = some k.entries.entries := by
    refine (Json.mapM_map_eq_some fun entry hentry => ?_).trans
      (congrArg some (List.map_id k.entries.entries))
    simp [Entry.ofJson?_toJsonOn (hdates entry.1) (h entry.2 (List.mem_map_of_mem hentry))]
  obtain ⟨found, hfields, hlookup⟩ := Json.exists_fields
    [("entries", .object (k.membersOn dates))] (by simp)
  simp only [List.map_cons, List.map_nil] at hfields
  simp [ofJson?, toJsonOn, hfields, hlookup, Json.Fields.required, hmembers, hentries,
    Table.ofList_entries]

end Keyring

/-! ### The state -/

namespace Custody

/-- Whether the numbers of a state fit into their fields. -/
structure InRange (s : Custody) : Prop where
  outbox : s.outbox.InRange
  entries : ∀ e ∈ s.keyring.toList, e.lastSequence < Outbox.sequenceBound

/-- The JSON value of a state with instants. -/
def toJsonOn (dates : Dates) (s : Custody) : Json :=
  .object
    [Json.member "cache" (s.keyring.toJsonOn dates.entry),
      Json.member "queue" (s.outbox.toJsonOn dates.command), Json.member "gate" s.gate.toJson]

/-- The snapshot of a state with instants. -/
def encodeOn (dates : Dates) (s : Custody) : Bytes := (s.toJsonOn dates).render

theorem encode_eq_encodeOn (s : Custody) : s.encode = s.encodeOn .standard := by
  have hcommands : (s.outbox.commands.mapIdx fun place c =>
      c.toJsonOn (Dates.standard.command place)) = s.outbox.commands.map Command.toJson := by
    have hplaced := List.zipIdx_map_fst 0 s.outbox.commands
    rw [List.mapIdx_eq_zipIdx_map, ← congrArg (List.map Command.toJson) hplaced, List.map_map]
    rfl
  rw [encode, encodeOn, toJson, toJsonOn, Outbox.toJsonOn, hcommands]
  rfl

/-- A snapshot is read alike with all instants. -/
theorem decode?_encodeOn {dates : Dates} (hdates : dates.Valid) {s : Custody} (h : s.InRange) :
    decode? (s.encodeOn dates) = some s.withoutVerdicts := by
  have hplain : (s.toJsonOn dates).IsPlain := by
    simp [toJsonOn, Keyring.isPlain_toJsonOn, Outbox.isPlain_toJsonOn, Gate.isPlain_toJson]
  rw [decode?, encodeOn, Json.parse?_render hplain]
  obtain ⟨found, hfields, hlookup⟩ := Json.exists_fields
    [("cache", s.keyring.toJsonOn dates.entry), ("queue", s.outbox.toJsonOn dates.command),
      ("gate", s.gate.toJson)] (by simp)
  simp only [List.map_cons, List.map_nil] at hfields
  simp [ofJson?, toJsonOn, hfields, hlookup, Json.Fields.required, List.lookup_cons,
    Keyring.ofJson?_toJsonOn hdates.entry h.entries,
    Outbox.ofJson?_toJsonOn hdates.command h.outbox, Gate.ofJson?_toJson, withoutVerdicts]

/-- **Reading inverts writing**: a snapshot is read as the state that it was taken of, without the
verdicts. -/
theorem decode?_encode {s : Custody} (h : s.InRange) :
    decode? s.encode = some s.withoutVerdicts := by
  rw [encode_eq_encodeOn, decode?_encodeOn Dates.valid_standard h]

/-- **Snapshots are read back**: whatever a state holds, as far as its numbers fit into their
fields, and at whatever instants its entries and commands were last changed, its snapshot is read as
a state with the same keyring, the same outbox, the same trusted measurements and no verdict. -/
theorem snapshot_round_trip {s : Custody} (h : s.InRange) (changed : String → Calendar.Instant)
    (enqueued : Nat → Calendar.Instant) :
    let t : Custody := ⟨s.keyring, s.outbox, ⟨s.gate.allowed, Table.empty⟩⟩
    let dates : Dates := ⟨fun slot => (changed slot).text, fun place => (enqueued place).text⟩
    decode? s.encode = some t ∧ decode? (s.encodeOn dates) = some t := by
  intro t dates
  have hdates : dates.Valid :=
    ⟨fun _ => Calendar.isInstant_text _, fun _ => Calendar.isInstant_text _⟩
  have ht : t = s.withoutVerdicts := rfl
  rw [ht]
  exact ⟨decode?_encode h, decode?_encodeOn hdates h⟩

/-- A state with the largest numbers, texts of special characters, material that is there, empty or
missing, entries filed under any texts, and a verdict. -/
def unusual : Custody :=
  let ta : Uuid := ⟨List.replicate 16 0xfe, rfl⟩
  let m : Measurement := ⟨List.replicate 32 0x7f, rfl⟩
  let last := Outbox.sequenceBound - 1
  { keyring := ⟨Table.ofList
      [("\"\\/\x00\n", ⟨⟨ta, "𝄞\x7f\"k\""⟩, none, .deleted, last⟩),
        ("𝄞", ⟨⟨ta, ""⟩, some [], .ready, 0⟩), ("", ⟨⟨ta, "\\u0000"⟩, some [0, 0xff], .failed, 1⟩)]⟩
    outbox := ⟨[⟨last, .destroy, ⟨ta, "\t\r"⟩, [], .failed, Outbox.maxPolls⟩,
      ⟨last, .generate, ⟨ta, "ключ"⟩, [0, 0x22, 0xff], .awaitingReply, 0⟩], last, last⟩
    gate := ⟨Table.ofList [(m, ())], Table.ofList [(ta, m)]⟩ }

/-- Its snapshot is read back, with a leap second and a year before the common era in it. -/
theorem snapshot_round_trip_unusual :
    let leap : Calendar.Instant := ⟨2016, 12, 31, 23, 59, 60, 500000000, by decide, by decide⟩
    let ides : Calendar.Instant := ⟨-43, 3, 15, 12, 0, 0, 1, by decide, by decide⟩
    let t : Custody := ⟨unusual.keyring, unusual.outbox, ⟨unusual.gate.allowed, Table.empty⟩⟩
    let dates : Dates := ⟨fun slot => (if slot = "" then leap else ides).text, fun _ => leap.text⟩
    unusual.InRange ∧ decode? unusual.encode = some t ∧
      decode? (unusual.encodeOn dates) = some t := by
  intro leap ides t dates
  have hrange : unusual.InRange := by
    refine ⟨⟨fun c hc => ?_, by decide, by decide⟩, by decide +kernel⟩
    have hnumbers : ∀ c ∈ unusual.outbox.commands,
        c.sequence < Outbox.sequenceBound ∧ c.polls ≤ Outbox.maxPolls := by decide
    exact ⟨(hnumbers c hc).1, (hnumbers c hc).2⟩
  exact ⟨hrange, snapshot_round_trip hrange (fun slot => if slot = "" then leap else ides)
    fun _ => leap⟩

end Custody

end KeyCustody
