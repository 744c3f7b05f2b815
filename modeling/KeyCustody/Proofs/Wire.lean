import KeyCustody.Invocation.Dispatch
import KeyCustody.Proofs.Custody.Snapshot
import KeyCustody.Proofs.Json.Size
import KeyCustody.Proofs.Outbox

/-!
# Messages read back

A batch and a reply are read as they were written (`Batch.decode?_encode`, `Reply.decode_encode`),
as long as their numbers fit into sixty-four bits; a reply to a larger number is not understood. The
largest batch that a poll may hand out fits into the buffer of the relay
(`Batch.length_encode_ofCommands_le`), and so does the longest reply that brings a key.
`messages_read_back` collects what both ends of the relay rely on.
-/

namespace KeyCustody

open Outbox (sequenceBound)

theorem ReplyResult.ofName?_name (r : ReplyResult) : ofName? r.name = some r := by
  cases r <;> decide

theorem CommandKind.length_name_le (k : CommandKind) : (Bytes.ofText k.name).length ≤ 11 := by
  cases k <;> decide

/-- An admissible identifier has no more octets than it may have. -/
theorem KeyRef.length_id_le {id : String} (h : isValidId id = true) :
    (Bytes.ofText id).length ≤ maxIdSize := by
  have hlength : (Bytes.ofText id).length = id.utf8ByteSize := by simp [Bytes.ofText]
  simp only [isValidId, Bool.and_eq_true, decide_eq_true_eq] at h
  rw [hlength]
  exact h.1.2

/-! ### Requests -/

namespace Request

theorem isPlain_toJson (r : Request) : r.toJson.IsPlain := by
  simp [toJson]

theorem ofJson?_toJson {r : Request} (h : r.sequence < sequenceBound) :
    ofJson? r.toJson = some r := by
  have hsequence := Json.nat64?_ofNat h
  obtain ⟨found, hfields, hlookup⟩ := Json.exists_fields
    [("sequence", .ofNat r.sequence), ("kind", .ofText r.kind.name),
      ("ta_identity", .ofText r.key.owner.text), ("key_id", .ofText r.key.id),
      ("payload", .ofText r.payload)] (by simp)
  simp only [List.map_cons, List.map_nil] at hfields
  simp [ofJson?, toJson, hfields, hlookup, Json.Fields.required, List.lookup_cons, hsequence,
    CommandKind.ofName?_name, Uuid.parse?_text]

/-- The largest width of a request for a command. -/
def maxWidth : Nat := 5000

theorem width_ofCommand_le {c : Command} (h : c.WellFormed)
    (hsequence : c.sequence < sequenceBound) :
    (ofCommand c).toJson.width ≤ maxWidth := by
  have hobject := Json.width_object_le
    [("sequence", .ofNat c.sequence), ("kind", .ofText c.kind.name),
      ("ta_identity", .ofText c.key.owner.text), ("key_id", .ofText c.key.id),
      ("payload", .ofText (Hex.encode c.payload))]
  have hnames : (Json.ofText "sequence").width + (Json.ofText "kind").width +
      (Json.ofText "ta_identity").width + (Json.ofText "key_id").width +
        (Json.ofText "payload").width = 46 := by decide +kernel
  have hnumber := Json.width_ofNat_le_twenty hsequence
  have hkind := Json.width_ofText_le c.kind.name
  have hkindName := c.kind.length_name_le
  have howner := Json.width_ofText_le c.key.owner.text
  have hid := Json.width_ofText_le c.key.id
  have hidLength : _ ≤ 64 := KeyRef.length_id_le h.isValidId
  have hpayload : c.payload.length ≤ 2048 := h.length_payload
  rw [Uuid.length_ofText_text] at howner
  simp only [List.map_cons, List.map_nil, List.sum_cons, List.sum_nil, Json.width_hex] at hobject
  refine hobject.trans ?_
  simp only [maxWidth]
  omega

end Request

/-! ### Batches -/

namespace Batch

theorem isPlain_toJson (b : Batch) : b.toJson.IsPlain := by
  simp [toJson, Request.isPlain_toJson]

/-- **Reading inverts writing**: a batch is read as it was written. -/
theorem decode?_encode {b : Batch} (hversion : b.version < 0x100000000)
    (hrequests : ∀ r ∈ b.requests, r.sequence < sequenceBound)
    (hremaining : b.remaining < sequenceBound) : decode? b.encode = some b := by
  have hversion := Json.nat32?_ofNat hversion
  have hlist := Json.list?_array Request.toJson fun r hr =>
    Request.ofJson?_toJson (hrequests r hr)
  have hremaining := Json.nat64?_ofNat hremaining
  obtain ⟨found, hfields, hlookup⟩ := Json.exists_fields
    [("version", .ofNat b.version), ("commands", .array (b.requests.map Request.toJson)),
      ("remaining", .ofNat b.remaining)] (by simp)
  simp only [List.map_cons, List.map_nil] at hfields
  rw [decode?, encode, Json.parse?_render b.isPlain_toJson]
  simp [ofJson?, toJson, hfields, hlookup, Json.Fields.required, List.lookup_cons, hversion, hlist,
    hremaining]

/-- The largest batch that a poll may hand out fits into the buffer of the relay. -/
theorem length_encode_ofCommands_le {commands : List Command} {remaining : Nat}
    (hlength : commands.length ≤ Outbox.maxPerPoll)
    (hcommands : ∀ c ∈ commands, c.WellFormed ∧ c.sequence < sequenceBound)
    (hremaining : remaining < sequenceBound) :
    (ofCommands commands remaining).encode.length ≤ maxRequestBuffer := by
  have hobject := Json.width_object_le
    [("version", .ofNat currentVersion),
      ("commands", .array ((commands.map Request.ofCommand).map Request.toJson)),
      ("remaining", .ofNat remaining)]
  have hnames : (Json.ofText "version").width + (Json.ofText "commands").width +
      (Json.ofText "remaining").width = 30 := by decide +kernel
  have hversion : (Json.ofNat currentVersion).width = 1 := by decide +kernel
  have hnumber := Json.width_ofNat_le_twenty hremaining
  have hitems : ∀ item ∈ (commands.map Request.ofCommand).map Request.toJson,
      item.width ≤ Request.maxWidth := by
    intro item hitem
    rw [List.map_map] at hitem
    obtain ⟨c, hc, rfl⟩ := List.mem_map.mp hitem
    exact Request.width_ofCommand_le (hcommands c hc).1 (hcommands c hc).2
  have harray := Json.width_array_le hitems
  have hcount : commands.length ≤ 32 := hlength
  have hproduct := Nat.mul_le_mul_right (Request.maxWidth + 1) hcount
  simp only [List.map_cons, List.map_nil, List.sum_cons, List.sum_nil] at hobject
  rw [List.length_map, List.length_map] at harray
  refine Nat.le_trans hobject ?_
  simp only [maxRequestBuffer, Request.maxWidth] at harray hproduct ⊢
  omega

end Batch

/-! ### Replies -/

namespace Reply

theorem isPlain_toJson (r : Reply) : r.toJson.IsPlain := by
  simp [toJson]

/-- The fields of a reply are found where they were written. -/
private theorem exists_fields (r : Reply) : ∃ found,
    r.toJson.fields? ["sequence", "result", "payload"] = some ⟨true, found⟩ ∧
      found.lookup "sequence" = some (.ofNat r.sequence) ∧
      found.lookup "result" = some (.ofText r.result.name) ∧
      found.lookup "payload" = some (.ofText r.payload) := by
  obtain ⟨found, hfields, hlookup⟩ := Json.exists_fields
    [("sequence", .ofNat r.sequence), ("result", .ofText r.result.name),
      ("payload", .ofText r.payload)] (by simp)
  simp only [List.map_cons, List.map_nil] at hfields
  exact ⟨found, hfields, by simp [hlookup], by simp [hlookup, List.lookup_cons],
    by simp [hlookup, List.lookup_cons]⟩

/-- **Reading inverts writing**: a reply is read as it was written. -/
theorem decode_encode {r : Reply} (h : r.sequence < sequenceBound) : decode r.encode = .ok r := by
  have hsequence := Json.nat64?_ofNat h
  obtain ⟨found, hfields, hnumber, hresult, hpayload⟩ := r.exists_fields
  have hread : ofJson? r.toJson = some r := by
    simp [ofJson?, hfields, Json.Fields.required, Json.Fields.orElse, hnumber, hresult, hpayload,
      hsequence, ReplyResult.ofName?_name]
  simp [decode, encode, Json.parse?_render r.isPlain_toJson, hread]

/-- A reply to a number of more than sixty-four bits is not understood. -/
theorem decode_encode_of_le {r : Reply} (h : sequenceBound ≤ r.sequence) :
    decode r.encode = .error (.badBufferData .malformedReply) := by
  have hsequence : (Json.ofNat r.sequence).nat64? = none := Json.nat?_ofNat_of_le h
  obtain ⟨found, hfields, hnumber, -⟩ := r.exists_fields
  have hread : ofJson? r.toJson = none := by
    simp [ofJson?, hfields, Json.Fields.required, hnumber, hsequence]
  simp [decode, encode, Json.parse?_render r.isPlain_toJson, hread]

theorem length_encode_pos (r : Reply) : 0 < r.encode.length := by
  have hopen : r.encode = Json.Token.openObject.text ++
      (Json.memberTokens [Json.member "sequence" (.ofNat r.sequence),
        Json.member "result" (.ofText r.result.name),
        Json.member "payload" (.ofText r.payload)]).flatMap Json.Token.text := rfl
  rw [hopen, List.length_append]
  exact Nat.lt_of_lt_of_le Nat.zero_lt_one (Nat.le_add_right 1 _)

/-- A reply takes up little more than its payload. -/
theorem length_encode_le {r : Reply} (h : r.sequence < sequenceBound) :
    r.encode.length ≤ (Json.ofText r.payload).width + 116 := by
  have hobject := Json.width_object_le
    [("sequence", .ofNat r.sequence), ("result", .ofText r.result.name),
      ("payload", .ofText r.payload)]
  have hnames : (Json.ofText "sequence").width + (Json.ofText "result").width +
      (Json.ofText "payload").width = 27 := by decide +kernel
  have hnumber := Json.width_ofNat_le_twenty h
  have hresult : (Json.ofText r.result.name).width ≤ 10 := by
    cases r.result <;> decide +kernel
  simp only [List.map_cons, List.map_nil, List.sum_cons, List.sum_nil] at hobject
  refine Nat.le_trans hobject ?_
  omega

/-- A reply whose payload writes no more octets than a key may have fits into its buffer. -/
theorem length_encode_hex_le {r : Reply} {material : Bytes} (h : r.sequence < sequenceBound)
    (hpayload : r.payload = Hex.encode material) (hmaterial : material.length ≤ Anchor.maxKeySize) :
    r.encode.length ≤ Anchor.maxCertificateSize := by
  have hlength := length_encode_le h
  rw [hpayload, Json.width_hex] at hlength
  simp only [Anchor.maxKeySize, Anchor.maxCertificateSize] at hmaterial ⊢
  omega

end Reply

/-! ### Every message read back -/

/-- The numbers of a batch fit into the fields that carry them. -/
structure Batch.InRange (b : Batch) : Prop where
  version : b.version < 0x100000000
  sequences : ∀ r ∈ b.requests, r.sequence < sequenceBound
  remaining : b.remaining < sequenceBound

/-- **No message is altered on its way**, whatever its texts: batches and replies are read as they
were written, a request carries the payload of its command, and a reply of success its material. -/
theorem messages_read_back :
    (∀ b : Batch, b.InRange → Batch.decode? b.encode = some b) ∧
      (∀ r : Reply, r.sequence < sequenceBound → Reply.decode r.encode = .ok r) ∧
        (∀ c : Command, Hex.decode (Request.ofCommand c).payload = .ok c.payload) ∧
          ∀ (sequence : Nat) (material : Bytes),
            (Reply.success sequence material).material = .ok material := by
  refine ⟨fun b h => Batch.decode?_encode h.version h.sequences h.remaining,
    fun r h => Reply.decode_encode h, fun c => Hex.decode_encode c.payload,
    fun sequence material => ?_⟩
  simp only [Reply.material, Reply.success, Hex.decode_encode]
  rfl

/-- The largest numbers, and texts with quotation marks, a line break, a control character and
characters of two to four octets, one of them no hexadecimal payload at all. -/
theorem messages_read_back_extreme :
    let batch : Batch :=
      ⟨0xffffffff,
        [⟨0xffffffffffffffff, .search,
            ⟨⟨List.replicate 16 0xff, rfl⟩, "\"key\\\n\u0001é/𝄞"⟩, "€ \x7b]"⟩,
          ⟨0, .destroy, ⟨⟨List.replicate 16 0, rfl⟩, ""⟩, "00"⟩],
        0xffffffffffffffff⟩
    let reply : Reply := ⟨0xffffffffffffffff, .failure, "not \"hex\" \u007f𝄞"⟩
    Batch.decode? batch.encode = some batch ∧ Reply.decode reply.encode = .ok reply := by
  intro batch reply
  have hbatch : batch.InRange := ⟨by decide, by decide, by decide⟩
  have hreply : reply.sequence < sequenceBound := by decide
  exact ⟨messages_read_back.1 batch hbatch, messages_read_back.2.1 reply hreply⟩

end KeyCustody
