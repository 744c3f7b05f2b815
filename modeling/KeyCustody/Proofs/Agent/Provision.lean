import KeyCustody.Proofs.Agent.Chronicle
import KeyCustody.Proofs.Slot

/-!
# Setting the anchor

The relay sets the anchor by one invocation with three inputs and an output. Nothing is assumed of
its block: a reference may be without a buffer, and the size that it states need not agree with the
buffer. What a block presents is `Block.Presents`.

`Agent.ProvisionOutcome` lists the ways in which the invocation ends, one for each check in the
order in which they are made, and two for the commit. The list is complete
(`Agent.provisionOutcome_invokeProvision`), and as a block presents at most one anchor, it says
exactly when the anchor is set, and what is written into the block (`Agent.provision_at_boundary`).
-/

namespace KeyCustody

/-! ### What a block presents -/

/-- Whether a block gives the three parts of an anchor as inputs, each within its bounds, and refers
to memory for output. -/
def Block.Presents (block : Block) (anchor : Anchor) (out : MemoryRef) : Prop :=
  ∃ serviceKey certificate privateKey : MemoryRef,
    block = ⟨.memoryIn serviceKey, .memoryIn certificate, .memoryIn privateKey, .memoryOut out⟩ ∧
    serviceKey.Gives Anchor.maxKeySize anchor.serviceKey ∧
    certificate.Gives Anchor.maxCertificateSize anchor.certificate ∧
    privateKey.Gives Anchor.maxKeySize anchor.privateKey

/-- A block presents at most one anchor, with one output. -/
theorem Block.Presents.unique {block : Block} {anchor anchor' : Anchor} {out out' : MemoryRef}
    (h : block.Presents anchor out) (h' : block.Presents anchor' out') :
    anchor = anchor' ∧ out = out' := by
  obtain ⟨k, c, p, rfl, hk, hc, hp⟩ := h
  obtain ⟨k', c', p', hblock, hk', hc', hp'⟩ := h'
  cases hblock
  obtain ⟨serviceKey, certificate, privateKey⟩ := anchor
  obtain rfl := hk.unique hk'
  obtain rfl := hc.unique hc'
  obtain rfl := hp.unique hp'
  exact ⟨rfl, rfl⟩

/-- What a block presents makes an anchor. -/
theorem Block.Presents.make_eq_ok {block : Block} {anchor : Anchor} {out : MemoryRef}
    (h : block.Presents anchor out) :
    Anchor.make anchor.serviceKey anchor.certificate anchor.privateKey = .ok anchor := by
  obtain ⟨k, c, p, -, hk, hc, hp⟩ := h
  simp only [Anchor.make, hk.checkPart, hc.checkPart, hp.checkPart]
  rfl

namespace Agent

variable {σ : Type} [Store σ] {a b : Agent σ} {block block' : Block} {anchor : Anchor}
  {out : MemoryRef} {room : Bytes} {result : Except Fault Unit}

/-! ### The ways to end -/

/-- The records that a commit writes when an anchor is set. -/
def provisionWrites (a : Agent σ) (anchor : Anchor) : List (String × Bytes) :=
  anchor.records ++ [(Custody.record, a.blank.encode)]

/-- How an invocation that is to set the anchor ends. -/
inductive ProvisionOutcome (a : Agent σ) (block : Block) :
    Except Fault Unit → Block → Agent σ → Prop
  | malformed (fault : Fault) (h : ∀ anchor out, ¬ block.Presents anchor out) :
    ProvisionOutcome a block (.error fault) block a
  | initialized {anchor : Anchor} {out : MemoryRef} (h : block.Presents anchor out)
      (hinit : a.isInitialized = true) :
    ProvisionOutcome a block (.error .alreadyInitialized) block a
  | unusable {anchor : Anchor} {out : MemoryRef} (fault : Fault) (h : block.Presents anchor out)
      (hinit : a.isInitialized = false)
      (hout : ∀ room, ¬ out.Gives Anchor.maxCertificateSize room) :
    ProvisionOutcome a block (.error fault) block a
  | short {anchor : Anchor} {out : MemoryRef} {room : Bytes} (h : block.Presents anchor out)
      (hinit : a.isInitialized = false) (hout : out.Gives Anchor.maxCertificateSize room)
      (hshort : out.size < anchor.certificate.length) :
    ProvisionOutcome a block
      (.error (.badBufferData (.shortOutput anchor.certificate.length out.size)))
      { block with fourth := .memoryOut { out with size := anchor.certificate.length } } a
  | unsaved {anchor : Anchor} {out : MemoryRef} {room : Bytes} {fault : StoreFault} {store : σ}
      (h : block.Presents anchor out) (hinit : a.isInitialized = false)
      (hout : out.Gives Anchor.maxCertificateSize room)
      (hroom : anchor.certificate.length ≤ out.size)
      (hcommit : Store.commit a.store (a.provisionWrites anchor) = (.error fault, store)) :
    ProvisionOutcome a block (.error (.storage fault)) block { a with store := store }
  | done {anchor : Anchor} {out : MemoryRef} {room buffer : Bytes} {store : σ}
      (h : block.Presents anchor out) (hinit : a.isInitialized = false)
      (hout : out.Gives Anchor.maxCertificateSize room)
      (hroom : anchor.certificate.length ≤ out.size) (hbuffer : out.buffer = some buffer)
      (hcommit : Store.commit a.store (a.provisionWrites anchor) = (.ok (), store)) :
    ProvisionOutcome a block (.ok ())
      { block with fourth := .memoryOut (.filled buffer anchor.certificate) }
      { a with store := store, anchor := some anchor, custody := a.blank }

/-- A block that presents nothing is refused before the agent is looked at. -/
private theorem invokeProvision_of_not_presents (a : Agent σ)
    (h : ∀ anchor out, ¬ block.Presents anchor out) :
    ∃ fault, a.invokeProvision block = (.error fault, block, a) := by
  unfold invokeProvision
  split
  · rename_i k c p out
    dsimp only
    split
    · exact ⟨_, rfl⟩
    · rename_i serviceKey certificate privateKey hinputs
      obtain ⟨_, hk, hinputs⟩ := bind_eq_ok hinputs
      obtain ⟨_, hc, hinputs⟩ := bind_eq_ok hinputs
      obtain ⟨_, hp, -⟩ := bind_eq_ok hinputs
      exact absurd ⟨k, c, p, rfl, (MemoryRef.checked_eq_ok_iff _).mp hk,
        (MemoryRef.checked_eq_ok_iff _).mp hc, (MemoryRef.checked_eq_ok_iff _).mp hp⟩
        (h ⟨_, _, _⟩ out)
  · exact ⟨_, rfl⟩

/-- Once the inputs are read, the agent and the output are checked, and the anchor is set. -/
private theorem invokeProvision_of_presents (a : Agent σ) (h : block.Presents anchor out) :
    a.invokeProvision block =
      if a.isInitialized then (.error .alreadyInitialized, block, a)
      else
        match out.checked Anchor.maxCertificateSize "certificate output" with
        | .error fault => (.error fault, block, a)
        | .ok room =>
          if room.length < anchor.certificate.length then
            (.error (.badBufferData (.shortOutput anchor.certificate.length room.length)),
              { block with fourth := .memoryOut { out with size := anchor.certificate.length } }, a)
          else
            match a.provision anchor.serviceKey anchor.certificate anchor.privateKey with
            | (.error fault, a) => (.error fault, block, a)
            | (.ok echoed, a) =>
              ((out.write echoed).1,
                { block with fourth := .memoryOut (out.write echoed).2 }, a) := by
  obtain ⟨k, c, p, rfl, hk, hc, hp⟩ := h
  rw [invokeProvision]
  simp only [(MemoryRef.checked_eq_ok_iff _).mpr hk, (MemoryRef.checked_eq_ok_iff _).mpr hc,
    (MemoryRef.checked_eq_ok_iff _).mpr hp]
  rfl

/-- Setting an anchor that a block presents comes down to one commit. -/
private theorem provision_of_presents (h : block.Presents anchor out)
    (hinit : a.isInitialized = false) :
    a.provision anchor.serviceKey anchor.certificate anchor.privateKey =
      match Store.commit a.store (a.provisionWrites anchor) with
      | (.ok (), store) =>
        (.ok anchor.certificate,
          { a with store := store, anchor := some anchor, custody := a.blank })
      | (.error fault, store) => (.error (.storage fault), { a with store := store }) := by
  rw [provision, h.make_eq_ok]
  dsimp only
  rw [if_neg (by simp [hinit])]
  rfl

/-- **The ways to end are all**: the invocation ends in one of them. -/
theorem provisionOutcome_invokeProvision (a : Agent σ) (block : Block) :
    a.ProvisionOutcome block (a.invokeProvision block).1 (a.invokeProvision block).2.1
      (a.invokeProvision block).2.2 := by
  by_cases hpresents : ∃ anchor out, block.Presents anchor out
  · obtain ⟨anchor, out, h⟩ := hpresents
    rw [invokeProvision_of_presents a h]
    split_ifs with hinit
    · exact .initialized h hinit
    rw [Bool.not_eq_true] at hinit
    rcases hchecked : out.checked Anchor.maxCertificateSize "certificate output" with fault | room
    · refine .unusable fault h hinit fun room hout => ?_
      cases hchecked.symm.trans ((MemoryRef.checked_eq_ok_iff _).mpr hout)
    have hout := (MemoryRef.checked_eq_ok_iff _).mp hchecked
    dsimp only
    rw [hout.length_eq, provision_of_presents h hinit]
    split_ifs with hshort
    · exact .short h hinit hout hshort
    rw [Nat.not_lt] at hshort
    obtain ⟨result, store, hcommit⟩ : ∃ result store,
        Store.commit a.store (a.provisionWrites anchor) = (result, store) := ⟨_, _, rfl⟩
    rw [hcommit]
    rcases result with fault | ⟨⟩
    · exact .unsaved h hinit hout hshort hcommit
    · -- the anchor is set by now, and the room for the certificate was checked before
      obtain ⟨buffer, hbuffer, -⟩ := id hout
      dsimp only
      rw [hout.write_eq_ok hbuffer hshort]
      exact .done h hinit hout hshort hbuffer hcommit
  · obtain ⟨fault, hrefused⟩ := invokeProvision_of_not_presents a fun anchor out h =>
      hpresents ⟨anchor, out, h⟩
    rw [hrefused]
    exact .malformed fault fun anchor out h => hpresents ⟨anchor, out, h⟩

namespace ProvisionOutcome

/-- Nothing is missing exactly if the anchor is set. -/
theorem eq_ok_iff (h : a.ProvisionOutcome block result block' b) :
    result = .ok () ↔ ∃ anchor out room store, block.Presents anchor out ∧
      a.isInitialized = false ∧ out.Gives Anchor.maxCertificateSize room ∧
      anchor.certificate.length ≤ out.size ∧
      Store.commit a.store (a.provisionWrites anchor) = (.ok (), store) := by
  constructor
  · rintro rfl
    cases h with
    | done h hinit hout hroom hbuffer hcommit => exact ⟨_, _, _, _, h, hinit, hout, hroom, hcommit⟩
  · rintro ⟨anchor, out, room, store, hpresents, hinit, hout, hroom, hcommit⟩
    cases h with
    | malformed fault h => exact absurd hpresents (h anchor out)
    | initialized h hinit' => cases hinit.symm.trans hinit'
    | unusable fault h hinit' hout' =>
      obtain ⟨-, rfl⟩ := hpresents.unique h
      exact absurd hout (hout' room)
    | short h hinit' hout' hshort =>
      obtain ⟨rfl, rfl⟩ := hpresents.unique h
      exact absurd hshort (Nat.not_lt.mpr hroom)
    | unsaved h hinit' hout' hroom' hcommit' =>
      obtain ⟨rfl, -⟩ := hpresents.unique h
      cases hcommit.symm.trans hcommit'
    | done => rfl

/-- Where the anchor is not set, no record changes, and nothing at all unless the commit failed. -/
theorem unchanged_of_ne_ok [ReliableStore σ] (h : a.ProvisionOutcome block result block' b)
    (hsound : ReliableStore.Sound a.store) (hresult : result ≠ .ok ()) :
    b = { a with store := b.store } ∧ SameRecords a.store b.store ∧
      ((∀ cause, result ≠ .error (.storage cause)) → b = a) := by
  cases h with
  | malformed | initialized | unusable | short => exact ⟨rfl, fun _ _ => rfl, fun _ => rfl⟩
  | unsaved h hinit hout hroom hcommit =>
    exact ⟨rfl, (ReliableStore.of_commit_eq_error hsound (.anchor _ _) hcommit).2,
      fun hcause => absurd rfl (hcause _)⟩
  | done => exact absurd rfl hresult

end ProvisionOutcome

/-! ### At the boundary -/

/-- The anchor that was written is the anchor that is loaded. -/
private theorem loadAnchor_of_written {store : σ} {text : Bytes}
    (h : ∀ write ∈ anchor.records ++ [(Custody.record, text)],
      Store.load store write.1 = .ok (some write.2)) :
    loadAnchor store = .ok (some anchor) := by
  have hrecords := fun write hwrite => h write (List.mem_append_left _ hwrite)
  simp only [Anchor.records, List.forall_mem_cons] at hrecords
  obtain ⟨hserviceKey, hcertificate, hprivateKey, -⟩ := hrecords
  rw [loadAnchor, hserviceKey, hcertificate, hprivateKey]
  rfl

/-- Whether nothing is missing to set the anchor that a block presents but room for the
certificate. -/
def FallsShort (a : Agent σ) (block : Block) (anchor : Anchor) (out : MemoryRef) : Prop :=
  block.Presents anchor out ∧ a.isInitialized = false ∧
    (∃ room, out.Gives Anchor.maxCertificateSize room) ∧ out.size < anchor.certificate.length

/-- The block of an invocation that fails stays as it was, but for the size of an output that falls
short. -/
theorem ProvisionOutcome.block_eq (h : a.ProvisionOutcome block result block' b)
    (hresult : result ≠ .ok ()) :
    (∀ anchor out, a.FallsShort block anchor out →
      result = .error (.badBufferData (.shortOutput anchor.certificate.length out.size)) ∧
      block' = { block with
        fourth := .memoryOut { out with size := anchor.certificate.length } }) ∧
    ((∀ anchor out, ¬ a.FallsShort block anchor out) → block' = block) := by
  cases h with
  | malformed fault h =>
    exact ⟨fun anchor out hshort => absurd hshort.1 (h anchor out), fun _ => rfl⟩
  | initialized h hinit =>
    refine ⟨fun anchor out hshort => ?_, fun _ => rfl⟩
    cases hshort.2.1.symm.trans hinit
  | unusable fault h hinit hout =>
    refine ⟨fun anchor out hshort => ?_, fun _ => rfl⟩
    obtain ⟨hpresents, -, ⟨room, hroom⟩, -⟩ := hshort
    obtain ⟨-, rfl⟩ := hpresents.unique h
    exact absurd hroom (hout room)
  | short h hinit hout hshort =>
    refine ⟨fun anchor out hshort' => ?_, fun hnot => ?_⟩
    · obtain ⟨rfl, rfl⟩ := hshort'.1.unique h
      exact ⟨rfl, rfl⟩
    · exact absurd ⟨h, hinit, ⟨_, hout⟩, hshort⟩ (hnot _ _)
  | unsaved h hinit hout hroom hcommit =>
    refine ⟨fun anchor out hshort => ?_, fun _ => rfl⟩
    obtain ⟨rfl, rfl⟩ := hshort.1.unique h
    exact absurd hshort.2.2.2 (Nat.not_lt.mpr hroom)
  | done => exact absurd rfl hresult

/-- **The anchor is set exactly if nothing is missing**: the block presents an anchor, none is set
yet, the output has room for the certificate, and the commit succeeds. Then custody begins with
nothing held and goes on with the numbers of commands. Otherwise the agent and its records stay as
they are, and so does the block, but for the size of an output that falls short. -/
theorem provision_at_boundary [ReliableStore σ] {past : List (Occasion σ)} (h : Chronicle past a)
    (hinvoke : a.invoke RelayCommand.provision.id block = (result, block', b)) :
    (result = .ok () ↔ ∃ anchor out room store, block.Presents anchor out ∧
      a.isInitialized = false ∧ out.Gives Anchor.maxCertificateSize room ∧
      anchor.certificate.length ≤ out.size ∧
      Store.commit a.store (a.provisionWrites anchor) = (.ok (), store)) ∧
    (result = .ok () → ∃ anchor out buffer, block.Presents anchor out ∧
      out.buffer = some buffer ∧
      block' = { block with fourth := .memoryOut (.filled buffer anchor.certificate) } ∧
      b.settings = a.settings ∧ b.anchor = some anchor ∧ loadAnchor b.store = .ok (some anchor) ∧
      b.custody.keyring = Keyring.empty ∧ b.custody.outbox.commands = [] ∧
      b.custody.gate = Gate.empty ∧
      b.custody.outbox.nextSequence = a.custody.outbox.nextSequence) ∧
    (result ≠ .ok () →
      (b = { a with store := b.store } ∧ SameRecords a.store b.store ∧
        ((∀ cause, result ≠ .error (.storage cause)) → b = a)) ∧
      (∀ anchor out, a.FallsShort block anchor out →
        result = .error (.badBufferData (.shortOutput anchor.certificate.length out.size)) ∧
        block' = { block with
          fourth := .memoryOut { out with size := anchor.certificate.length } }) ∧
      ((∀ anchor out, ¬ a.FallsShort block anchor out) → block' = block)) := by
  have hground := h.grounded
  have houtcome := provisionOutcome_invokeProvision a block
  have hinvoke : a.invokeProvision block = (result, block', b) := hinvoke
  rw [hinvoke] at houtcome
  refine ⟨houtcome.eq_ok_iff, fun hresult => ?_, fun hresult =>
    ⟨houtcome.unchanged_of_ne_ok hground.store hresult, houtcome.block_eq hresult⟩⟩
  dsimp only at houtcome
  cases houtcome with
  | @done anchor out room buffer store hpresents hinit hout hroom hbuffer hcommit =>
    obtain ⟨-, hwritten⟩ := ReliableStore.of_commit_eq_ok hground.store (.anchor _ _) hcommit
    exact ⟨anchor, out, buffer, hpresents, hbuffer, rfl, rfl, rfl,
      loadAnchor_of_written hwritten, rfl, rfl, rfl,
      Custody.nextSequence_freshAfter hground.custody _⟩
  | malformed | initialized | unusable | short | unsaved => cases hresult

/-- Three inputs in longer buffers, and an output of some size in a buffer of three octets. -/
def introductoryBlock (size : Nat) : Block :=
  ⟨.memoryIn ⟨some [1, 9], 1⟩, .memoryIn ⟨some [2, 3], 2⟩, .memoryIn ⟨some [4, 9, 9], 1⟩,
    .memoryOut ⟨some [7, 7, 7], size⟩⟩

/-- An output of one octet falls short of a certificate of two. The size that is reported then is
enough. -/
theorem provision_at_boundary_opened :
    let short := opened.invoke RelayCommand.provision.id (introductoryBlock 1)
    let exact := opened.invoke RelayCommand.provision.id (introductoryBlock 2)
    Chronicle [] opened ∧
      short.1 ≠ .ok () ∧ short.2.1 = introductoryBlock 2 ∧ short.2.2 = opened ∧
      exact.1 = .ok () ∧ exact.2.2.anchor = some ⟨[1], [2, 3], [4]⟩ ∧
      exact.2.1.fourth = .memoryOut ⟨some [2, 3, 7], 2⟩ := by
  intro short exact
  have hrun : Chronicle [] opened := run_opened.chronicle
  have hpresents (size : Nat) : (introductoryBlock size).Presents ⟨[1], [2, 3], [4]⟩
      ⟨some [7, 7, 7], size⟩ :=
    ⟨_, _, _, rfl, ⟨_, rfl, by decide, by decide, by decide, rfl⟩,
      ⟨_, rfl, by decide, by decide, by decide, rfl⟩,
      ⟨_, rfl, by decide, by decide, by decide, rfl⟩⟩
  have hgives (size : Nat) (hpos : 1 ≤ size) (hle : size ≤ 3) :
      (⟨some [7, 7, 7], size⟩ : MemoryRef).Gives Anchor.maxCertificateSize
        ([7, 7, 7].take size) :=
    ⟨_, rfl, hpos, Nat.le_trans hle (by decide), hle, rfl⟩
  have hshort : opened.FallsShort (introductoryBlock 1) ⟨[1], [2, 3], [4]⟩ ⟨some [7, 7, 7], 1⟩ :=
    ⟨hpresents 1, rfl, ⟨_, hgives 1 (by decide) (by decide)⟩, by decide⟩
  have hinvokeShort : opened.invoke RelayCommand.provision.id (introductoryBlock 1) =
      (short.1, short.2.1, short.2.2) := rfl
  have hinvokeExact : opened.invoke RelayCommand.provision.id (introductoryBlock 2) =
      (exact.1, exact.2.1, exact.2.2) := rfl
  have hne : short.1 ≠ .ok () := by decide +kernel
  obtain ⟨-, -, hfails⟩ := provision_at_boundary hrun hinvokeShort
  obtain ⟨⟨-, -, hsame⟩, hfalls, -⟩ := hfails hne
  obtain ⟨hfault, hblock⟩ := hfalls _ _ hshort
  obtain ⟨hiff, hdone, -⟩ := provision_at_boundary hrun hinvokeExact
  have hexact : exact.1 = .ok () := hiff.mpr ⟨_, _, _, _, hpresents 2, rfl,
    hgives 2 (by decide) (by decide), by decide, rfl⟩
  obtain ⟨anchor, out, buffer, hpresents', hbuffer, hblock', -, hanchor, -⟩ := hdone hexact
  obtain ⟨rfl, rfl⟩ := hpresents'.unique (hpresents 2)
  obtain rfl := Option.some.inj hbuffer
  refine ⟨hrun, hne, hblock, hsame fun cause hcause => ?_, hexact, hanchor,
    congrArg Block.fourth hblock'⟩
  cases hfault.symm.trans hcause

end Agent

end KeyCustody
