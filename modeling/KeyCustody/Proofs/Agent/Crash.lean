import KeyCustody.Proofs.Agent.Sealed

/-!
# Crashes of the custodian

The custodian over a sealed store runs through calls that meet no fault of the store, new starts,
and crashes at any step of a call (`Agent.SealedRun`). Wherever the machine stops, and however often
it stops again while the store is mounted, the next start finds the anchor and the state of before
the call or of after it, apart from verdicts (`Agent.crash_safe`). A close that was interrupted has
either not begun or left nothing but the number of the next command, although its erasing of the
anchor is not atomic: an anchor counts only if all of its records are there.
-/

namespace KeyCustody

/-- The parts of an anchor are those it was made of. -/
theorem Anchor.make_eq_ok {serviceKey certificate privateKey : Bytes} {anchor : Anchor}
    (h : Anchor.make serviceKey certificate privateKey = .ok anchor) :
    anchor = ⟨serviceKey, certificate, privateKey⟩ := by
  obtain ⟨_, -, h⟩ := bind_eq_ok h
  obtain ⟨_, -, h⟩ := bind_eq_ok h
  obtain ⟨_, -, h⟩ := bind_eq_ok h
  exact (Except.ok.inj h).symm

namespace Agent

/-- A run of the custodian over a sealed store with a secret, with the calls that were made, the
interrupted ones included. It starts over any folder without records, and sequence numbers last
after every step. -/
inductive SealedRun (secret : String) : List Call → Agent Vault → Prop
  | start {settings : Settings} {d : Disk} {folder : Route} {v : Vault} {a : Agent Vault}
      (hmount : Vault.Remounted folder secret d v)
      (hempty : ∀ name ∈ Custody.record :: Anchor.recordNames, v.load name = .ok none)
      (hstart : Agent.start settings v = .ok a) :
    SealedRun secret [] a
  | call {past : List Call} {a : Agent Vault} (call : Call) (hrun : SealedRun secret past a)
      (hfault : ∀ fault, (a.serve call).1 ≠ .error (.storage fault))
      (hnumbers : (a.serve call).2.custody.outbox.NumbersLast) :
    SealedRun secret (past ++ [call]) (a.serve call).2
  | restart {past : List Call} {a b : Agent Vault} {settings : Settings} {v : Vault}
      (hrun : SealedRun secret past a)
      (hmount : Vault.Remounted a.store.folder secret a.store.drive.disk v)
      (hstart : Agent.start settings v = .ok b) :
    SealedRun secret past b
  | crash {past : List Call} {a b : Agent Vault} {settings : Settings} {v : Vault} {d : Disk}
      (call : Call) (hrun : SealedRun secret past a)
      (hfault : ∀ fault, (a.serve call).1 ≠ .error (.storage fault))
      (hstop : a.store.drive.Stops (a.serve call).2.store.drive d)
      (hmount : Vault.Remounted a.store.folder secret d v)
      (hstart : Agent.start settings v = .ok b) (hnumbers : b.custody.outbox.NumbersLast) :
    SealedRun secret (past ++ [call]) b

variable {a b c : Agent Vault} {m : MemoryStore} {secret : String} {past : List Call} {call : Call}
  {result : Except Fault Answer} {v : Vault} {d e : Disk} {settings : Settings}

/-! ### What starts find -/

/-- Whether an agent holds the anchor and the state of another, apart from verdicts. -/
def Recalls (b a : Agent Vault) : Prop :=
  b.anchor = a.anchor ∧ b.custody = a.custody.withoutVerdicts

/-- A start over the vault of an agent finds what the agent holds. -/
private theorem Mirrors.start_eq_ok (h : a.Mirrors secret m)
    (hsettings : settings.check = .ok ()) :
    Agent.start settings a.store = .ok { a with
      settings := settings
      custody := a.custody.withoutVerdicts.withCapacity settings.maxQueueDepth } :=
  h.reads.start (Agent.start_eq_ok h.lawful hsettings)

private theorem Mirrors.start (h : a.Mirrors secret m)
    (hstart : Agent.start settings a.store = .ok b) :
    b.Mirrors secret m ∧ b.anchor = a.anchor ∧
      b.custody.outbox.nextSequence = a.custody.outbox.nextSequence := by
  have hsettings := check_of_start hstart
  obtain rfl := Except.ok.inj ((h.start_eq_ok hsettings).symm.trans hstart)
  have hlawful := h.lawful.start (Agent.start_eq_ok h.lawful hsettings)
  exact ⟨⟨h.clean, h.reads, hlawful, h.steady⟩, rfl, rfl⟩

/-- Under the settings in use it finds exactly that, apart from verdicts. -/
private theorem Mirrors.recalls (h : a.Mirrors secret m) :
    ∃ b, Agent.start a.settings a.store = .ok b ∧ b.Recalls a :=
  ⟨_, h.reads.start h.lawful.start_self, rfl, rfl⟩

private theorem mirrors_of_start_empty (hv : v.Clean secret)
    (hempty : ∀ name ∈ Custody.record :: Anchor.recordNames, v.load name = .ok none)
    (hstart : Agent.start settings v = .ok a) :
    a.Mirrors secret MemoryStore.empty ∧ a.anchor = none ∧ a.custody.outbox.NumbersLast := by
  have hreads : Reads v MemoryStore.empty := .of_empty hempty
  have hstart' := start_empty (check_of_start hstart)
  obtain rfl := Except.ok.inj ((hreads.start hstart').symm.trans hstart)
  have hnumbers := Custody.numbersLast_fresh settings.maxQueueDepth
  exact ⟨⟨hv, hreads, lawful_of_start_empty hstart', rfl⟩, rfl, hnumbers⟩

/-! ### Where the anchor comes from -/

/-- Whether an anchor, if there is one, has the three parts of one of the calls that were made. -/
def Provisioned (past : List Call) (anchor : Option Anchor) : Prop :=
  ∀ parts, anchor = some parts →
    .provision parts.serviceKey parts.certificate parts.privateKey ∈ past

private theorem Provisioned.concat {anchor : Option Anchor} (h : Provisioned past anchor)
    (call : Call) : Provisioned (past ++ [call]) anchor :=
  fun parts hparts => List.mem_append_left _ (h parts hparts)

/-- An anchor is kept, lost, or set as a whole by one call. -/
private theorem Effect.provisioned_anchor (h : a.Effect call result b)
    (ha : Provisioned past a.anchor) : Provisioned (past ++ [call]) b.anchor := by
  cases h with
  | refused | found | saved | unsaved | unprovisioned | attested | revoked | unerased =>
    exact ha.concat _
  | provisioned _ hmake =>
    intro parts hparts
    obtain rfl := Option.some.inj hparts
    rw [Anchor.make_eq_ok hmake]
    exact List.mem_append_right _ List.mem_cons_self
  | closed | unclosed => exact fun _ hparts => nomatch hparts

/-! ### The invariant of a run -/

/-- What is resumed after a crash is an agent as it was before the call or after it. -/
private theorem Resumes.start (h : Resumes secret a b v) (ha : Provisioned past a.anchor)
    (hb : Provisioned past b.anchor) (hstart : Agent.start settings v = .ok c) :
    (∃ m, c.Mirrors secret m) ∧ Provisioned past c.anchor := by
  obtain ⟨m, hm | hm⟩ := h
  · obtain ⟨hc, hanchor, -⟩ := hm.start hstart
    exact ⟨⟨m, hc⟩, hanchor ▸ ha⟩
  · obtain ⟨hc, hanchor, -⟩ := hm.start hstart
    exact ⟨⟨m, hc⟩, hanchor ▸ hb⟩

/-- A call that meets no fault of the store is as it should be while numbers last. -/
private theorem Mirrors.serve (h : a.Mirrors secret m) (hnumbers : a.custody.outbox.NumbersLast)
    (hfault : ∀ fault, (a.serve call).1 ≠ .error (.storage fault)) :
    (∃ m', (a.serve call).2.Mirrors secret m') ∧
      a.store.drive.Passes (a.serve call).2.store.drive
        (Vault.Reopens a.store.folder secret (Resumes secret a (a.serve call).2)) := by
  have heffect := effect_serve a call
  have hnext := heffect.nextSequence_lt h.lawful.sound h.lawful.capacity_le hnumbers
  exact (heffect.mirrors hnext h hfault).2

theorem SealedRun.mirrors (h : SealedRun secret past a) :
    (∃ m, a.Mirrors secret m) ∧ Provisioned past a.anchor ∧ a.custody.outbox.NumbersLast := by
  induction h with
  | start hmount hempty hstart =>
    obtain ⟨hm, hanchor, hnumbers⟩ := mirrors_of_start_empty hmount.clean hempty hstart
    have hnone : Provisioned [] _ := fun _ hparts => nomatch hanchor.symm.trans hparts
    exact ⟨⟨_, hm⟩, hnone, hnumbers⟩
  | @call past a call _ hfault hnumbers ih =>
    obtain ⟨⟨m, hm⟩, hanchor, hbefore⟩ := ih
    obtain ⟨hmirrors, -⟩ := hm.serve hbefore hfault
    exact ⟨hmirrors, (effect_serve a call).provisioned_anchor hanchor, hnumbers⟩
  | @restart past a b _ v _ hmount hstart ih =>
    obtain ⟨⟨m, hm⟩, hanchor, hbefore⟩ := ih
    obtain ⟨hclean, -, hloads⟩ := hm.clean.reopens.of_remounted hmount
    have hv : (a.withStore v).Mirrors secret m :=
      ⟨hclean, hm.reads.congr hloads, hm.lawful, hm.steady⟩
    obtain ⟨hb, hsame, hnext⟩ := hv.start hstart
    exact ⟨⟨m, hb⟩, hsame ▸ hanchor, hbefore.mono (Nat.le_of_eq hnext)⟩
  | @crash past a b _ v d call _ hfault hstop hmount hstart hnumbers ih =>
    obtain ⟨⟨m, hm⟩, hanchor, hbefore⟩ := ih
    obtain ⟨-, hpasses⟩ := hm.serve hbefore hfault
    obtain ⟨-, -, hresumes⟩ := (hpasses.of_stops hstop).of_remounted hmount
    obtain ⟨hb, hsame⟩ := hresumes.start (hanchor.concat call)
      ((effect_serve a call).provisioned_anchor hanchor) hstart
    exact ⟨hb, hsame, hnumbers⟩

/-- The agent over the vault that is mounted from its disk. -/
def remounted (a : Agent Vault) (secret : String) (nonces : Nat → Nonce) : Agent Vault :=
  { a with
    store := ⟨.ofDisk a.store.drive.disk, a.store.folder, Seal.deviceKey secret, nonces, 0⟩
    custody := a.custody.withoutVerdicts }

/-- A run goes on with a new start over the vault. -/
theorem SealedRun.remount (h : SealedRun secret past a) (nonces : Nat → Nonce) :
    SealedRun secret past (a.remounted secret nonces) := by
  obtain ⟨⟨m, hm⟩, -⟩ := h.mirrors
  have hmount : Vault.Remounted a.store.folder secret a.store.drive.disk
      (a.remounted secret nonces).store :=
    ⟨_, nonces, _, .refl, hm.clean.mount_eq_ok nonces⟩
  obtain ⟨-, -, hloads⟩ := hm.clean.reopens.of_remounted hmount
  exact h.restart hmount ((hm.reads.congr hloads).start hm.lawful.start_self)

/-! ### Crashes at any step -/

private theorem Effect.settings_eq (h : a.Effect call result b) : b.settings = a.settings := by
  cases h <;> rfl

/-- A close that meets no fault of the store leaves the number of the next command alone. -/
private theorem Effect.of_close (h : a.Effect .close result b) (ha : a.custody.Sound)
    (hfault : ∀ fault, result ≠ .error (.storage fault)) :
    b.anchor = none ∧ b.custody.keyring = Keyring.empty ∧ b.custody.outbox.commands = [] ∧
      b.custody.outbox.nextSequence = a.custody.outbox.nextSequence := by
  cases h with
  | refused _ hcall => exact absurd rfl hcall
  | found _ _ hcall => cases hcall
  | saved _ ht => cases ht
  | closed => exact ⟨rfl, rfl, rfl, Custody.nextSequence_freshAfter ha _⟩
  | unsaved | unerased | unclosed => exact absurd rfl (hfault _)

/-- **The custodian survives a crash at any step.** If the machine stops during a call that meets no
fault of the store, and any number of times while the vault is mounted again, then the vault can be
mounted and the custodian starts under its settings, with the anchor and the state of before the
call or of after it, apart from verdicts. After a close that was not to be seen nothing is held but
the number of the next command. An anchor that is found was set as a whole by one call. -/
theorem crash_safe (hrun : SealedRun secret past a) (call : Call)
    (hfault : ∀ fault, (a.serve call).1 ≠ .error (.storage fault))
    (hstop : a.store.drive.Stops (a.serve call).2.store.drive d)
    (hlater : Relation.ReflTransGen (Vault.Interrupted a.store.folder secret) d e)
    (nonces : Nat → Nonce) :
    ∃ v drive b, Vault.mount (.ofDisk e) a.store.folder secret nonces = (.ok v, drive) ∧
      Agent.start a.settings v = .ok b ∧
      (b.Recalls a ∨ b.Recalls (a.serve call).2) ∧
      (call = .close → b.Recalls a ∨
        (b.isInitialized = false ∧ b.custody.keyring = Keyring.empty ∧
          b.custody.outbox.commands = [] ∧
          b.custody.outbox.nextSequence = a.custody.outbox.nextSequence)) ∧
      Provisioned (past ++ [call]) b.anchor := by
  obtain ⟨⟨m, hm⟩, hanchor, hnumbers⟩ := hrun.mirrors
  have heffect := effect_serve a call
  obtain ⟨-, hpasses⟩ := hm.serve hnumbers hfault
  obtain ⟨v, drive, hmount, -, -, m', hbefore | hafter⟩ := hpasses.of_stops hstop e hlater nonces
  · obtain ⟨b, hstart, hrecalls⟩ := hbefore.recalls
    refine ⟨v, drive, b, hmount, hstart, .inl hrecalls, fun _ => .inl hrecalls, ?_⟩
    rw [hrecalls.1]
    exact hanchor.concat call
  · obtain ⟨b, hstart, hrecalls⟩ := hafter.recalls
    obtain ⟨hbanchor, hbcustody⟩ := hrecalls
    have hstart : Agent.start a.settings v = .ok b := by
      rw [← heffect.settings_eq]
      exact hstart
    refine ⟨v, drive, b, hmount, hstart, .inr ⟨hbanchor, hbcustody⟩, ?_, ?_⟩
    · rintro rfl
      obtain ⟨hnone, hkeyring, hcommands, hnext⟩ := heffect.of_close hm.lawful.sound hfault
      have hinit : b.isInitialized = false := by
        rw [isInitialized, hbanchor]
        exact congrArg Option.isSome hnone
      rw [hbcustody]
      exact .inr ⟨hinit, hkeyring, hcommands, hnext⟩
    · rw [hbanchor]
      exact heffect.provisioned_anchor hanchor

/-- The agent over an empty folder. -/
def sealedOpened : Agent Vault where
  settings := .standard
  store := .sample
  anchor := none
  custody := .fresh Settings.standard.maxQueueDepth

/-- The agent after its anchor was set and its vault was mounted once more. -/
def sealedSample : Agent Vault :=
  (sealedOpened.serve (.provision [1] [2] [3])).2.remounted "secret" Vault.sample.nonces

theorem sealedRun_sample : SealedRun "secret" [.provision [1] [2] [3]] sealedSample := by
  have hempty : ∀ name ∈ Custody.record :: Anchor.recordNames,
      Vault.sample.load name = .ok none := by decide +kernel
  have hmount : Vault.Remounted Vault.sample.folder "secret" Vault.sample.drive.disk .sample :=
    ⟨_, Vault.sample.nonces, _, .refl, Vault.clean_sample.mount_eq_ok _⟩
  have hsettings : Settings.standard.check = .ok () := rfl
  have hrun := SealedRun.start hmount hempty ((Reads.of_empty hempty).start (start_empty hsettings))
  refine (hrun.call (.provision [1] [2] [3]) (fun fault hfault => ?_)
    (by decide +kernel)).remount _
  have hok : (sealedOpened.serve (.provision [1] [2] [3])).1.isOk = true := by decide +kernel
  cases hok.symm.trans (congrArg Except.isOk hfault)

/-- The machine stops during a close, when the first record of the anchor is gone and the others are
still there. -/
theorem crash_safe_sample :
    ∃ d v drive b, sealedSample.store.drive.Stops (sealedSample.serve .close).2.store.drive d ∧
      d.find? (Vault.recordRoute (.ofText "s") Anchor.serviceKeyRecord) = none ∧
      d.find? (Vault.recordRoute (.ofText "s") Anchor.certificateRecord) ≠ none ∧
      Vault.mount (.ofDisk d) (.ofText "s") "secret" Vault.sample.nonces = (.ok v, drive) ∧
      Agent.start .standard v = .ok b ∧
      (b.Recalls sealedSample ∨
        (b.isInitialized = false ∧ b.custody.keyring = Keyring.empty ∧
          b.custody.outbox.commands = [] ∧ b.custody.outbox.nextSequence = 1)) ∧
      Provisioned [.provision [1] [2] [3], .close] b.anchor := by
  have hok : (sealedSample.serve .close).1.isOk = true := by decide +kernel
  have hfault : ∀ fault, (sealedSample.serve .close).1 ≠ .error (.storage fault) :=
    fun fault hfault => by cases hok.symm.trans (congrArg Except.isOk hfault)
  have hfiles : ((((sealedSample.serve .close).2.store.drive.log.reverse.take 1).foldlM Action.apply
      sealedSample.store.drive.disk).toOption.map fun d =>
        ((d.find? (Vault.recordRoute (.ofText "s") Anchor.serviceKeyRecord)).isSome,
          (d.find? (Vault.recordRoute (.ofText "s") Anchor.certificateRecord)).isSome)) =
      some (false, true) := by decide +kernel
  rcases hstopped : ((sealedSample.serve .close).2.store.drive.log.reverse.take 1).foldlM
      Action.apply sealedSample.store.drive.disk with why | d
  · rw [hstopped] at hfiles
    cases hfiles
  rw [hstopped] at hfiles
  obtain ⟨hgone, hthere⟩ := Prod.mk.inj (Option.some.inj hfiles)
  have hstop : sealedSample.store.drive.Stops (sealedSample.serve .close).2.store.drive d :=
    ⟨_, by simp only [List.reverse_reverse]; exact (List.append_nil _).symm, .of_take hstopped⟩
  obtain ⟨v, drive, b, hmount, hstart, -, hclose, hanchor⟩ :=
    crash_safe sealedRun_sample .close hfault hstop .refl Vault.sample.nonces
  refine ⟨d, v, drive, b, hstop, ?_, ?_, hmount, hstart, hclose rfl, hanchor⟩
  · exact Option.not_isSome_iff_eq_none.mp (by rw [hgone]; nofun)
  · exact Option.isSome_iff_ne_none.mp hthere

end Agent

end KeyCustody
