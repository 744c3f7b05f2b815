import KeyCustody.Proofs.Agent.Run

/-!
# Where key material comes from

Material that a lookup returns was brought by a reply (`Agent.material_provenance`): the command
that the reply answers was queued for exactly this key, and since it was queued the key was neither
deleted nor destroyed, its application did not end, and custody was not closed. So a reply to a
command from before a deletion never makes a key ready again, in whatever order replies arrive.

The invariant of a run, `Agent.Traced`, has two parts. An entry that waits has a command that was
queued since its key was last struck and is still in the outbox; an entry that is ready has
provenance for its material.
-/

namespace KeyCustody

namespace Moment

/-- A moment in which a command is queued: the command is in the outbox afterwards, and no command
with its number was there before. -/
structure Issues (m : Moment) (c : Command) : Prop where
  mem_after : c ∈ m.after.custody.outbox.commands
  not_before : ∀ d ∈ m.before.custody.outbox.commands, d.sequence ≠ c.sequence

/-- A moment in which a reply of success with some material is accepted for a command. -/
def Grants (m : Moment) (c : Command) (material : Bytes) : Prop :=
  ∃ reply answer d, m.event = .call (.submit reply) (.ok answer) ∧ reply.result = .success ∧
    reply.material = .ok material ∧
      m.before.custody.outbox.get? reply.sequence = some d ∧ d.asQueued = c.asQueued

/-- A moment in which a key is lost: its deletion, its destruction or the end of its application
takes effect, or a close is tried, with success or without. -/
def Strikes (m : Moment) (key : KeyRef) : Prop :=
  ∃ call result, m.event = .call call result ∧
    (call = .close ∨ (call.Strikes key ∧ ∃ answer, result = .ok answer))

/-- A call other than a close strikes a key only if it is to and succeeds. -/
theorem not_strikes {before after : Agent MemoryStore} {call : Call}
    {result : Except Fault Answer} {key : KeyRef} (hclose : call ≠ .close)
    (h : call.Strikes key → ∃ fault, result = .error fault) :
    ¬ Strikes ⟨before, .call call result, after⟩ key := by
  rintro ⟨call', result', hevent, hclose' | ⟨hcall, answer, hok⟩⟩
  · obtain ⟨rfl, rfl⟩ := Event.call.inj hevent
    exact hclose hclose'
  · obtain ⟨rfl, rfl⟩ := Event.call.inj hevent
    obtain ⟨fault, herror⟩ := h hcall
    rw [hok] at herror
    cases herror

end Moment

namespace Agent

/-- The command `c` was queued for a key in the moment of number `i`, and the key was not struck
since. -/
structure Issued (past : List Moment) (key : KeyRef) (i : Nat) (c : Command) : Prop where
  issues : ∃ m, past[i]? = some m ∧ m.Issues c
  key_eq : c.key = key
  kind : c.kind = .search ∨ c.kind = .generate
  struck_before : ∀ k m, past[k]? = some m → m.Strikes key → k < i

/-- The material of a key was brought by the reply to a command that was queued for the key before
the reply came and since the key was last struck. -/
def Provenance (past : List Moment) (key : KeyRef) (material : Bytes) : Prop :=
  ∃ i j c m, Issued past key i c ∧ i < j ∧ past[j]? = some m ∧ m.Grants c material

/-- Every entry that waits has a command that was queued since its key was last struck, and every
entry that is ready has provenance for its material. -/
structure Traced (past : List Moment) (a : Agent MemoryStore) : Prop where
  pending : ∀ {key e}, a.custody.keyring.get? key = some e → e.status = .pending →
    ∃ i c, Issued past key i c ∧ ∃ d ∈ a.custody.outbox.commands,
      d.asQueued = c.asQueued ∧ d.sequence = e.lastSequence
  ready : ∀ {key e}, a.custody.keyring.get? key = some e → e.status = .ready →
    ∃ material, e.material = some material ∧ Provenance past key material

variable {past : List Moment} {key : KeyRef} {a b : Agent MemoryStore} {m : Moment} {i : Nat}
  {c : Command} {material : Bytes}

/-! ### One more moment -/

theorem Issued.concat (h : Issued past key i c) (hm : ¬ m.Strikes key) :
    Issued (past ++ [m]) key i c := by
  obtain ⟨⟨mi, hi, hissues⟩, hkey, hkind, hstruck⟩ := h
  refine ⟨⟨mi, getElem?_of_past hi, hissues⟩, hkey, hkind, fun k m' hk hstrikes => ?_⟩
  rcases getElem?_concat hk with hk | ⟨-, rfl⟩
  · exact hstruck k m' hk hstrikes
  · exact absurd hstrikes hm

theorem Provenance.concat (h : Provenance past key material) (hm : ¬ m.Strikes key) :
    Provenance (past ++ [m]) key material := by
  obtain ⟨i, j, c, mj, hissued, hij, hj, hgrants⟩ := h
  exact ⟨i, j, c, mj, hissued.concat hm, hij, getElem?_of_past hj, hgrants⟩

/-- A command that is queued in the last moment was queued since the key was last struck. -/
theorem issued_last (hm : m.Issues c) (hkey : c.key = key)
    (hkind : c.kind = .search ∨ c.kind = .generate) (hstrikes : ¬ m.Strikes key) :
    Issued (past ++ [m]) key past.length c := by
  refine ⟨⟨m, List.getElem?_concat_length, hm⟩, hkey, hkind, fun k m' hk hstrikes' => ?_⟩
  rcases getElem?_concat hk with hk | ⟨-, rfl⟩
  · exact (List.getElem?_eq_some_iff.mp hk).1
  · exact absurd hstrikes' hstrikes

namespace Traced

/-- A moment that leaves entries and commands alone and strikes no key keeps the invariant. -/
theorem kept (h : Traced past a) (hkeyring : b.custody.keyring = a.custody.keyring)
    (hcommands : b.custody.outbox.commands = a.custody.outbox.commands)
    (hm : ∀ key, ¬ m.Strikes key) : Traced (past ++ [m]) b where
  pending {key e} he hstatus := by
    rw [hkeyring] at he
    rw [hcommands]
    obtain ⟨i, c, hissued, hd⟩ := h.pending he hstatus
    exact ⟨i, c, hissued.concat (hm key), hd⟩
  ready {key e} he hstatus := by
    rw [hkeyring] at he
    obtain ⟨material, hmaterial, hprovenance⟩ := h.ready he hstatus
    exact ⟨material, hmaterial, hprovenance.concat (hm key)⟩

/-- Without entries there is nothing to trace. -/
theorem of_empty (h : a.custody.keyring = Keyring.empty) : Traced past a where
  pending he _ := by
    rw [h] at he
    cases he
  ready he _ := by
    rw [h] at he
    cases he

/-- Only the reply to a command that was queued since the key was last struck makes a key ready. -/
theorem granted (h : Traced past a) (ha : a.Lawful) {call : Call} {answer : Answer} {e : Entry}
    (ht : a.custody.Transition a.settings.replyTimeout call answer b.custody)
    (he : b.custody.keyring.get? key = some e) (hstatus : e.status = .ready)
    (hne : a.custody.keyring.get? key ≠ some e) :
    ∃ i c material, Issued past key i c ∧
      Moment.Grants ⟨a, .call call (.ok answer), b⟩ c material ∧ e.material = some material := by
  cases ht.origin ha.sound he (.inr hstatus) with
  | kept hbefore => exact absurd hbefore hne
  | issued hpending => exact absurd (hstatus.symm.trans hpending) nofun
  | @granted reply material c before _ hcall hresult hdecode hmaterial hc hbefore hwaits hlast =>
    obtain ⟨i, c', hissued, d, hd, hdc', hdseq⟩ := h.pending hbefore hwaits
    -- numbers are not used twice, so the command that is answered is the one that was traced
    obtain ⟨hmem, -⟩ := ha.sound.outbox.get?_eq_some_iff.mp hc
    obtain rfl := ha.sound.outbox.eq_of_sequence_eq hd hmem (by omega)
    subst hcall
    exact ⟨i, c', material, hissued, ⟨reply, answer, d, rfl, hresult, hdecode, hc, hdc'⟩,
      hmaterial⟩

/-- A transition that is committed keeps the invariant: an entry that waits goes on to wait or waits
for a command that was queued just now, and an entry that is ready was so or has just got its
material. -/
theorem saved (h : Traced past a) (ha : a.Lawful) {call : Call} {answer : Answer}
    (ht : a.custody.Transition a.settings.replyTimeout call answer b.custody) :
    Traced (past ++ [⟨a, .call call (.ok answer), b⟩]) b := by
  have hsound := ht.sound ha.sound
  have hcoherent := hsound.coherentUpTo
  have hunstruck : ∀ {key}, ¬ call.Strikes key →
      ¬ Moment.Strikes ⟨a, .call call (.ok answer), b⟩ key := by
    intro key hcall
    refine Moment.not_strikes (fun hclose => ?_) fun hstrikes => absurd hstrikes hcall
    subst hclose
    cases ht
  -- the command that an entry waits for was in the outbox before, or has a new number
  have hpersists : ∀ {key e}, b.custody.keyring.get? key = some e → e.status = .pending →
      ∃ c ∈ b.custody.outbox.commands, c.sequence = e.lastSequence ∧ c.key = key ∧
        c.kind.yieldsKey = true ∧ ((∃ d ∈ a.custody.outbox.commands, d.asQueued = c.asQueued) ∨
          a.custody.outbox.nextSequence ≤ c.sequence) := by
    intro key e he hstatus
    obtain ⟨c, hc, hseq, hkind, hkey⟩ := hcoherent.pending he hstatus
    rw [List.append_nil] at hc
    exact ⟨c, hc, hseq, hkey, hkind, ht.follows.origin c hc⟩
  refine ⟨fun {key e} he hstatus => ?_, fun {key e} he hstatus => ?_⟩
  · obtain ⟨c, hc, hseq, hkey, hkind, horigin⟩ := hpersists he hstatus
    cases ht.origin ha.sound he (.inl hstatus) with
    | kept hbefore hcall =>
      obtain ⟨i, c', hissued, d, hd, hdc', hdseq⟩ := h.pending hbefore hstatus
      -- the entry is older than any new number, so the command it waits for is the one from before
      have hlt := (ha.sound.keyring.get hbefore).lastSequence_lt
      rcases horigin with ⟨d', hd', hd'c⟩ | hnew
      · have hd'seq := (Command.fields_of_asQueued hd'c).1
        obtain rfl := ha.sound.outbox.eq_of_sequence_eq hd hd' (by omega)
        exact ⟨i, c', hissued.concat (hunstruck hcall), c, hc, hd'c.symm.trans hdc', hseq⟩
      · omega
    | issued _ hnew hcall =>
      have hissues : Moment.Issues ⟨a, .call call (.ok answer), b⟩ c := by
        refine ⟨hc, fun d hd heq => ?_⟩
        have hlt := ha.sound.outbox.sequence_lt d hd
        omega
      have hissued : Issued (past ++ [⟨a, .call call (.ok answer), b⟩]) key past.length c :=
        issued_last hissues hkey ((Custody.yieldsKey_iff _).mp hkind) (hunstruck hcall)
      exact ⟨past.length, c, hissued, c, hc, rfl, hseq⟩
    | granted hready => exact absurd (hstatus.symm.trans hready) nofun
  · cases ht.origin ha.sound he (.inr hstatus) with
    | kept hbefore hcall =>
      obtain ⟨material, hmaterial, hprovenance⟩ := h.ready hbefore hstatus
      exact ⟨material, hmaterial, hprovenance.concat (hunstruck hcall)⟩
    | issued hpending => exact absurd (hstatus.symm.trans hpending) nofun
    | granted _ hcall _ _ _ _ hbefore hwaits =>
      -- the entry waited before, so it is not the one that is ready now
      have hne : a.custody.keyring.get? key ≠ some e := fun hsame => by
        obtain rfl := Option.some.inj (hbefore.symm.trans hsame)
        exact absurd (hwaits.symm.trans hstatus) nofun
      obtain ⟨i, c, material, hissued, hgrants, hmaterial⟩ := h.granted ha ht he hstatus hne
      obtain ⟨mi, hi, -⟩ := hissued.issues
      subst hcall
      exact ⟨material, hmaterial, i, past.length, c, _, hissued.concat (hunstruck nofun),
        (List.getElem?_eq_some_iff.mp hi).1, List.getElem?_concat_length, hgrants⟩

end Traced

/-- One step keeps the invariant. -/
theorem Traced.step (h : Traced past a) (ha : a.Lawful) {event : Event}
    (hstep : a.Step event b) : Traced (past ++ [⟨a, event, b⟩]) b := by
  cases hstep with
  | obstruct => exact h.kept rfl rfl fun key ⟨_, _, hevent, _⟩ => by cases hevent
  | restart hstart =>
    obtain rfl := Except.ok.inj (hstart.symm.trans (start_eq_ok ha (check_of_start hstart)))
    exact h.kept rfl rfl fun key ⟨_, _, hevent, _⟩ => by cases hevent
  | call call =>
    have heffect := effect_serve a call
    generalize (a.serve call).1 = result at heffect ⊢
    generalize (a.serve call).2 = b at heffect ⊢
    cases heffect with
    | refused fault hcall =>
      exact h.kept rfl rfl fun _ => Moment.not_strikes hcall fun _ => ⟨fault, rfl⟩
    | found _ _ hcall =>
      refine h.kept rfl rfl fun _ => Moment.not_strikes ?_ fun hstrikes => ?_
      · rintro rfl
        cases hcall
      · cases hcall <;> cases hstrikes
    | saved _ ht => exact h.saved ha ht
    | unsaved _ ht =>
      refine h.kept rfl rfl fun _ => Moment.not_strikes ?_ fun _ => ⟨_, rfl⟩
      rintro rfl
      cases ht
    | unprovisioned =>
      exact h.kept rfl rfl fun _ => Moment.not_strikes nofun fun _ => ⟨_, rfl⟩
    | attested => exact h.kept rfl rfl fun _ => Moment.not_strikes nofun nofun
    | revoked => exact h.kept rfl rfl fun _ => Moment.not_strikes nofun nofun
    | unerased herase => cases (Prod.mk.inj herase).1
    | provisioned | closed | unclosed => exact .of_empty rfl

theorem Run.traced (h : Run past a) : Traced past a := by
  induction h with
  | start hstart =>
    obtain ⟨-, rfl⟩ := start_empty_eq_ok hstart
    exact .of_empty rfl
  | step hrun hstep ih => exact ih.step hrun.lawful hstep

/-! ### Lookups -/

/-- Material that a lookup returns has provenance in the moments before. -/
private theorem provenance_of_lookup {call : Call} (hrun : Run past a)
    (hstep : a.Step (.call call (.ok (.lookup (.ready material)))) b)
    (hcall : call.LooksUp key) : Provenance past key material := by
  -- the entry was ready before the lookup, so its material was traced
  obtain ⟨e, he, hstatus, hmaterial⟩ := hstep.effect.ready_of_lookup hcall
  obtain ⟨material', hsome, hprovenance⟩ := hrun.traced.ready he hstatus
  rw [hsome] at hmaterial
  exact hmaterial ▸ hprovenance

/-- A step that makes a key ready grants material to a command that was queued since the key was
last struck. -/
private theorem granted_of_step {event : Event} {e : Entry} (hrun : Run past a)
    (hstep : a.Step event b) (he : b.custody.keyring.get? key = some e)
    (hstatus : e.status = .ready) (hne : a.custody.keyring.get? key ≠ some e) :
    ∃ i c material, Issued past key i c ∧ Moment.Grants ⟨a, event, b⟩ c material ∧
      e.material = some material := by
  have ha := hrun.lawful
  cases hstep with
  | obstruct => exact absurd he hne
  | restart hstart =>
    obtain rfl := Except.ok.inj (hstart.symm.trans (start_eq_ok ha (check_of_start hstart)))
    exact absurd he hne
  | call call =>
    have heffect := effect_serve a call
    generalize (a.serve call).1 = result at heffect ⊢
    generalize (a.serve call).2 = b at heffect he ⊢
    cases heffect with
    | saved _ ht => exact hrun.traced.granted ha ht he hstatus hne
    | provisioned | closed | unclosed => cases he
    | unerased herase => cases (Prod.mk.inj herase).1
    | refused | found | unsaved | unprovisioned | attested | revoked => exact absurd he hne

/-- **Provenance of key material**: whenever a lookup of a key returns material in a run, an earlier
reply of success brought exactly this material, to a command that was queued for this key after the
key was last struck. And whenever a key becomes ready, this is because such a reply is accepted, so
that no reply to an earlier command makes it ready. -/
theorem material_provenance (h : Run past a) {n : Nat} (hn : past[n]? = some m) :
    (∀ call key material, call.LooksUp key →
      m.event = .call call (.ok (.lookup (.ready material))) →
        Provenance (past.take n) key material) ∧
    (∀ key e, m.after.custody.keyring.get? key = some e → e.status = .ready →
      m.before.custody.keyring.get? key ≠ some e →
        ∃ i c material, Issued (past.take n) key i c ∧ m.Grants c material ∧
          e.material = some material) := by
  obtain ⟨before, event, after⟩ := m
  obtain ⟨hrun, hstep⟩ := h.of_getElem? hn
  constructor
  · intro call key material hcall hevent
    obtain rfl : event = _ := hevent
    exact provenance_of_lookup hrun hstep hcall
  · intro key e he hstatus hne
    exact granted_of_step hrun hstep he hstatus hne

/-- The calls after which a key that was searched for is ready: the command is polled, answered, and
the key looked up again. -/
def fulfilment (key : KeyRef) (material : Bytes) : List Call :=
  introduction key ++
    [.poll 1 fun _ => .ok (), .submit (.success 1 material), .search key]

/-- The reply makes the key ready and the last lookup returns the material, both by virtue of the
search. -/
theorem provenance_of_fulfilment :
    let key : KeyRef := ⟨⟨List.replicate 16 7, rfl⟩, "k"⟩
    let past := opened.moments (fulfilment key [9])
    (∃ m, past[6]? = some m ∧ m.event = .call (.search key) (.ok (.lookup (.ready [9])))) ∧
      Provenance (past.take 6) key [9] ∧
    ∃ m e, past[5]? = some m ∧ m.after.custody.keyring.get? key = some e ∧ e.status = .ready ∧
      ∃ i c material, Issued (past.take 5) key i c ∧ m.Grants c material ∧
        e.material = some material := by
  intro key past
  let reached (n : Nat) : Agent MemoryStore := opened.serveAll ((fulfilment key [9]).take n)
  have hrun : Run past (opened.serveAll (fulfilment key [9])) :=
    run_opened.serveAll (fulfilment key [9]) (by decide +kernel)
  have hanswer : ((reached 6).serve (.search key)).1 = .ok (.lookup (.ready [9])) := by
    decide +kernel
  have hafter : (reached 6).custody.keyring.get? key = some ⟨key, some [9], .ready, 1⟩ := by
    decide +kernel
  have hbefore : (reached 5).custody.keyring.get? key ≠ some ⟨key, some [9], .ready, 1⟩ := by
    decide +kernel
  have hevent := congrArg (Event.call (.search key)) hanswer
  exact ⟨⟨_, rfl, hevent⟩, (material_provenance hrun rfl).1 _ _ _ .search hevent,
    _, _, rfl, hafter, rfl, (material_provenance hrun rfl).2 _ _ hafter rfl hbefore⟩

end Agent

end KeyCustody
