import KeyCustody.Proofs.Agent.Chronicle
import KeyCustody.Proofs.Agent.Numbering

/-!
# Who is verified

In every run an application is verified exactly if it has presented a measurement that had been
registered since the anchor was last set, and its verdict was not dropped since. While it is not, no
call on its behalf gets at a key or changes anything (`Agent.verified_iff_vouched`).

That only registered measurements are trusted is half of the invariant (`Agent.Chronicle.grounded`).
The other half follows the verdicts: they are given when a trusted measurement is presented, and are
lost on four kinds of occasions (`Agent.Chronicle.verdict?_eq_some_iff`).
-/

namespace KeyCustody

/-- The calls that are only for a verified application. -/
inductive Call.NeedsVerdict (ta : Uuid) : Call → Prop
  | search (id : String) : NeedsVerdict ta (.search ⟨ta, id⟩)
  | generate (id : String) (attributes : Bytes) : NeedsVerdict ta (.generate ⟨ta, id⟩ attributes)
  | delete (id : String) : NeedsVerdict ta (.delete ⟨ta, id⟩)
  | destroy (id : String) : NeedsVerdict ta (.destroy ⟨ta, id⟩)
  | exit : NeedsVerdict ta (.exit ta)

namespace Agent

section AnyStore

variable {σ : Type} [Store σ] {past rest : List (Occasion σ)} {a b : Agent σ} {call : Call}
  {result : Except Fault Answer} {o : Occasion σ} {gate : Gate} {ta : Uuid} {m : Measurement}

/-- Whether an application has presented a measurement that had been registered, and its verdict was
not dropped since. -/
def Vouched (past : List (Occasion σ)) (ta : Uuid) (m : Measurement) : Prop :=
  Since (fun before o => o.Attests ta m ∧ Registered before m) (Occasion.Drops ta) past

theorem vouched_concat : Vouched (past ++ [o]) ta m ↔
    (o.Attests ta m ∧ Registered past m) ∨ (Vouched past ta m ∧ ¬ o.Drops ta) :=
  since_concat

/-- A call for an application that is not verified is refused, with no effect at all. -/
theorem serve_of_not_verified (h : a.custody.gate.isVerified ta = false)
    (hcall : call.NeedsVerdict ta) : ∃ fault, a.serve call = (.error fault, a) := by
  have hnot : ¬ a.custody.gate.isVerified ta = true := by simp [h]
  have heffect := effect_serve a call
  obtain ⟨⟨result, b⟩, hserve⟩ : ∃ outcome, a.serve call = outcome := ⟨_, rfl⟩
  rw [hserve] at heffect ⊢
  cases heffect with
  | refused fault => exact ⟨fault, rfl⟩
  | found _ hverified hlooks =>
    refine absurd ?_ hnot
    cases hcall <;> cases hlooks <;> exact hverified
  | saved _ ht | unsaved _ ht =>
    refine absurd ?_ hnot
    cases hcall <;> cases ht <;> assumption
  | provisioned | unprovisioned | attested | revoked | unerased | closed | unclosed => cases hcall

/-! ### Verdicts and what has happened -/

/-- Without an anchor there are no verdicts. -/
theorem Effect.no_verdicts (h : a.Effect call result b)
    (ha : a.isInitialized = false → ∀ ta, a.custody.gate.verdict? ta = none) :
    b.isInitialized = false → ∀ ta, b.custody.gate.verdict? ta = none := by
  intro hb
  cases h with
  | refused | found | unsaved | unprovisioned | unerased => exact ha hb
  | saved hinit | attested hinit => cases hinit.symm.trans hb
  | provisioned => cases hb
  | revoked ta =>
    intro other
    rw [Gate.verdict?_revoke, ha hb other, ite_self]
  | closed | unclosed => exact Gate.verdict?_empty

/-- One more occasion gives verdicts that are vouched for and drops those that are not any more. -/
theorem verdict?_eq_some_iff_concat (hturns : o.Turns gate)
    (hunset : o.agent.isInitialized = false → ∀ ta, o.agent.custody.gate.verdict? ta = none)
    (hallowed : ∀ m, o.agent.custody.gate.allows m = true → Registered past m)
    (ih : ∀ ta m, o.agent.custody.gate.verdict? ta = some m ↔ Vouched past ta m) (ta : Uuid)
    (m : Measurement) : gate.verdict? ta = some m ↔ Vouched (past ++ [o]) ta m := by
  have hattests : o.Attests ta m ↔ o.Attests ta m ∧ Registered past m :=
    (and_iff_left_of_imp fun h => hallowed m (hturns.allows_of_attests h)).symm
  calc gate.verdict? ta = some m
      ↔ o.Attests ta m ∨ (o.agent.custody.gate.verdict? ta = some m ∧ ¬ o.Drops ta) :=
        hturns.verdict?_eq_some_iff hunset
    _ ↔ (o.Attests ta m ∧ Registered past m) ∨ (Vouched past ta m ∧ ¬ o.Drops ta) := by
        rw [← hattests, ih]
    _ ↔ Vouched (past ++ [o]) ta m := vouched_concat.symm

namespace Chronicle

variable [ReliableStore σ]

theorem no_verdicts (h : Chronicle past a) :
    a.isInitialized = false → ∀ ta, a.custody.gate.verdict? ta = none := by
  induction h with
  | start hsound hempty hstart =>
    exact fun _ => (grounded_of_start_empty (fun _ => True) hsound hempty hstart).2
  | @call past a call _ _ ih => exact (effect_serve a call).no_verdicts ih
  | obstruct _ _ _ ih => exact ih
  | restart h hsound hsame hstart => exact fun _ => (h.grounded.restart hsound hsame hstart).2

theorem guarded (h : Chronicle past a) : a.custody.gate.Guarded := by
  induction h with
  | start hsound hempty hstart =>
    exact Gate.guarded_of_no_verdicts
      (grounded_of_start_empty (fun _ => True) hsound hempty hstart).2
  | @call past a call _ _ ih => exact (effect_serve a call).turns.guarded ih
  | obstruct _ _ _ ih => exact ih
  | restart h hsound hsame hstart =>
    exact Gate.guarded_of_no_verdicts (h.grounded.restart hsound hsame hstart).2

/-- **Verdicts are vouched for**: they are given when a registered measurement is presented, and
stay until they are dropped. -/
theorem verdict?_eq_some_iff (h : Chronicle past a) (ta : Uuid) (m : Measurement) :
    a.custody.gate.verdict? ta = some m ↔ Vouched past ta m := by
  induction h generalizing ta m with
  | start hsound hempty hstart =>
    rw [(grounded_of_start_empty (fun _ => True) hsound hempty hstart).2 ta]
    exact iff_of_false nofun not_since_nil
  | @call past a call h _ ih =>
    exact verdict?_eq_some_iff_concat (effect_serve a call).turns h.no_verdicts h.grounded.allowed
      ih ta m
  | @obstruct past a store h hsound hsame ih =>
    have hturns : Occasion.Turns ⟨a, .obstruct⟩ a.custody.gate := .kept ⟨nofun, nofun, nofun⟩
    exact verdict?_eq_some_iff_concat hturns h.no_verdicts h.grounded.allowed ih ta m
  | @restart past a b store settings h hsound hsame hstart =>
    have hdrops : Occasion.Drops ta ⟨a, .restart settings⟩ := .restart
    have hattests : ¬ Occasion.Attests ta m ⟨a, .restart settings⟩ := nofun
    rw [(h.grounded.restart hsound hsame hstart).2 ta]
    refine iff_of_false nofun fun hvouched => ?_
    obtain ⟨hlast, -⟩ | ⟨-, hkept⟩ := vouched_concat.mp hvouched
    · exact hattests hlast
    · exact hkept hdrops

end Chronicle

/-- **Who is verified**: in every run, over any store on which the custodian can rely, an
application is verified exactly if it has presented a measurement that had been registered since the
anchor was last set, and its verdict was not dropped since. The verdict is on that measurement,
which is trusted, and stays until it is dropped. While an application is not verified, calls that
need a verdict on it are refused and change nothing. -/
theorem verified_iff_vouched [ReliableStore σ] (h : Chronicle past a) (ta : Uuid) :
    (a.custody.gate.isVerified ta = true ↔ ∃ m, Vouched past ta m) ∧
    (∀ m, a.custody.gate.verdict? ta = some m ↔ Vouched past ta m) ∧
    (∀ m, Vouched past ta m → a.custody.gate.allows m = true ∧
      ∀ rest b, Chronicle (past ++ rest) b → (∀ o ∈ rest, ¬ o.Drops ta) →
        b.custody.gate.verdict? ta = some m) ∧
    ((¬ ∃ m, Vouched past ta m) → ∀ call, call.NeedsVerdict ta →
      ∃ fault, a.serve call = (.error fault, a)) := by
  have hverdict := h.verdict?_eq_some_iff ta
  have hverified : a.custody.gate.isVerified ta = true ↔ ∃ m, Vouched past ta m := by
    rw [Gate.isVerified, Option.isSome_iff_exists]
    exact exists_congr hverdict
  refine ⟨hverified, hverdict, fun m hm => ⟨h.guarded ta m ((hverdict m).mpr hm), ?_⟩, ?_⟩
  · intro rest b hrest hkept
    exact (hrest.verdict?_eq_some_iff ta m).mpr (hm.append hkept)
  · intro hnot call hcall
    refine serve_of_not_verified ?_ hcall
    simpa [hnot] using hverified

end AnyStore

/-- In the run with trouble the new start has lost the verdict on the owner of the key, so that a
deletion is refused. After the second introduction the owner is verified once more. -/
theorem verified_iff_vouched_trouble :
    (∃ past, Chronicle past cramped ∧ (¬ ∃ m, Vouched past sampleKey.owner m) ∧
      ∃ fault, cramped.serve (.delete sampleKey) = (.error fault, cramped)) ∧
    Chronicle (trouble.map Moment.occasion) (cramped.serveAll secondTerm) ∧
      Vouched (trouble.map Moment.occasion) sampleKey.owner sampleMeasurement ∧
        (cramped.serveAll secondTerm).custody.gate.allows sampleMeasurement = true := by
  have hsettings : cramped.settings.check = .ok () := rfl
  have hblocked := (run_opened.serveAll vainSearch (by decide +kernel)).step .obstruct
  have hdeletion := hblocked.serveAll [.delete sampleKey] (by decide +kernel)
  have hcramped := (hdeletion.restart hsettings).chronicle
  have htrouble := run_trouble.chronicle
  constructor
  · obtain ⟨hverified, -, -, hrefused⟩ := verified_iff_vouched hcramped sampleKey.owner
    have hnot : ¬ ∃ m, Vouched _ sampleKey.owner m := fun hvouched =>
      absurd (hverified.mpr hvouched) (by decide +kernel)
    exact ⟨_, hcramped, hnot, hrefused hnot _ (.delete "k")⟩
  · obtain ⟨-, hverdict, hallows, -⟩ := verified_iff_vouched htrouble sampleKey.owner
    have hvouched := (hverdict sampleMeasurement).mp (by decide +kernel)
    exact ⟨htrouble, hvouched, (hallows _ hvouched).1⟩

end Agent

end KeyCustody
