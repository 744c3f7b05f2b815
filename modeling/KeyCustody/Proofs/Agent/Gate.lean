import KeyCustody.Proofs.Agent.Run

/-!
# What calls do to the gate

Of the transitions only a registration and the end of an application touch the gate
(`Custody.Transition.gate_eq`). With the calls that go their own way there are five things that a
call can do to it, listed in `Occasion.Turns`: leave it alone, trust more measurements, add a
verdict, drop one, or forget everything. Which of them it does is told by what was called and how
that ended.
-/

namespace KeyCustody

namespace Gate

variable {g g' : Gate} {ta other : Uuid} {m : Measurement} {measurements : List Measurement}

@[simp]
theorem verdict?_empty (ta : Uuid) : empty.verdict? ta = none := rfl

theorem allows_register : (g.register measurements).allows m = true ↔
    m ∈ measurements ∨ g.allows m = true := by
  induction measurements generalizing g with
  | nil => simp [register]
  | cons first rest ih =>
    have hfirst : ({ g with allowed := g.allowed.insert first () } : Gate).allows m = true ↔
        m = first ∨ g.allows m = true := by
      simp only [allows, Table.contains, Table.get?_insert]
      split_ifs with hm <;> simp [hm]
    have hrest : g.register (first :: rest) =
        ({ g with allowed := g.allowed.insert first () } : Gate).register rest := rfl
    rw [hrest, ih, hfirst, List.mem_cons, or_left_comm, or_assoc]

theorem verdict?_revoke (g : Gate) (ta other : Uuid) :
    (g.revoke ta).verdict? other = if other = ta then none else g.verdict? other :=
  Table.get?_erase _ _ _

/-- A measurement is accepted if it is trusted and no other was accepted before. -/
theorem attest_eq_ok (h : g.attest ta m = .ok g') :
    g.allows m = true ∧ g'.allowed = g.allowed ∧ (∀ known, g.verdict? ta = some known → known = m) ∧
      ∀ other, g'.verdict? other = if other = ta then some m else g.verdict? other := by
  rw [attest] at h
  split_ifs at h with hallows
  have hallows : g.allows m = true := by simpa using hallows
  rcases hknown : g.verdict? ta with _ | known
  · simp only [hknown] at h
    obtain rfl := Except.ok.inj h
    exact ⟨hallows, rfl, by simp, fun other => Table.get?_insert _ _ _ _⟩
  · simp only [hknown] at h
    split_ifs at h with hsame
    obtain rfl := Except.ok.inj h
    refine ⟨hallows, rfl, fun known' hknown' => Option.some.inj hknown' ▸ hsame, fun other => ?_⟩
    split_ifs with hother
    · rw [hother, hknown, hsame]
    · rfl

/-- Whether only trusted measurements were accepted. -/
def Guarded (g : Gate) : Prop := ∀ ta m, g.verdict? ta = some m → g.allows m = true

theorem guarded_of_no_verdicts (h : ∀ ta, g.verdict? ta = none) : g.Guarded :=
  fun ta _ hm => nomatch (h ta).symm.trans hm

theorem Guarded.register (h : g.Guarded) (measurements : List Measurement) :
    (g.register measurements).Guarded :=
  fun ta m hm => allows_register.mpr (.inr (h ta m hm))

theorem Guarded.revoke (h : g.Guarded) (ta : Uuid) : (g.revoke ta).Guarded := by
  intro other m hm
  rw [verdict?_revoke] at hm
  split_ifs at hm
  exact h other m hm

theorem Guarded.attest (h : g.Guarded) (hg : g.attest ta m = .ok g') : g'.Guarded := by
  obtain ⟨hallows, hallowed, -, hverdict⟩ := attest_eq_ok hg
  intro other m' hm'
  rw [hverdict] at hm'
  rw [allows, hallowed]
  split_ifs at hm' with hother
  · exact Option.some.inj hm' ▸ hallows
  · exact h other m' hm'

end Gate

namespace Custody

variable {limit : Option Nat} {s t : Custody} {call : Call} {answer : Answer}

theorem gate_retire (s : Custody) (key : KeyRef) (sequence : Nat) :
    (s.retire key sequence).gate = s.gate := by
  rw [retire]
  split_ifs <;> rfl

theorem gate_collect (s : Custody) (key : KeyRef) : (s.collect key).gate = s.gate := by
  obtain ⟨h, -⟩ | ⟨h, -⟩ := s.collect_cases key <;> rw [h]

theorem gate_foldl_expire (s : Custody) (due : List Command) :
    (due.foldl expire s).gate = s.gate := by
  induction due generalizing s with
  | nil => rfl
  | cons c due ih =>
    rw [List.foldl_cons, ih, expire, gate_collect]
    rfl

theorem gate_destroyAll {ta : Uuid} {ids : List String} (h : s.destroyAll ta ids = .ok t) :
    t.gate = s.gate := by
  induction ids generalizing s with
  | nil => rw [Except.ok.inj h]
  | cons id rest ih =>
    obtain ⟨n, u, hu, h⟩ := destroyAll_cons_eq_ok h
    obtain ⟨-, -, rfl⟩ := destroy_eq_ok hu
    exact (ih h :)

/-- What is left of a gate when a call has committed its transition. -/
def gateAfter (g : Gate) : Call → Gate
  | .register measurements => g.register measurements
  | .exit ta => g.revoke ta
  | _ => g

/-- **Transitions keep the gate**, apart from registrations and the end of an application. -/
theorem Transition.gate_eq (h : s.Transition limit call answer t) :
    t.gate = gateAfter s.gate call := by
  cases h with
  | register => rfl
  | search _ _ _ h =>
    obtain ⟨e, -, -, -, rfl⟩ | ⟨-, -, rfl⟩ := search_eq_ok h
    · exact gate_retire _ _ _
    · rfl
  | generate _ _ _ _ h =>
    obtain ⟨-, -, rfl⟩ := request_eq_ok h
    rfl
  | delete _ _ h =>
    obtain ⟨-, -, rfl⟩ := strike_eq_ok h
    rfl
  | destroy _ _ h =>
    obtain ⟨-, -, rfl⟩ := destroy_eq_ok h
    rfl
  | exit _ h =>
    obtain ⟨u, hu, -, rfl⟩ := exit_eq_ok h
    exact congrArg (Gate.revoke · _) (gate_destroyAll hu)
  | poll h _ =>
    obtain ⟨draw, q, -, -, rfl⟩ := poll_eq_ok h
    exact gate_foldl_expire _ _
  | submit _ h =>
    obtain ⟨c, next, u, -, -, -, hsettled, -, rfl⟩ := answer_eq_ok h
    rw [gate_collect]
    cases hsettled <;> rfl

end Custody

/-! ### Occasions -/

/-- An event with the agent that it finds. -/
structure Occasion (σ : Type) where
  agent : Agent σ
  event : Event

namespace Occasion

variable {σ : Type}

/-- Whether a measurement is registered with success. -/
inductive Registers (m : Measurement) : Occasion σ → Prop
  | intro {a : Agent σ} {measurements : List Measurement} {answer : Answer}
      (hm : m ∈ measurements) : Registers m ⟨a, .call (.register measurements) (.ok answer)⟩

/-- Whether an anchor is set with success. -/
inductive Provisions : Occasion σ → Prop
  | intro {a : Agent σ} {serviceKey certificate privateKey : Bytes} {answer : Answer} :
    Provisions ⟨a, .call (.provision serviceKey certificate privateKey) (.ok answer)⟩

/-- Whether an application presents a measurement with success. -/
inductive Attests (ta : Uuid) (m : Measurement) : Occasion σ → Prop
  | intro {a : Agent σ} {answer : Answer} : Attests ta m ⟨a, .call (.attest ta m) (.ok answer)⟩

/-- Whether the verdict on an application is dropped: it is revoked, which never fails, the
application ends with success, custody is closed and at least the anchor is erased, or the custodian
starts anew. -/
inductive Drops [Store σ] (ta : Uuid) : Occasion σ → Prop
  | revoke {a : Agent σ} {answer : Answer} : Drops ta ⟨a, .call (.revoke ta) (.ok answer)⟩
  | exit {a : Agent σ} {answer : Answer} : Drops ta ⟨a, .call (.exit ta) (.ok answer)⟩
  | close {a : Agent σ} {result : Except Fault Answer}
      (herase : (Store.erase a.store Anchor.recordNames).1 = .ok ()) :
    Drops ta ⟨a, .call .close result⟩
  | restart {a : Agent σ} {settings : Settings} : Drops ta ⟨a, .restart settings⟩

variable [Store σ]

/-- Whether an occasion gives and drops no verdict and sets no anchor. -/
structure Passive (o : Occasion σ) : Prop where
  not_attests : ∀ ta m, ¬ o.Attests ta m
  not_drops : ∀ ta, ¬ o.Drops ta
  not_provisions : ¬ o.Provisions

/-- What an occasion can make of the gate that it finds. -/
inductive Turns : Occasion σ → Gate → Prop
  | kept {o : Occasion σ} (h : o.Passive) : Turns o o.agent.custody.gate
  | registered {a : Agent σ} {measurements : List Measurement} {answer : Answer} :
    Turns ⟨a, .call (.register measurements) (.ok answer)⟩ (a.custody.gate.register measurements)
  | attested {a : Agent σ} {ta : Uuid} {m : Measurement} {answer : Answer} {gate : Gate}
      (hgate : a.custody.gate.attest ta m = .ok gate) :
    Turns ⟨a, .call (.attest ta m) (.ok answer)⟩ gate
  | revoked {a : Agent σ} {call : Call} {ta : Uuid} {answer : Answer}
      (hcall : call = .revoke ta ∨ call = .exit ta) :
    Turns ⟨a, .call call (.ok answer)⟩ (a.custody.gate.revoke ta)
  | provisioned {a : Agent σ} {serviceKey certificate privateKey : Bytes} {answer : Answer}
      (hinit : a.isInitialized = false) :
    Turns ⟨a, .call (.provision serviceKey certificate privateKey) (.ok answer)⟩ .empty
  | closed {a : Agent σ} {result : Except Fault Answer}
      (herase : (Store.erase a.store Anchor.recordNames).1 = .ok ()) :
    Turns ⟨a, .call .close result⟩ .empty

theorem passive_of_error {a : Agent σ} {call : Call} (fault : Fault) (hcall : call ≠ .close) :
    Passive ⟨a, .call call (.error fault)⟩ where
  not_attests _ _ := nofun
  not_drops _ h := by
    cases h
    exact hcall rfl
  not_provisions := nofun

variable {o : Occasion σ} {gate : Gate} {ta : Uuid} {m : Measurement}

/-- Only a trusted measurement is presented with success. -/
theorem Turns.allows_of_attests (h : o.Turns gate) (hattests : o.Attests ta m) :
    o.agent.custody.gate.allows m = true := by
  cases hattests with
  | intro =>
    cases h with
    | kept h => exact absurd .intro (h.not_attests ta m)
    | attested hgate => exact (Gate.attest_eq_ok hgate).1
    | revoked hcall => cases hcall <;> contradiction

/-- A verdict is there if it has just been given, or was there and is not dropped, provided that
there are none without an anchor. -/
theorem Turns.verdict?_eq_some_iff (h : o.Turns gate) (hunset : o.agent.isInitialized = false →
    ∀ ta, o.agent.custody.gate.verdict? ta = none) :
    gate.verdict? ta = some m ↔
      o.Attests ta m ∨ (o.agent.custody.gate.verdict? ta = some m ∧ ¬ o.Drops ta) := by
  -- unless it is about this application an occasion leaves its verdict alone
  have hsame {gate : Gate} (hverdict : gate.verdict? ta = o.agent.custody.gate.verdict? ta)
      (hattests : ¬ o.Attests ta m) (hdrops : ¬ o.Drops ta) : gate.verdict? ta = some m ↔
        o.Attests ta m ∨ (o.agent.custody.gate.verdict? ta = some m ∧ ¬ o.Drops ta) := by
    simp [hverdict, hattests, hdrops]
  cases h with
  | kept h => exact hsame rfl (h.not_attests ta m) (h.not_drops ta)
  | registered => exact hsame rfl nofun nofun
  | @attested a other m' _ _ hgate =>
    obtain ⟨-, -, hknown, hverdict⟩ := Gate.attest_eq_ok hgate
    by_cases hta : ta = other
    · subst hta
      rw [hverdict, if_pos rfl]
      constructor
      · rintro ⟨⟩
        exact .inl .intro
      · rintro (hattests | ⟨hbefore, -⟩)
        · cases hattests
          rfl
        · rw [hknown m hbefore]
    · refine hsame ((hverdict ta).trans (if_neg hta)) (fun hattests => ?_) nofun
      cases hattests
      exact hta rfl
  | @revoked a call other answer hcall =>
    by_cases hta : ta = other
    · subst hta
      have hdrops : Drops ta ⟨a, .call call (.ok answer)⟩ := by
        obtain rfl | rfl := hcall
        · exact .revoke
        · exact .exit
      have hattests : ¬ Attests ta m ⟨a, .call call (.ok answer)⟩ := by
        obtain rfl | rfl := hcall <;> nofun
      simp [Gate.verdict?_revoke, hdrops, hattests]
    · refine hsame ((Gate.verdict?_revoke _ _ _).trans (if_neg hta)) ?_ ?_
      · obtain rfl | rfl := hcall <;> nofun
      · obtain rfl | rfl := hcall
        · rintro ⟨⟩
          exact hta rfl
        · rintro ⟨⟩
          exact hta rfl
  | provisioned hinit => exact hsame (hunset hinit ta).symm nofun nofun
  | @closed a result herase =>
    have hdrops : Drops ta ⟨a, .call .close result⟩ := .close herase
    have hattests : ¬ Attests ta m ⟨a, .call .close result⟩ := nofun
    simp [hdrops, hattests]

/-- A measurement is trusted afterwards only if it has just been registered, or was trusted and
nothing was forgotten. -/
theorem Turns.allows (h : o.Turns gate) (hm : gate.allows m = true) :
    o.Registers m ∨ (o.agent.custody.gate.allows m = true ∧ ¬ o.Provisions) := by
  cases h with
  | kept h => exact .inr ⟨hm, h.not_provisions⟩
  | registered =>
    obtain hnew | hm := Gate.allows_register.mp hm
    · exact .inl (.intro hnew)
    · exact .inr ⟨hm, nofun⟩
  | attested hgate =>
    obtain ⟨-, hallowed, -, -⟩ := Gate.attest_eq_ok hgate
    rw [Gate.allows, hallowed] at hm
    exact .inr ⟨hm, nofun⟩
  | revoked hcall => exact .inr ⟨hm, by obtain rfl | rfl := hcall <;> nofun⟩
  | provisioned | closed => cases hm

theorem Turns.guarded (h : o.Turns gate) (hgate : o.agent.custody.gate.Guarded) :
    gate.Guarded := by
  cases h with
  | kept => exact hgate
  | registered => exact hgate.register _
  | attested hattest => exact hgate.attest hattest
  | revoked => exact hgate.revoke _
  | provisioned | closed => exact Gate.guarded_of_no_verdicts Gate.verdict?_empty

end Occasion

namespace Agent

variable {σ : Type} [Store σ] {a b : Agent σ} {call : Call} {result : Except Fault Answer}

/-- **What a call does to the gate** is on the list. -/
theorem Effect.turns (h : a.Effect call result b) :
    Occasion.Turns ⟨a, .call call result⟩ b.custody.gate := by
  cases h with
  | refused fault hcall => exact .kept (Occasion.passive_of_error fault hcall)
  | found _ _ hcall _ => cases hcall <;> exact .kept ⟨nofun, nofun, nofun⟩
  | saved _ ht _ =>
    have hgate := ht.gate_eq
    cases ht with
    | register => exact hgate ▸ .registered
    | exit => exact hgate ▸ .revoked (.inr rfl)
    | search | generate | delete | destroy | poll | submit =>
      exact hgate ▸ .kept ⟨nofun, nofun, nofun⟩
  | @unsaved _ _ _ fault _ _ ht _ =>
    refine .kept (Occasion.passive_of_error _ fun hclose => ?_)
    rw [hclose] at ht
    cases ht
  | provisioned hinit => exact .provisioned hinit
  | unprovisioned => exact .kept (Occasion.passive_of_error _ nofun)
  | attested _ hgate => exact .attested hgate
  | revoked ta => exact .revoked (.inl rfl)
  | unerased herase =>
    refine .kept ⟨nofun, fun _ hdrops => ?_, nofun⟩
    cases hdrops with
    | close herase' => cases herase'.symm.trans (congrArg Prod.fst herase)
  | closed herase | unclosed herase => exact .closed (by rw [herase])

end Agent

end KeyCustody
