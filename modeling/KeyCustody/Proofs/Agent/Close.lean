import KeyCustody.Proofs.Agent.Atomicity
import KeyCustody.Proofs.Agent.Run

/-!
# The end of custody that fails

`Agent.close` erases the anchor and forgets the state before it commits. If the commit fails, both
are lost although the call fails (`Agent.close_eq_error`), while the old snapshot stays. So a failed
close changes nothing exactly if there was no anchor to lose (`Agent.agrees_of_failed_close_iff`).
-/

namespace KeyCustody.Agent

variable {a b : Agent MemoryStore} {block : Block}

/-- A close that fails has erased the anchor and forgotten the state; the snapshot stays. -/
theorem close_eq_error {fault : Fault} (h : a.close = (.error fault, b)) :
    a.store.failNext = true ∧ b = { a with
      store := { a.store.erase Anchor.recordNames with failNext := false }
      anchor := none
      custody := a.blank } := by
  have heffect := effect_serve a .close
  rw [serve, wrap, h] at heffect
  generalize hresult : (Except.map (fun _ => Answer.done) (Except.error fault, b).1, b).1 = result
    at heffect
  cases heffect with
  | refused _ hcall => exact absurd rfl hcall
  | unerased herase => cases (Prod.mk.inj herase).1
  | unclosed herase hcommit =>
    obtain ⟨-, rfl⟩ := Prod.mk.inj herase
    obtain ⟨hfail, rfl⟩ := MemoryStore.commit_eq_error hcommit
    exact ⟨hfail, rfl⟩
  | closed => cases hresult
  | saved _ ht | unsaved _ ht => cases ht
  | found _ _ hcall => cases hcall

/-- A close fails exactly if the commit at its end does. -/
theorem close_fails_iff : (∃ fault, a.close.1 = .error fault) ↔ a.store.failNext = true := by
  constructor
  · rintro ⟨fault, h⟩
    exact (close_eq_error (Prod.ext h rfl)).1
  · intro hfail
    refine ⟨.storage (.access .injected), ?_⟩
    have hcommit : Store.commit (a.store.erase Anchor.recordNames)
        [(Custody.record, a.blank.encode)] =
          (.error (.access .injected),
            { a.store.erase Anchor.recordNames with failNext := false }) := if_pos hfail
    exact congrArg (fun outcome => outcome.1.mapError Fault.storage) hcommit

/-- A failed close changes nothing exactly if there is no anchor. -/
private theorem agrees_close_iff (ha : a.Lawful) (hfail : a.store.failNext = true) :
    a.Agrees a.close.2 ↔ a.isInitialized = false := by
  obtain ⟨fault, h⟩ := close_fails_iff.mpr hfail
  have hclose : a.close.2 = _ := (close_eq_error (Prod.ext h rfl)).2
  rw [hclose]
  constructor
  · intro hagrees
    have hanchor : a.anchor = none := hagrees.anchor
    rw [isInitialized, hanchor]
    rfl
  · intro hinit
    have hanchor : a.anchor = none := by simpa [isInitialized] using hinit
    -- without an anchor there is no record to erase and no state to forget
    have habsent : ∀ name ∈ Anchor.recordNames, a.store.get? name = none := fun name hname => by
      rw [ha.stored_anchor name hname, hanchor]
      rfl
    have herase := MemoryStore.erase_of_absent habsent
    rw [herase]
    exact ⟨rfl, hanchor, ha.eq_blank hinit, rfl, rfl⟩

theorem invoke_close_of_ne_empty (h : block ≠ Block.empty) :
    (a.invoke RelayCommand.close.id block).2.2 = a := by
  change (a.invokeClose block).2.2 = a
  unfold invokeClose
  split
  · exact absurd rfl h
  · rfl

/-- **A failed close loses the anchor**: for a reachable agent a close fails exactly if its commit
does, and it then leaves everything as it was exactly if there was no anchor. The same holds for the
command that ends custody, which is refused without effect if its block is not empty. -/
theorem agrees_of_failed_close_iff (h : a.Reachable) :
    ((∃ fault, a.close.1 = .error fault) ↔ a.store.failNext = true) ∧
    (a.store.failNext = true → (a.Agrees a.close.2 ↔ a.isInitialized = false)) ∧
    (∀ block fault, (a.invoke RelayCommand.close.id block).1 = .error fault →
      (a.Agrees (a.invoke RelayCommand.close.id block).2.2 ↔
        a.isInitialized = false ∨ block ≠ Block.empty)) := by
  refine ⟨close_fails_iff, agrees_close_iff h.lawful, fun block fault hinvoke => ?_⟩
  by_cases hblock : block = Block.empty
  · subst hblock
    have hfail := close_fails_iff.mp ⟨fault, hinvoke⟩
    have hclose : (a.invoke RelayCommand.close.id Block.empty).2.2 = a.close.2 := rfl
    rw [hclose, agrees_close_iff h.lawful hfail]
    simp
  · -- a block that is not empty is refused before the agent is touched
    rw [invoke_close_of_ne_empty hblock]
    exact iff_of_true (.refl a) (.inr hblock)

/-- An agent whose anchor was just set, before a commit that will fail. -/
def obstructed : Agent MemoryStore :=
  let a := opened.serveAll [.provision [1] [2] [3]]
  { a with store := a.store.failing }

/-- Closing it fails, and yet the anchor is gone. -/
theorem not_agrees_of_failed_close :
    obstructed.Reachable ∧ obstructed.close.1 = .error (.storage (.access .injected)) ∧
      ¬ obstructed.Agrees obstructed.close.2 := by
  have hrun := (run_opened.serveAll [.provision [1] [2] [3]] (by decide +kernel)).step .obstruct
  have hreachable : obstructed.Reachable := ⟨_, hrun⟩
  have hfail : obstructed.store.failNext = true := rfl
  obtain ⟨-, hagrees, -⟩ := agrees_of_failed_close_iff hreachable
  refine ⟨hreachable, by decide +kernel, fun h => ?_⟩
  have hinit := (hagrees hfail).mp h
  exact absurd hinit (by decide +kernel)

end KeyCustody.Agent
