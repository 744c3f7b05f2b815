import KeyCustody.Proofs.Agent.Invocation
import KeyCustody.Proofs.Store.Memory

/-!
# Calls that fail change nothing

Over the store in memory a call other than `close` that fails leaves the settings, the anchor, the
state, the records and the number of commits as they were (`Agent.Agrees`), for whatever reason it
fails, and so does an invocation. All that may change is that a commit which was made to fail has
failed, so that the next one will not.
-/

namespace KeyCustody.Agent

/-- Two agents are alike, except that the next commit of one of them may be made to fail. -/
structure Agrees (a b : Agent MemoryStore) : Prop where
  settings : a.settings = b.settings
  anchor : a.anchor = b.anchor
  custody : a.custody = b.custody
  records : a.store.records = b.store.records
  commits : a.store.commits = b.store.commits

variable {a b : Agent MemoryStore}

theorem Agrees.refl (a : Agent MemoryStore) : a.Agrees a := ⟨rfl, rfl, rfl, rfl, rfl⟩

/-- A commit that fails leaves the records as they were. -/
theorem agrees_of_commit_eq_error {writes : List (String × Bytes)} {fault : StoreFault}
    {store : MemoryStore} (h : Store.commit a.store writes = (.error fault, store)) :
    a.Agrees { a with store := store } := by
  obtain ⟨-, rfl⟩ := MemoryStore.commit_eq_error h
  exact ⟨rfl, rfl, rfl, rfl, rfl⟩

/-- An effect that ends with a fault is a refusal or a commit that failed. -/
theorem Effect.agrees {call : Call} {fault : Fault} (h : a.Effect call (.error fault) b)
    (hcall : call ≠ .close) : a.Agrees b := by
  cases h with
  | refused => exact .refl a
  | unsaved _ _ hcommit => exact agrees_of_commit_eq_error hcommit
  | unprovisioned _ _ hcommit => exact agrees_of_commit_eq_error hcommit
  | unerased | unclosed => exact absurd rfl hcall

/-- **Failed calls change nothing**: a call that fails, other than the one that ends custody, leaves
everything as it was, and so does an invocation that fails, whatever its block holds. -/
theorem agrees_of_error (a : Agent MemoryStore) :
    (∀ (call : Call) (fault : Fault) (b : Agent MemoryStore),
      call ≠ .close → a.serve call = (.error fault, b) → a.Agrees b) ∧
    (∀ (id : Nat) (block block' : Block) (fault : Fault) (b : Agent MemoryStore),
      id ≠ RelayCommand.close.id → a.invoke id block = (.error fault, block', b) →
        a.Agrees b) := by
  constructor
  · intro call fault b hcall h
    have heffect := effect_serve a call
    rw [h] at heffect
    exact heffect.agrees hcall
  · intro id block block' fault b hid h
    have hinvocation := invocation_invoke a id block
    rw [h] at hinvocation
    generalize hresult : (Except.error fault, block', b).1 = result at hinvocation
    cases hinvocation with
    | refused => exact .refl _
    | made call hmade =>
      -- the invocation has failed because the call has
      have heffect := effect_serve a call
      rcases hcall : (a.serve call).1 with fault' | answer <;> rw [hcall] at hresult heffect
      · exact heffect.agrees fun hclose => hid (hmade hclose)
      · cases hresult

/-- An agent with one verified application, whose next commit will fail. -/
def stalled (ta : Uuid) : Agent MemoryStore where
  settings := .standard
  store := MemoryStore.empty.failing
  anchor := some ⟨[1], [2], [3]⟩
  custody :=
    { Custody.fresh Settings.standard.maxQueueDepth with
      gate := ⟨Table.empty, Table.empty.insert ta (Measurement.ofImage [])⟩ }

/-- A deletion and a registration whose commits fail change nothing. -/
theorem agrees_of_injected_failure :
    let ta : Uuid := ⟨List.replicate 16 7, rfl⟩
    let block : Block := ⟨.memoryIn (.input (List.replicate 32 0)), .valueIn 1 0, .empty, .empty⟩
    let deletion := (stalled ta).serve (.delete ⟨ta, "k"⟩)
    let registration := (stalled ta).invoke RelayCommand.register.id block
    deletion.1 = .error (.storage (.access .injected)) ∧ (stalled ta).Agrees deletion.2 ∧
      registration.1 = .error (.storage (.access .injected)) ∧
        (stalled ta).Agrees registration.2.2 := by
  intro ta block deletion registration
  have hdeletion : deletion.1 = .error (.storage (.access .injected)) := by decide +kernel
  have hregistration : registration.1 = .error (.storage (.access .injected)) := by
    decide +kernel
  obtain ⟨hcalls, hinvocations⟩ := agrees_of_error (stalled ta)
  exact ⟨hdeletion, hcalls (.delete ⟨ta, "k"⟩) _ _ nofun (Prod.ext hdeletion rfl),
    hregistration, hinvocations RelayCommand.register.id block _ _ _ (by decide)
      (Prod.ext hregistration rfl)⟩

end KeyCustody.Agent
