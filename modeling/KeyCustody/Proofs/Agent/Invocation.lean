import KeyCustody.Invocation.Dispatch
import KeyCustody.Proofs.Agent.Effect

/-!
# What an invocation does

An invocation is either refused before it touches the agent, or makes one call and has its result
(`Agent.Invocation`). Output that follows a call always has room: the room for the certificate is
checked before the anchor is set, and a batch is written before it is committed.
-/

namespace KeyCustody

namespace MemoryRef

/-- A reference that passes the check has as much room as it says. -/
theorem checked_eq_ok {m : MemoryRef} {max : Nat} {label : String} {octets : Bytes}
    (h : m.checked max label = .ok octets) :
    0 < m.size ∧ m.size ≤ max ∧ octets.length = m.size ∧ m.capacity = m.size := by
  rw [checked] at h
  rcases hbuffer : m.buffer with _ | buffer
  · simp [hbuffer] at h
  · simp only [hbuffer] at h
    split_ifs at h with hsize
    rw [← Except.ok.inj h, List.length_take, capacity, hbuffer]
    simp only
    omega

/-- Output that has room is written. -/
theorem write_of_le {m : MemoryRef} {data : Bytes} (h : data.length ≤ m.capacity) :
    (m.write data).1 = .ok () := by
  rw [write, if_neg (Nat.not_lt.mpr h)]

end MemoryRef

/-- A command is found under its number only. -/
theorem RelayCommand.ofId_eq_ok {id : Nat} {command : RelayCommand}
    (h : RelayCommand.ofId id = .ok command) : id = command.id := by
  rw [ofId] at h
  split at h
  · rename_i found hfound
    obtain rfl := Except.ok.inj h
    have hid := List.find?_some hfound
    exact (of_decide_eq_true hid).symm
  · cases h

namespace Agent

variable {σ : Type} [Store σ]

/-- What an invocation does to an agent: nothing, or what one call does. Only the command that ends
custody calls for that. -/
inductive Invocation (a : Agent σ) (id : Nat) : Except Fault Unit → Agent σ → Prop
  | refused (fault : Fault) : Invocation a id (.error fault) a
  | made (call : Call) (hcall : call = .close → id = RelayCommand.close.id) :
    Invocation a id ((a.serve call).1.map fun _ => ()) (a.serve call).2

variable {a : Agent σ}

/-- Setting the anchor answers with the certificate that was given. -/
private theorem provision_eq_ok {serviceKey certificate privateKey echoed : Bytes} {b : Agent σ}
    (h : a.provision serviceKey certificate privateKey = (.ok echoed, b)) :
    echoed = certificate := by
  have heffect := effect_serve a (.provision serviceKey certificate privateKey)
  rw [serve, wrap, h] at heffect
  generalize hanswer : Except.map Answer.certificate (.ok echoed, b).1 = answer at heffect
  cases heffect with
  | provisioned => exact Answer.certificate.inj (Except.ok.inj hanswer)
  | saved _ ht => cases ht
  | found _ _ hcall => cases hcall
  | refused | unsaved | unprovisioned => cases hanswer

/-- The certificate is written after the anchor was set, but the room for it was checked before. -/
private theorem invocation_provision (a : Agent σ) (id : Nat) (block : Block) :
    a.Invocation id (a.invokeProvision block).1 (a.invokeProvision block).2.2 := by
  unfold invokeProvision
  split
  · rename_i serviceKey certificate privateKey out
    dsimp only
    split
    · exact .refused _
    rename_i k c p hinputs
    split_ifs with hinit
    · exact .refused _
    split
    · exact .refused _
    rename_i room hroom
    split_ifs with hshort
    · exact .refused _
    have hmade : a.Invocation id _ _ := .made (.provision k c p) nofun
    rcases hcall : a.provision k c p with ⟨fault | echoed, b⟩ <;>
      rw [serve, wrap, hcall] at hmade
    · exact hmade
    · -- the anchor is set by now, and the output must not fail any more
      obtain ⟨-, -, hlength, hcapacity⟩ := MemoryRef.checked_eq_ok hroom
      have hfits : echoed.length ≤ out.capacity := by
        rw [provision_eq_ok hcall]
        omega
      dsimp only
      rw [MemoryRef.write_of_le hfits]
      exact hmade
  · exact .refused _

private theorem invocation_register (a : Agent σ) (id : Nat) (block : Block) :
    a.Invocation id (a.invokeRegister block).1 (a.invokeRegister block).2.2 := by
  unfold invokeRegister
  split
  · split
    · exact .refused _
    split_ifs with hcount
    · exact .refused _
    split
    · exact .refused _
    rename_i measurements hmeasurements
    have hmade : a.Invocation id _ _ := .made (.register measurements) nofun
    rcases hcall : a.register measurements with ⟨fault | added, b⟩ <;>
      rw [serve, wrap, hcall] at hmade <;> exact hmade
  · exact .refused _

private theorem invocation_poll (a : Agent σ) (id : Nat) (block : Block) :
    a.Invocation id (a.invokePoll block).1 (a.invokePoll block).2.2 := by
  unfold invokePoll
  split
  · rename_i out _ _
    split
    · exact .refused _
    split
    · exact .refused _
    rename_i offered hoffer
    have hmade : a.Invocation id _ _ :=
      .made (.poll a.settings.maxBatch fun batch => (out.write batch).1) nofun
    dsimp only
    rcases hcall : a.poll a.settings.maxBatch (fun batch => (out.write batch).1) with
      ⟨fault | polled, b⟩ <;> rw [serve, wrap, hcall] at hmade <;> exact hmade
  · exact .refused _

private theorem invocation_reply (a : Agent σ) (id : Nat) (block : Block) :
    a.Invocation id (a.invokeReply block).1 (a.invokeReply block).2.2 := by
  unfold invokeReply
  split
  · dsimp only
    split
    · exact .refused _
    rename_i reply hreply
    have hmade : a.Invocation id _ _ := .made (.submit reply) nofun
    rcases hcall : a.submit reply with ⟨fault | receipt, b⟩ <;>
      rw [serve, wrap, hcall] at hmade <;> exact hmade
  · exact .refused _

private theorem invocation_close (a : Agent σ) (block : Block) :
    a.Invocation RelayCommand.close.id (a.invokeClose block).1 (a.invokeClose block).2.2 := by
  unfold invokeClose
  split
  · have hmade : a.Invocation RelayCommand.close.id _ _ := .made .close fun _ => rfl
    rcases hcall : a.close with ⟨fault | ⟨⟩, b⟩ <;> rw [serve, wrap, hcall] at hmade <;>
      exact hmade
  · exact .refused _

/-- **What an invocation does**: it is refused, or it makes one call and has its result. -/
theorem invocation_invoke (a : Agent σ) (id : Nat) (block : Block) :
    a.Invocation id (a.invoke id block).1 (a.invoke id block).2.2 := by
  unfold invoke
  split
  · exact .refused _
  · exact invocation_provision a id block
  · exact invocation_register a id block
  · exact invocation_poll a id block
  · exact invocation_reply a id block
  · rename_i hid
    rw [RelayCommand.ofId_eq_ok hid]
    exact invocation_close a block

end Agent

end KeyCustody
