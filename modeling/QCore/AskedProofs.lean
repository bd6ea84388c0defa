import Mathlib
import QCore.MachineIntProofs
import QCore.ByteMemoryProofs
import QCore.FallibleProofs
import QCore.TraceProofs
import QCore.TransitionProofs
import QCore.WireProofs
import QCore.CratesProofs
import QCore.FinalitySafetyProofs
import QCore.ClientProofs
import QCore.RosterRunProofs
import QCore.SigningProofs
import QCore.SubmissionProofs
import QCore.EntryRunProofs
import QCore.EntryStepProofs
import QCore.SharedSessionProofs
import QCore.AccountProofs
import QCore.ClientRunProofs

/-! # What is asked is what is signed

    A caller says whom to pay or call, with what, and how much the fee may be.  The
    rest of a transaction the client finds out from a gateway that may answer
    anything: the fee, the nonce, the chain and the head.  Nothing else of what is
    signed comes from there.

    Whatever a client was called for before and however its gateway answers, a call
    hands over one transaction at most.  One that signs hands over what it asks for
    (`Asks`), and one that is given a transaction hands that one over as it is. -/

namespace QCoreAsked

open QCoreMachineInt QCoreByteMemory QCoreFallible QCoreTrace QCoreTrace.Traced QCoreTransition
  QCoreWire QCoreCrates QCoreFinalitySafety QCoreClient QCoreClient.Client QCoreRosterRun
  QCoreSigning QCoreSubmission QCoreEntryRun QCoreEntryStep QCoreSharedSession QCoreAccount
  QCoreClientRun

section

variable {AccountLeaf : Type} {self : Client} {accounts : AccountCrates AccountLeaf}
  {s t : ClientState} {done : Done AccountLeaf}

/-- A call hands over one transaction at most. -/
theorem call_once (call : ClientCall) : Once Request.Submits (call.run self accounts) := by
  have hdone : ∀ {α β : Type} {m : ClientM α} {g : α → β}, Once Request.Submits m →
      Once Request.Submits (m >>= fun a => (pure (g a) : ClientM β)) :=
    fun h => once_before h (fun _ => silent_of_nil (fun _ => rfl))
  cases call with
  | sign entry => exact hdone (entry_once self entry)
  | submit txBytes => exact hdone submit_once
  | _ => exact once_of_silent (call_reads rfl).silent

/-- A request hands over what its call asks for. -/
def HandsAsked (self : Client) (call : ClientCall) (r : Request) : Prop :=
  ∃ txBytes, r.body = submitBody txBytes
    ∧ ((∃ entry, call = .sign entry ∧ Asked self entry txBytes) ∨ call = .submit txBytes)

/-- A transaction is one that the account of a signing call signed, or one that a call
    was given. -/
def HandsSigned (self : Client) (call : ClientCall) (txBytes : List UInt8) : Prop :=
  (∃ entry body genesis rnd wrapper, call = .sign entry
      ∧ body.sender = self.crates.accountAddress (accountOf entry).1 (accountOf entry).2
      ∧ self.crates.trySignHedged (accountOf entry).1 (accountOf entry).2 body genesis rnd
        = some wrapper
      ∧ txBytes = wrapper.bytes)
    ∨ call = .submit txBytes

/-- What is asked for is signed by the account that it is asked of. -/
theorem HandsAsked.signed {call : ClientCall} {r : Request} (h : HandsAsked self call r) :
    ∃ txBytes, r.body = submitBody txBytes ∧ HandsSigned self call txBytes := by
  obtain ⟨txBytes, hbody, hhands⟩ := h
  refine ⟨txBytes, hbody, ?_⟩
  rcases hhands with ⟨entry, hcall, genesis, _, ask, nonce, fee, chainId, validUntil, hasked⟩
    | hgiven
  · obtain ⟨rnd, wrapper, hsigned, hbytes⟩ := hasked.signed
    exact Or.inl ⟨entry, _, genesis, rnd, wrapper, hcall, rfl, hsigned, hbytes⟩
  · exact Or.inr hgiven

/-- What a signing call hands over, the account that it is asked of signed. -/
theorem HandsSigned.of_sign {entry : Entry} {txBytes : List UInt8}
    (h : HandsSigned self (.sign entry) txBytes) : ∃ body genesis rnd wrapper,
      self.crates.trySignHedged (accountOf entry).1 (accountOf entry).2 body genesis rnd
          = some wrapper
        ∧ txBytes = wrapper.bytes := by
  rcases h with ⟨signing, body, genesis, rnd, wrapper, hcall, -, hsigned, hbytes⟩ | hgiven
  · obtain rfl : entry = signing := ClientCall.sign.inj hcall
    exact ⟨body, genesis, rnd, wrapper, hsigned, hbytes⟩
  · exact nomatch hgiven

/-- A call of a client hands over at most once, and then what it was asked for. -/
theorem call_asked (hcall : Calls self accounts s done t) :
    done.requests.countP (fun r => decide r.Submits) ≤ 1
      ∧ ∀ r ∈ done.requests, r.Submits → HandsAsked self done.call r := by
  refine ⟨?_, fun r hr hsubmits => ?_⟩
  · have honce : (done.call.run self accounts s).events.countP (fun r => decide r.Submits) ≤ 1 :=
      call_once done.call s
    rwa [hcall] at honce
  · rcases call_hands hsubmits ((call_emits hcall).mpr hr) with ⟨entry, hsign, hemits⟩ | hgiven
    · obtain ⟨txBytes, hbody, hasked⟩ := entry_asked hsubmits hemits
      exact ⟨txBytes, hbody, Or.inl ⟨entry, hsign, hasked⟩⟩
    · obtain ⟨txBytes, hgiven, hbody⟩ := hgiven
      exact ⟨txBytes, hbody, Or.inr hgiven⟩

/-- **What is asked is what is signed.**  Over any run of calls of a client, whatever
    its gateway answers, a call hands over one transaction at most.  Where the call signs,
    that transaction is signed with the account of the call and says what the call asks
    for, for a fee within the call's, and with the nonces the caller names where it names
    them.  Where the call is given a transaction, it is that one.  No other call hands
    anything over. -/
theorem signed_as_asked {log : List (Done AccountLeaf)}
    (h : Run (Calls self accounts) s log t) : ∀ done ∈ log,
      done.requests.countP (fun r => decide r.Submits) ≤ 1
        ∧ ∀ r ∈ done.requests, r.Submits → ∃ txBytes, r.body = submitBody txBytes
          ∧ ((∃ entry, done.call = .sign entry
              ∧ ∃ genesis orderNonce ask nonce fee chainId validUntil,
                AsAsked self entry txBytes genesis orderNonce ask nonce fee chainId validUntil)
            ∨ done.call = .submit txBytes) := by
  intro done hmem
  obtain ⟨_, _, hcall⟩ := run_called h done hmem
  exact call_asked hcall

end

/-- The second of two transfers pays what was asked, to whom, at the nonce it named. -/
theorem signed_as_asked_at_local : ∃ (r : Request) (genesis : Bytes 32) (body : Body),
    r.Submits ∧ body.target = "Qb" ∧ body.args = steadyCrates.putU64 1 ∧ body.fee ≤ 7
      ∧ body.nonce = 3
      ∧ ∃ rnd wrapper, steadyCrates.trySignHedged (filled 0) 0 body genesis rnd = some wrapper
        ∧ r.body = submitBody wrapper.bytes := by
  obtain ⟨first, second, hfirst, hsecond, -, hcall, -, r, hmem, hr⟩ := steady_run
  obtain ⟨-, hasked⟩ :=
    signed_as_asked ((Run.single hfirst).cons hsecond) second List.mem_cons_self
  obtain ⟨txBytes, hbody, ⟨entry, hentry, genesis, _, ask, nonce, fee, chainId, validUntil, hasked⟩
    | hgiven⟩ := hasked r hmem hr
  · obtain rfl : againTransfer = entry := ClientCall.sign.inj (hcall.symm.trans hentry)
    obtain ⟨hasks, ⟨rnd, wrapper, hsigned, rfl⟩, hfee, hnonce, -⟩ := hasked
    cases hasks with
    | transfer =>
      exact ⟨r, genesis, _, hr, rfl, rfl, hfee, hnonce 3 rfl, rnd, wrapper, hsigned, hbody⟩
  · exact nomatch hcall.symm.trans hgiven

end QCoreAsked
