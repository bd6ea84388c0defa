import Mathlib
import QCore.MachineIntProofs
import QCore.ByteMemoryProofs
import QCore.FallibleProofs
import QCore.JsonProofs
import QCore.SessionProofs
import QCore.CratesProofs

/-! # Addresses and lookalikes

    Two texts are one address when they parse to one payload.  A different
    address whose text begins and ends like a known one is a lookalike, and a
    session refuses to sign for it.

    A session knows the addresses of its book, which stay, and those it has seen,
    of which it keeps the latest. -/

namespace QCoreAddress

open QCoreMachineInt QCoreByteMemory QCoreFallible QCoreJson QCoreSession QCoreCrates

/-- The bytes of a payload. -/
def addressPayloadLen : Nat := 32

/-- How much lookalikes share at either end, at least. -/
def lookalikeEdge : Nat := 2

/-- How much they share at both ends together, at least. -/
def lookalikeSpan : Nat := 8

/-- How many addresses a session remembers. -/
def sessionRememberedAddresses : Nat := 1024

variable (crates : Crates)

/-- A string is an address. -/
def validAddress (address : String) : Bool :=
  (crates.parseAddress address).any (fun payload => payload.length = addressPayloadLen)

/-- The payload of an address. -/
def addressPayload (address : String) : Except String (Bytes 32) := do
  let payload ← okOr (crates.parseAddress address) "not a Q1 address"
  if h : payload.length = 32 then return ⟨payload, h⟩
  else throw "the address is not the canonical thirty two byte width"

/-- Two strings are one address. -/
def sameAddress (a b : String) : Bool :=
  match addressPayload crates a, addressPayload crates b with
  | .ok x, .ok y => x == y
  | _, _ => false

/-- The bytes of a text in upper case. -/
def upperBytes (s : String) : List UInt8 :=
  (asBytes s).map (fun b => if 0x61 ≤ b ∧ b ≤ 0x7a then b - 0x20 else b)

/-- The bytes after the first two, when a character starts there. -/
def afterPrefix (bytes : List UInt8) : Option (List UInt8) :=
  match bytes with
  | _ :: _ :: rest =>
      match rest with
      | [] => some []
      | b :: _ => if 0x80 ≤ b ∧ b < 0xc0 then none else some rest
  | _ => none

/-- How many bytes two strings begin with alike. -/
def commonPrefix : List UInt8 → List UInt8 → Nat
  | x :: xs, y :: ys => if x = y then commonPrefix xs ys + 1 else 0
  | _, _ => 0

/-- Two strings begin and end alike. -/
def sharesEdges (a b : String) : Bool :=
  match afterPrefix (upperBytes a), afterPrefix (upperBytes b) with
  | some a, some b =>
      let head := commonPrefix a b
      let tail := commonPrefix a.reverse b.reverse
      lookalikeEdge ≤ head ∧ lookalikeEdge ≤ tail ∧ lookalikeSpan ≤ head + tail
  | _, _ => false

/-- Whether a known address is a different one that begins and ends alike. -/
def looksLike (candidate other : String) : Bool :=
  match addressPayload crates candidate, addressPayload crates other with
  | .ok target, .ok payload => payload ≠ target && sharesEdges candidate other
  | _, _ => false

/-- The first known address that a candidate looks like. -/
def lookalikeOf (candidate : String) (known : List String) : Option String :=
  known.find? (looksLike crates candidate)

/-! ## What a session knows -/

/-- The addresses that a session knows. -/
def known (session : SigningSession) : List String := session.book ++ session.seen

/-- Remember an address, and forget the oldest where there are too many. -/
def rememberAddress (session : SigningSession) (address : String) : SigningSession :=
  if !validAddress crates address
      || (known session).any (fun other => sameAddress crates other address) then session
  else
    let seen :=
      if sessionRememberedAddresses ≤ session.seen.length then session.seen.tail
      else session.seen
    { session with seen := seen ++ [address] }

/-- A target may not look like an address that is known. -/
def checkTarget (session : SigningSession) (address : String) : Except String Unit :=
  let near := (known session).find? (fun other =>
    !sameAddress crates other address && validAddress crates other
      && validAddress crates address && sharesEdges address other)
  match near with
  | some near => .error s!"the address {address} shares its leading and trailing characters with {near}, which this client already knows, but is a different address, refusing to sign for a lookalike"
  | none => .ok ()

/-! ## What a check has shown -/

variable {crates}

/-- A payload is that of the parsed address. -/
theorem addressPayload_ok {address : String} {payload : Bytes 32}
    (h : addressPayload crates address = .ok payload) :
    crates.parseAddress address = some payload.val := by
  obtain ⟨bytes, hparse, h⟩ := value_ok h
  split at h
  · cases h; exact hparse
  · exact nomatch h

theorem addressPayload_of_parse {address : String} {payload : Bytes 32}
    (h : crates.parseAddress address = some payload.val) :
    addressPayload crates address = .ok payload := by
  rw [addressPayload, h, okOr_some, ok_bind, dif_pos payload.property]
  rfl

/-- An address is valid where its payload can be read. -/
theorem validAddress_iff {address : String} :
    validAddress crates address = true ↔ ∃ payload, addressPayload crates address = .ok payload := by
  constructor
  · intro h
    rw [validAddress] at h
    cases hparse : crates.parseAddress address with
    | none => rw [hparse] at h; exact absurd h Bool.false_ne_true
    | some bytes =>
        rw [hparse] at h
        exact ⟨⟨bytes, of_decide_eq_true h⟩, addressPayload_of_parse hparse⟩
  · rintro ⟨payload, hpayload⟩
    rw [validAddress, addressPayload_ok hpayload]
    exact decide_eq_true payload.property

/-- An address is valid where its payload is read without refusal. -/
theorem validAddress_eq (address : String) :
    validAddress crates address = (addressPayload crates address).isOk := by
  rw [Bool.eq_iff_iff, validAddress_iff]
  cases addressPayload crates address with
  | error e => exact iff_of_false (fun ⟨_, h⟩ => by cases h) Bool.false_ne_true
  | ok payload => exact iff_of_true ⟨payload, rfl⟩ rfl

/-- What a session looks for among the addresses it knows is a lookalike. -/
theorem looksLike_eq (address other : String) :
    (!sameAddress crates other address && validAddress crates other
      && validAddress crates address && sharesEdges address other)
      = looksLike crates address other := by
  rw [looksLike, sameAddress, validAddress_eq, validAddress_eq]
  cases addressPayload crates address with
  | error e => cases addressPayload crates other with
    | error e' => rfl
    | ok payload => rfl
  | ok target => cases addressPayload crates other with
    | error e' => rfl
    | ok payload =>
        show (!(payload == target) && true && true && sharesEdges address other)
          = (decide (payload ≠ target) && sharesEdges address other)
        rw [Bool.and_true, Bool.and_true, decide_not, beq_eq_decide]

/-- **The check of a target** refuses it when the exported check finds a lookalike. -/
theorem checkTarget_iff (session : SigningSession) (address : String) :
    (∃ e, checkTarget crates session address = .error e)
      ↔ (lookalikeOf crates address (known session)).isSome = true := by
  rw [checkTarget, lookalikeOf]
  simp only [looksLike_eq]
  cases (known session).find? (looksLike crates address) with
  | none => exact iff_of_false (fun ⟨_, h⟩ => by cases h) Bool.false_ne_true
  | some near => exact iff_of_true ⟨_, rfl⟩ rfl

/-- **A target that passes the check** is no lookalike of an address the session
    knows. -/
theorem checkTarget_ok {session : SigningSession} {address : String}
    (h : checkTarget crates session address = .ok ()) :
    lookalikeOf crates address (known session) = none := by
  rw [← Option.not_isSome_iff_eq_none, ← checkTarget_iff]
  rintro ⟨e, he⟩
  rw [he] at h
  cases h

end QCoreAddress
