import Mathlib
import QCore.ByteMemoryProofs
import QCore.FallibleProofs
import QCore.WireProofs
import QCore.CratesProofs
import QCore.AddressProofs
import QCore.FinalitySafetyProofs
import QCore.RosterRunProofs
import QCore.EntryPointProofs

/-! # The keys of the nonce trackers

    A session tracks nonces under texts: a chain and an account, or a chain, a
    contract and the signer of its orders, with slashes between them.  The gateway
    reports the chain's name and it may hold slashes and anything that looks like an
    address, so a key is taken apart from its end.

    What stands behind the last slash is an account, which starts with a `Q`, or
    the signer in hexadecimal digits, of which none is a `Q`; so the two kinds of
    keys never meet (`slot_keys_equal_iff`). -/

namespace QCoreSlotKey

open QCoreByteMemory QCoreFallible QCoreWire QCoreCrates QCoreAddress QCoreFinalitySafety
  QCoreRosterRun QCoreEntryPoint

/-! ## The last separator -/

/-- Two rows with a separator are taken apart at the last one. -/
theorem append_separator_inj {α : Type*} {separator : α} {xs xs' ys ys' : List α}
    (h : xs ++ separator :: ys = xs' ++ separator :: ys') (hys : separator ∉ ys)
    (hys' : separator ∉ ys') : xs = xs' ∧ ys = ys' := by
  rcases List.append_eq_append_iff.mp h with ⟨mid, hxs, hrest⟩ | ⟨mid, hxs, hrest⟩
  · cases mid with
    | nil => exact ⟨by rw [hxs, List.append_nil], (List.cons.inj hrest).2⟩
    | cons b mid =>
        refine absurd ?_ hys
        rw [(List.cons.inj hrest).2]
        exact List.mem_append_right _ List.mem_cons_self
  · cases mid with
    | nil => exact ⟨by rw [hxs, List.append_nil], (List.cons.inj hrest).2.symm⟩
    | cons b mid =>
        refine absurd ?_ hys'
        rw [(List.cons.inj hrest).2]
        exact List.mem_append_right _ List.mem_cons_self

/-- So are two texts with slashes. -/
theorem slash_inj {a a' b b' : String} (h : a ++ "/" ++ b = a' ++ "/" ++ b')
    (hb : '/' ∉ b.toList) (hb' : '/' ∉ b'.toList) : a = a' ∧ b = b' := by
  have hslash : ∀ a b : String, (a ++ "/" ++ b).toList = a.toList ++ '/' :: b.toList := by
    intro a b
    rw [String.toList_append, String.toList_append, List.append_assoc]
    rfl
  have hlists := congrArg String.toList h
  rw [hslash, hslash] at hlists
  obtain ⟨ha, hb⟩ := append_separator_inj hlists hb hb'
  exact ⟨String.toList_inj.mp ha, String.toList_inj.mp hb⟩

/-! ## Signers -/

/-- A character that is no digit is not in hex. -/
theorem not_mem_hexDigits {c : Char} (hc : ∀ n, nibble (UInt8.ofNat c.toNat) ≠ .ok n)
    (bytes : List UInt8) : c ∉ hexDigits bytes := by
  intro hmem
  obtain ⟨b, -, hb⟩ := List.mem_flatMap.mp hmem
  simp only [List.mem_cons, List.not_mem_nil, or_false] at hb
  rcases hb with rfl | rfl
  · exact hc _ (hexChar_spec _ (nibbles_lt b).1).1
  · exact hc _ (hexChar_spec _ (nibbles_lt b).2).1

theorem slash_not_mem_toHex (bytes : List UInt8) : '/' ∉ (toHex bytes).toList := by
  rw [toHex, String.toList_ofList]
  exact not_mem_hexDigits (fun n h => by cases h) bytes

theorem q_not_mem_toHex (bytes : List UInt8) : 'Q' ∉ (toHex bytes).toList := by
  rw [toHex, String.toList_ofList]
  exact not_mem_hexDigits (fun n h => by cases h) bytes

/-! ## Keys -/

/-- How addresses are rendered: without a slash, with a `Q` first, and so that the
    parser reads the payload back. -/
structure RendersPlain (crates : TxCrates) : Prop where
  bare : ∀ payload address, crates.renderAddress payload = some address → '/' ∉ address.toList
  begins : ∀ payload address, crates.renderAddress payload = some address →
    address.toList.head? = some 'Q'
  parses : ∀ payload address, crates.renderAddress payload = some address →
    crates.parseAddress address = some payload.val

/-- What a nonce is tracked for. -/
inductive Tracked where
  | account (chain sender : String)
  | order (chain contract : String) (signer : Bytes 32)

/-- The key it is tracked under. -/
def Tracked.key (crates : TxCrates) : Tracked → Except String String
  | .account chain sender => .ok (accountSlotKey chain sender)
  | .order chain contract signer => orderSlotKey crates chain contract signer

/-- An account is a rendered address; a contract may be spelled in any way. -/
def Tracked.WellFormed (crates : TxCrates) : Tracked → Prop
  | .account _ sender => ∃ payload, crates.renderAddress payload = some sender
  | .order _ _ _ => True

/-- The same account of a chain, or the same signer of orders to one contract. -/
def Tracked.Same (crates : TxCrates) : Tracked → Tracked → Prop
  | .account chain sender, .account chain' sender' => chain = chain' ∧ sender = sender'
  | .order chain contract signer, .order chain' contract' signer' =>
      chain = chain' ∧ signer = signer' ∧ ∃ payload,
        addressPayload crates.toCrates contract = .ok payload
          ∧ addressPayload crates.toCrates contract' = .ok payload
  | _, _ => False

section

variable {crates : TxCrates} {chain chain' contract contract' sender k k' : String}
  {signer signer' : Bytes 32}

/-- **An order key** is made of the contract's payload, however it is spelled. -/
theorem orderSlotKey_ok (h : orderSlotKey crates chain contract signer = .ok k) :
    ∃ payload rendered, addressPayload crates.toCrates contract = .ok payload
      ∧ crates.renderAddress payload = some rendered
      ∧ k = chain ++ "/" ++ rendered ++ "/" ++ toHex signer.val := by
  obtain ⟨payload, hpayload, h⟩ := bind_ok h
  obtain ⟨rendered, hrendered, h⟩ := value_ok h
  exact ⟨payload, rendered, hpayload, hrendered, (Except.ok.inj h).symm⟩

/-- **An account key is no order key.** -/
theorem accountSlotKey_ne (hrender : RendersPlain crates) {payload : Bytes 32}
    (hsender : crates.renderAddress payload = some sender)
    (h : orderSlotKey crates chain' contract signer = .ok k) : accountSlotKey chain sender ≠ k := by
  obtain ⟨_, rendered, -, -, rfl⟩ := orderSlotKey_ok h
  intro heq
  obtain ⟨-, hlast⟩ := slash_inj heq (hrender.bare _ _ hsender) (slash_not_mem_toHex _)
  refine q_not_mem_toHex signer.val ?_
  rw [← hlast]
  exact List.mem_of_mem_head? (hrender.begins _ _ hsender)

/-- **Order keys** are one when the chain, the payload and the signer are. -/
theorem orderSlotKey_iff (hrender : RendersPlain crates)
    (h : orderSlotKey crates chain contract signer = .ok k)
    (h' : orderSlotKey crates chain' contract' signer' = .ok k') :
    k = k' ↔ chain = chain' ∧ signer = signer' ∧ ∃ payload,
      addressPayload crates.toCrates contract = .ok payload
        ∧ addressPayload crates.toCrates contract' = .ok payload := by
  obtain ⟨payload, rendered, hpayload, hrendered, rfl⟩ := orderSlotKey_ok h
  obtain ⟨payload', rendered', hpayload', hrendered', rfl⟩ := orderSlotKey_ok h'
  constructor
  · intro heq
    obtain ⟨hfront, hhex⟩ := slash_inj heq (slash_not_mem_toHex _) (slash_not_mem_toHex _)
    obtain ⟨hchain, haddress⟩ := slash_inj hfront (hrender.bare _ _ hrendered)
      (hrender.bare _ _ hrendered')
    -- one text, so one payload
    have hparse := hrender.parses _ _ hrendered
    rw [haddress, hrender.parses _ _ hrendered'] at hparse
    obtain rfl := Subtype.ext (Option.some.inj hparse)
    exact ⟨hchain, Subtype.ext (toHex_inj hhex), payload', hpayload, hpayload'⟩
  · rintro ⟨rfl, rfl, both, hboth, hboth'⟩
    obtain rfl := Except.ok.inj (hpayload.symm.trans hboth)
    obtain rfl := Except.ok.inj (hpayload'.symm.trans hboth')
    rw [Option.some.inj (hrendered.symm.trans hrendered')]

end

/-- **Keys are equal exactly when what they track is the same.** -/
theorem slot_keys_equal_iff {crates : TxCrates} (hrender : RendersPlain crates)
    {a b : Tracked} {k l : String} (ha : a.WellFormed crates) (hb : b.WellFormed crates)
    (hk : a.key crates = .ok k) (hl : b.key crates = .ok l) : k = l ↔ a.Same crates b := by
  cases a with
  | account chain sender =>
      obtain ⟨payload, hsender⟩ := ha
      cases hk
      cases b with
      | account chain' sender' =>
          obtain ⟨payload', hsender'⟩ := hb
          cases hl
          constructor
          · intro heq
            exact slash_inj heq (hrender.bare _ _ hsender) (hrender.bare _ _ hsender')
          · rintro ⟨rfl, rfl⟩
            rfl
      | order chain' contract signer =>
          exact iff_of_false (accountSlotKey_ne hrender hsender hl) id
  | order chain contract signer =>
      cases b with
      | account chain' sender =>
          obtain ⟨payload, hsender⟩ := hb
          cases hl
          exact iff_of_false (fun heq => accountSlotKey_ne hrender hsender hk heq.symm) id
      | order chain' contract' signer' => exact orderSlotKey_iff hrender hk hl

/-! Crates that render a payload in hex. -/

/-- The payload of a text that is rendered so, with its first letter in either case. -/
def parseHex (address : String) : Option (List UInt8) :=
  match address.toList with
  | 'Q' :: digits => (fromHex (String.ofList digits)).toOption
  | 'q' :: digits => (fromHex (String.ofList digits)).toOption
  | _ => none

/-- A payload as an address in hex. -/
def renderHex (payload : Bytes 32) : Option String := some ("Q" ++ toHex payload.val)

/-- Crates whose addresses are hex. -/
def hexCrates : TxCrates :=
  { stillCrates with
    parseAddress := parseHex
    renderAddress := renderHex
    renders := fun _ => rfl }

theorem parse_hexCrates (address : String) :
    hexCrates.toCrates.parseAddress address = parseHex address := by
  rw [hexCrates]

theorem toList_letter (letter : Char) (bytes : List UInt8) :
    (String.singleton letter ++ toHex bytes).toList = letter :: hexDigits bytes := by
  rw [String.toList_append, toHex, String.toList_ofList, String.toList_singleton]
  rfl

/-- An address in digits is parsed. -/
theorem parse_upper (bytes : List UInt8) : parseHex ("Q" ++ toHex bytes) = some bytes := by
  show parseHex (String.singleton 'Q' ++ toHex bytes) = some bytes
  rw [parseHex, toList_letter]
  show (fromHex (toHex bytes)).toOption = some bytes
  rw [fromHex_toHex]
  rfl

/-- It is parsed with a small letter in front too. -/
theorem parse_lower (bytes : List UInt8) : parseHex ("q" ++ toHex bytes) = some bytes := by
  show parseHex (String.singleton 'q' ++ toHex bytes) = some bytes
  rw [parseHex, toList_letter]
  show (fromHex (toHex bytes)).toOption = some bytes
  rw [fromHex_toHex]
  rfl

/-- An address in hexadecimal is rendered plainly. -/
theorem rendersPlain_hex : RendersPlain hexCrates := by
  have hrendered : ∀ payload address, hexCrates.renderAddress payload = some address →
      address = String.singleton 'Q' ++ toHex payload.val := by
    intro payload address h
    exact (Option.some.inj h).symm
  constructor
  · intro payload address h
    rw [hrendered payload address h, toList_letter, List.mem_cons, not_or]
    exact ⟨by decide, not_mem_hexDigits (fun n h => by cases h) _⟩
  · intro payload address h
    rw [hrendered payload address h, toList_letter]
    rfl
  · intro payload address h
    rw [hrendered payload address h, parse_hexCrates]
    exact parse_upper payload.val

/-- One contract in two spellings has one key, on a chain whose name has a slash. -/
theorem slot_keys_equal_iff_spellings :
    ∃ k l, orderSlotKey hexCrates "a/b" ("Q" ++ toHex (filled 7).val) (filled 1) = .ok k
      ∧ orderSlotKey hexCrates "a/b" ("q" ++ toHex (filled 7).val) (filled 1) = .ok l ∧ k = l := by
  have hupper : addressPayload hexCrates.toCrates ("Q" ++ toHex (filled 7).val) = .ok (filled 7) := by
    refine addressPayload_of_parse ?_
    rw [parse_hexCrates, parse_upper]
  have hlower : addressPayload hexCrates.toCrates ("q" ++ toHex (filled 7).val) = .ok (filled 7) := by
    refine addressPayload_of_parse ?_
    rw [parse_hexCrates, parse_lower]
  have hkey : ∀ contract, addressPayload hexCrates.toCrates contract = .ok (filled 7) →
      orderSlotKey hexCrates "a/b" contract (filled 1)
        = .ok ("a/b" ++ "/" ++ ("Q" ++ toHex (filled 7).val) ++ "/" ++ toHex (filled 1).val) := by
    intro contract hpayload
    exact bind_pass hpayload rfl
  have hsame : Tracked.Same hexCrates
      (.order "a/b" ("Q" ++ toHex (filled 7).val) (filled 1))
      (.order "a/b" ("q" ++ toHex (filled 7).val) (filled 1)) :=
    ⟨rfl, rfl, filled 7, hupper, hlower⟩
  have hwell : ∀ contract, Tracked.WellFormed hexCrates (.order "a/b" contract (filled 1)) :=
    fun _ => trivial
  exact ⟨_, _, hkey _ hupper, hkey _ hlower,
    (slot_keys_equal_iff rendersPlain_hex (hwell _) (hwell _) (hkey _ hupper)
      (hkey _ hlower)).mpr hsame⟩

end QCoreSlotKey
