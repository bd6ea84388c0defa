import Mathlib
import QCore.MachineIntProofs
import QCore.ByteMemoryProofs
import QCore.FallibleProofs
import QCore.Utf8Proofs
import QCore.JsonProofs

/-! # The gateway wire

    What the client sends to a gateway and how it reads the answers: bytes as
    hex, fields of an answer by name, and the answers themselves.  Every reader
    refuses an answer with a field missing or of the wrong kind; none of them
    trusts what a field says. -/

namespace QCoreWire

open QCoreMachineInt QCoreByteMemory QCoreFallible QCoreUtf8 QCoreJson

/-! ## Text in bytes -/

theorem asBytes_append (a b : String) : asBytes (a ++ b) = asBytes a ++ asBytes b := by
  rw [asBytes, String.toList_append, List.flatMap_append, asBytes, asBytes]

/-- Bytes of a text are the text again. -/
theorem fromUtf8_asBytes (s : String) : fromUtf8 (asBytes s) = some s := by
  rw [fromUtf8, asBytes, ← encode, fromUTF8?_encode, String.ofList_toList]

theorem asBytes_inj {s s' : String} (h : asBytes s = asBytes s') : s = s' := by
  have := fromUtf8_asBytes s
  rw [h, fromUtf8_asBytes] at this
  exact (Option.some.inj this).symm

/-! ## Hex -/

/-- A white space character. -/
def isWhitespace (c : Char) : Bool :=
  let n := c.toNat
  (9 ≤ n && n ≤ 13) || n == 32 || n == 0x85 || n == 0xa0 || n == 0x1680
    || (0x2000 ≤ n && n ≤ 0x200a) || n == 0x2028 || n == 0x2029 || n == 0x202f || n == 0x205f
    || n == 0x3000

/-- A text without the white space around it. -/
def trim (chars : List Char) : List Char :=
  ((chars.dropWhile isWhitespace).reverse.dropWhile isWhitespace).reverse

/-- What a hex digit stands for. -/
def nibble (c : UInt8) : Except String UInt8 :=
  if 0x30 ≤ c ∧ c ≤ 0x39 then .ok (c - 0x30)
  else if 0x61 ≤ c ∧ c ≤ 0x66 then .ok (c - 0x61 + 10)
  else if 0x41 ≤ c ∧ c ≤ 0x46 then .ok (c - 0x41 + 10)
  else .error "the value has a non hex character"

/-- Hex digits as bytes, two by two. -/
def hexPairs : List UInt8 → Except String (List UInt8)
  | hi :: lo :: rest => do
      let hi ← nibble hi
      let lo ← nibble lo
      return (hi * 16 + lo) :: (← hexPairs rest)
  | _ => return []

/-- Hex as bytes, without the white space around it. -/
def fromHex (s : String) : Except String (List UInt8) := do
  let bytes := asBytes (String.ofList (trim s.toList))
  refuseIf (bytes.length % 2 ≠ 0) "hex has an odd length"
  hexPairs bytes

/-- The digit of a nibble. -/
def hexChar (n : UInt8) : Char :=
  if n < 10 then Char.ofNat (0x30 + n.toNat) else Char.ofNat (0x57 + n.toNat)

/-- The two digits of each byte. -/
def hexDigits (bytes : List UInt8) : List Char :=
  bytes.flatMap (fun b => [hexChar (b / 16), hexChar (b % 16)])

/-- Bytes as hex. -/
def toHex (bytes : List UInt8) : String := String.ofList (hexDigits bytes)

/-- A digit is read as its number, and is plain. -/
theorem hexChar_spec (n : UInt8) (h : n < 16) :
    nibble (UInt8.ofNat (hexChar n).toNat) = .ok n ∧ isWhitespace (hexChar n) = false
      ∧ (hexChar n).toNat < 128 := by
  have hn : n.toNat < 16 := h
  refine byte_below n hn ?_
  decide

/-- A text of characters below 128 has one byte for each. -/
theorem asBytes_ascii {chars : List Char} (h : ∀ c ∈ chars, c.toNat < 128) :
    asBytes (String.ofList chars) = chars.map (fun c => UInt8.ofNat c.toNat) := by
  rw [asBytes, String.toList_ofList]
  induction chars with
  | nil => rfl
  | cons c rest ih =>
      have hc : c.val.toNat ≤ 127 := Nat.le_of_lt_succ (h c List.mem_cons_self)
      rw [List.flatMap_cons, ih (fun d hd => h d (List.mem_cons_of_mem _ hd)), List.map_cons,
        String.utf8EncodeChar, if_pos hc]
      rfl

/-- Both halves of a byte are digits. -/
theorem nibbles_lt (b : UInt8) : b / 16 < 16 ∧ b % 16 < 16 := by
  refine ⟨?_, UInt8.mod_lt b (by decide)⟩
  have := b.toNat_lt
  rw [UInt8.lt_iff_toNat_lt, UInt8.toNat_div]
  show b.toNat / 16 < 16
  omega

/-- Digits are plain. -/
theorem mem_hexDigits {bytes : List UInt8} {c : Char} (h : c ∈ hexDigits bytes) :
    isWhitespace c = false ∧ c.toNat < 128 := by
  obtain ⟨b, -, hb⟩ := List.mem_flatMap.mp h
  simp only [List.mem_cons, List.not_mem_nil, or_false] at hb
  rcases hb with rfl | rfl
  · exact (hexChar_spec _ (nibbles_lt b).1).2
  · exact (hexChar_spec _ (nibbles_lt b).2).2

theorem dropWhile_whitespace {chars : List Char} (h : ∀ c ∈ chars, isWhitespace c = false) :
    chars.dropWhile isWhitespace = chars := by
  cases chars with
  | nil => rfl
  | cons c rest => rw [List.dropWhile_cons, h c List.mem_cons_self]; rfl

theorem trim_eq {chars : List Char} (h : ∀ c ∈ chars, isWhitespace c = false) :
    trim chars = chars := by
  rw [trim, dropWhile_whitespace h,
    dropWhile_whitespace (fun c hc => h c (List.mem_reverse.mp hc)), List.reverse_reverse]

/-- Bytes are read from their digits. -/
theorem hexPairs_digits (bytes : List UInt8) :
    hexPairs ((hexDigits bytes).map (fun c => UInt8.ofNat c.toNat)) = .ok bytes := by
  induction bytes with
  | nil => rfl
  | cons b rest ih =>
      have hhigh := (hexChar_spec _ (nibbles_lt b).1).1
      have hlow := (hexChar_spec _ (nibbles_lt b).2).1
      have hjoin : b / 16 * 16 + b % 16 = b := by
        rw [UInt8.mul_comm]
        exact UInt8.toNat_inj.mp (by
          rw [UInt8.toNat_add, UInt8.toNat_mul, UInt8.toNat_div, UInt8.toNat_mod]
          have := b.toNat_lt
          show (16 * (b.toNat / 16) % 256 + b.toNat % 16) % 256 = b.toNat
          omega)
      show (nibble _ >>= fun hi => nibble _ >>= fun lo =>
        hexPairs ((hexDigits rest).map _) >>= fun tail => pure ((hi * 16 + lo) :: tail)) = _
      rw [hhigh, ok_bind, hlow, ok_bind, ih, ok_bind, hjoin]
      rfl

/-- **Hex reads back** as the bytes it was written from. -/
theorem fromHex_toHex (bytes : List UInt8) : fromHex (toHex bytes) = .ok bytes := by
  have htrim : trim (toHex bytes).toList = hexDigits bytes := by
    rw [toHex, String.toList_ofList, trim_eq (fun c hc => (mem_hexDigits hc).1)]
  have hascii : ∀ c ∈ hexDigits bytes, c.toNat < 128 := fun c hc => (mem_hexDigits hc).2
  have hbytes := asBytes_ascii hascii
  have heven : (hexDigits bytes).length % 2 = 0 := by
    rw [hexDigits, List.length_flatMap]
    simp
  rw [fromHex, htrim, hbytes]
  refine guard_pass ?_ (hexPairs_digits bytes)
  rw [List.length_map]
  exact not_not.mpr heven

theorem toHex_inj {bytes bytes' : List UInt8} (h : toHex bytes = toHex bytes') :
    bytes = bytes' := by
  have hread := fromHex_toHex bytes
  rw [h, fromHex_toHex] at hread
  exact (Except.ok.inj hread).symm

/-- A digit of hex is written as it is. -/
theorem length_escapeChar_hex (n : UInt8) (h : n < 16) :
    (asBytes (escapeChar (hexChar n))).length = 1 := by
  have hn : n.toNat < 16 := h
  refine byte_below n hn ?_
  decide

/-- Bytes are written with two characters each, between quotes. -/
theorem length_writeString_toHex (bytes : List UInt8) :
    (asBytes (writeString (toHex bytes))).length = 2 * bytes.length + 2 := by
  have hdigits : (asBytes (escapeChars (hexDigits bytes))).length = 2 * bytes.length := by
    induction bytes with
    | nil => rfl
    | cons b rest ih =>
        have hsplit : escapeChars (hexDigits (b :: rest)) = escapeChar (hexChar (b / 16))
            ++ (escapeChar (hexChar (b % 16)) ++ escapeChars (hexDigits rest)) := rfl
        rw [hsplit, asBytes_append, asBytes_append, List.length_append, List.length_append, ih,
          length_escapeChar_hex _ (nibbles_lt b).1, length_escapeChar_hex _ (nibbles_lt b).2,
          List.length_cons]
        omega
  have hquote : (asBytes "\"").length = 1 := by decide
  rw [writeString, asBytes_append, asBytes_append, List.length_append,
    List.length_append, toHex, String.toList_ofList, hdigits, hquote]
  omega

/-! ## Text from a gateway -/

/-- A control character, or one that changes how the text around it shows. -/
def isHidden (c : Char) : Bool :=
  let n := c.toNat
  n ≤ 0x1f || (0x7f ≤ n && n ≤ 0x9f) || n == 0xad || (0x600 ≤ n && n ≤ 0x605) || n == 0x61c
    || n == 0x6dd || n == 0x70f || (0x890 ≤ n && n ≤ 0x891) || n == 0x8e2 || n == 0x180e
    || (0x200b ≤ n && n ≤ 0x200f) || (0x2028 ≤ n && n ≤ 0x202e) || (0x2060 ≤ n && n ≤ 0x2064)
    || (0x2066 ≤ n && n ≤ 0x206f) || n == 0xfeff || (0xfff9 ≤ n && n ≤ 0xfffb)
    || n == 0x110bd || n == 0x110cd || (0x13430 ≤ n && n ≤ 0x1343f)
    || (0x1bca0 ≤ n && n ≤ 0x1bca3) || (0x1d173 ≤ n && n ≤ 0x1d17a) || n == 0xe0001
    || (0xe0020 ≤ n && n ≤ 0xe007f)

/-- A text as a refusal repeats it: nothing hidden, and cut short. -/
def shown (text : String) : String :=
  let clean := text.toList.filter (fun c => !isHidden c)
  if 96 < clean.length then String.ofList (clean.take 96) ++ "..." else String.ofList clean

/-! ## Fields of an answer -/

/-- A field that has to be a string. -/
def fieldStr (v : Json) (key : String) : Except String String :=
  okOr ((v.get key).bind Json.asStr) s!"the response is missing a string {key}"

/-- A field that has to be a number. -/
def fieldU64 (v : Json) (key : String) : Except String U64 :=
  okOr ((v.get key).bind Json.asU64) s!"the response is missing a number {key}"

/-- A field that has to be a number in a string. -/
def fieldU128 (v : Json) (key : String) : Except String U128 := do
  let text ← fieldStr v key
  okOr (wholeNumber text) s!"the {key} field is not a number string"

/-- A field that has to be a byte. -/
def fieldU8 (v : Json) (key : String) : Except String UInt8 := do
  let n ← fieldU64 v key
  okOr (if n.val < 256 then some (UInt8.ofNat n.val) else none)
    s!"the {key} field is out of range for a byte"

/-- Such a field that may be missing. -/
def optionalU128 (v : Json) (key : String) : Except String (Option U128) :=
  match v.get key with
  | none => .ok none
  | some .null => .ok none
  | some _ => (fieldU128 v key).map some

/-- The bytes of a field of hex. -/
def hexField (v : Json) (key : String) (missing : String) : Except String (List UInt8) := do
  fromHex (← okOr ((v.get key).bind Json.asStr) missing)

/-- Exactly so many bytes. -/
def exactly (n : Nat) (bytes : List UInt8) (refusal : String) : Except String (Bytes n) :=
  if h : bytes.length = n then .ok ⟨bytes, h⟩ else .error refusal

/-- Bytes of the right length are taken as they are. -/
theorem exactly_ok {n : Nat} {bytes : List UInt8} {refusal : String} {b : Bytes n}
    (h : exactly n bytes refusal = .ok b) : b.val = bytes := by
  rw [exactly] at h
  split at h
  · cases h; rfl
  · exact nomatch h

/-! ## Answers -/

/-- What a gateway reports of its chain. -/
structure NodeInfo where
  chainId : String
  genesisHash : String
  headHeight : U64
  denomination : String
  transferFee : U128
  version : String
  protocol : U32
  deployFee : Option U128
  rateMicroUsdPerQtov : Option U128
  quonPerQtov : Option U128

/-- What it reports of an account. -/
structure Account where
  address : String
  nonce : U64
  balance : U128
  scheme : UInt8
  hasKey : Bool

/-- What it says to a transaction that it was handed. -/
inductive Submit
  | accepted (state txId : String)
  | rejected (reason : String) (expected got : Option U64)

/-- What it reports of a transaction. -/
inductive TxStatus
  | finalised (height : U64) (block : Option String)
  | included (height : U64) (block : Option String)
  | unverified (height : U64) (block : Option String)
  | pending
  | unknown

/-- The one protocol that a client speaks. -/
def gatewayProtocolVersion : U32 := 2

/-- A gateway has to speak it. -/
def gatewayProtocol (v : Json) : Except String U32 :=
  match (v.get "protocol").bind Json.asU64 with
  | some p =>
      if p.val = gatewayProtocolVersion.val then .ok gatewayProtocolVersion
      else .error s!"the gateway speaks protocol {p} but this client supports protocol {gatewayProtocolVersion}, refusing to use it"
  | none => .error "the gateway does not report its protocol version, refusing to use it"

/-- What a gateway reports of its chain, from its answer. -/
def parseNodeInfo (response : String) : Except String NodeInfo := do
  let v ← parse response
  let fee ← okOr (v.get "fee") "no fee in node info"
  let chainId ← fieldStr v "chain_id"
  let genesisHash ← fieldStr v "genesis_hash"
  let headHeight ← fieldU64 v "head_height"
  let denomination ← fieldStr v "denomination"
  let transferFee ← fieldU128 fee "transfer_quon"
  let version ← fieldStr v "version"
  let protocol ← gatewayProtocol v
  let deployFee ← optionalU128 fee "deploy_fee_quon"
  let rateMicroUsdPerQtov ← optionalU128 fee "rate_micro_usd_per_qtov"
  let quonPerQtov ← optionalU128 fee "quon_per_qtov"
  return { chainId, genesisHash, headHeight, denomination, transferFee, version, protocol,
           deployFee, rateMicroUsdPerQtov, quonPerQtov }

/-- What it reports of an account, from its answer. -/
def parseAccount (response : String) : Except String Account := do
  let v ← parse response
  let address ← fieldStr v "address"
  let nonce ← fieldU64 v "nonce"
  let balance ← fieldU128 v "balance"
  let scheme ← fieldU8 v "scheme"
  return { address, nonce, balance, scheme,
           hasKey := ((v.get "has_key").bind Json.asBool).getD false }

/-- What it says to a transaction, from its answer. -/
def parseSubmit (response : String) : Except String Submit := do
  let v ← parse response
  let verdict ← fieldStr v "verdict"
  if verdict = "accepted" then
    let state ← fieldStr v "state"
    let txId ← fieldStr v "tx_id"
    return .accepted state txId
  else if verdict = "rejected" then
    let reason ← fieldStr v "reason"
    return .rejected reason ((v.get "expected").bind Json.asU64) ((v.get "got").bind Json.asU64)
  else throw s!"unknown verdict {shown verdict}"

/-- The block a status names, if it names one. -/
def statusBlock (v : Json) : Except String (Option String) :=
  match v.get "block" with
  | none => .ok none
  | some .null => .ok none
  | some block => (okOr block.asStr "the block field is not a string").map some

/-- What it reports of a transaction, from its answer. -/
def parseTransaction (response : String) : Except String TxStatus := do
  let v ← parse response
  let status ← fieldStr v "status"
  if status = "finalised" then
    let height ← fieldU64 v "height"
    let block ← statusBlock v
    return .finalised height block
  else if status = "pending" then return .pending
  else if status = "unknown" then return .unknown
  else throw s!"unknown status {shown status}"

/-! ## Requests -/

/-- The text that hands a transaction over. -/
def submitBody (txBytes : List UInt8) : String :=
  (Json.object [("tx", .str (toHex txBytes))]).render

/-- The text that asks for an account. -/
def accountBody (address : String) : String := (Json.object [("address", .str address)]).render

/-- The text that asks for a transaction. -/
def transactionBody (txId : String) : String := (Json.object [("tx_id", .str txId)]).render

/-- The most bytes the answer to a method can need. -/
def responseCap (method : String) : Nat :=
  if method ∈ ["node_info", "get_account", "submit_transaction", "get_asset_balance",
      "get_asset_supply"] then 64 * 1024
  else if method = "get_transaction" then 256 * 1024
  else if method ∈ ["get_finality", "get_roster_proof", "get_account_proof",
      "get_transaction_proof", "get_event_proof", "get_events", "get_storage_at"] then
    4 * 1024 * 1024
  else 8 * 1024 * 1024

end QCoreWire
