import Mathlib
import QCore.MachineIntProofs
import QCore.ByteMemoryProofs
import QCore.FallibleProofs
import QCore.DecoderProofs
import QCore.CratesProofs
import QCore.AddressProofs
import QCore.CertificateProofs
import QCore.CertificateCanonicalProofs
import QCore.ConfirmationProofs
import QCore.SigningProofs
import QCore.RosterRunProofs
import QCore.DeployFeeProofs

/-! # What is signed and what is confirmed

    A transaction is signed as thirteen fields in a row, and its leaf in a block is
    the same bytes.  Whoever confirms it reads the fields again and asks whether
    the transaction is a call, since a call is charged even where it reverts.

    `signed_leaf_kind` says that the two agree: a call is confirmed as a call, and
    a transfer or a registration as a transfer unless it goes to the deploy
    address.  No other string that starts like a signed transaction, or that one
    starts like, can be taken for a leaf. -/

namespace QCoreTransactionLeaf

open QCoreMachineInt QCoreByteMemory QCoreFallible QCoreDecoder QCoreCrates QCoreAddress
  QCoreCertificate QCoreCertificateCanonical QCoreConfirmation QCoreSigning QCoreRosterRun QCoreDeployFee

/-! ## The wire -/

/-- A word of sixteen bytes, least significant first. -/
def leGetU128 (bytes : List UInt8) : Option (U128 × List UInt8) :=
  if 16 ≤ bytes.length then some (Fin.ofNat _ (ofLeBytes (bytes.take 16)), bytes.drop 16) else none

/-- A string after its length. -/
def lePutBytes (bytes : List UInt8) : List UInt8 := leBytes 8 bytes.length ++ bytes

/-- A chain that decodes with the byte encoding at hand. -/
def wireChain (chain : Chain) : Chain := { littleEndian chain with getU128 := leGetU128 }

/-- The carried asset as it is written: its issuer, or nothing. -/
def assetBytes (body : Body) : List UInt8 :=
  match body.inAsset with
  | some issuer => issuer.val
  | none => []

/-- A signed transaction: the payloads of its sender and its target, the other
    fields of its body, a scheme and a signature. -/
def wireBytes (sender target : Bytes 32) (body : Body) (scheme : UInt8) (signature : List UInt8) :
    List UInt8 :=
  lePutBytes sender.val ++ (leBytes 8 body.nonce.val ++ (leBytes 8 body.meterLimit.val
    ++ (leBytes 16 body.fee.val ++ (lePutBytes target.val ++ (lePutBytes body.args
    ++ (leBytes 8 body.value.val ++ (leBytes 8 body.chainId.val ++ (lePutBytes (assetBytes body)
    ++ (leBytes 8 body.validUntil.val ++ ([body.kind] ++ ([scheme]
    ++ lePutBytes signature)))))))))))

/-- **The wire layout of a signed transaction**, as the frozen vectors show it.
    The two kinds are told apart, and what is signed fits a machine. -/
structure WireLayout (crates : TxCrates) : Prop where
  kinds : crates.kindTransfer ≠ crates.kindCall
  layout : ∀ seed index body genesis rnd wrapper,
    crates.trySignHedged seed index body genesis rnd = some wrapper →
    ∃ sender target scheme signature,
      addressPayload crates.toCrates body.sender = .ok sender
        ∧ addressPayload crates.toCrates body.target = .ok target
        ∧ body.args.length < 18446744073709551616 ∧ signature.length < 18446744073709551616
        ∧ wrapper.bytes = wireBytes sender target body scheme signature

/-! ## Each field -/

section

variable {bytes rest : List UInt8}

/-- A wide number that was put low byte first is got back. -/
theorem leGetU128_put (v : U128) (rest : List UInt8) :
    leGetU128 (leBytes 16 v.val ++ rest) = some (v, rest) := by
  have hlen : (leBytes 16 v.val).length = 16 := length_leBytes 16 v.val
  rw [leGetU128, if_pos (by rw [List.length_append]; omega), List.take_left' hlen,
    List.drop_left' hlen, ofLeBytes_leBytes]
  congr 2
  refine Fin.ext ?_
  have := v.isLt
  show v.val % 256 ^ 16 % 340282366920938463463374607431768211456 = v.val
  omega

/-- A byte is got whatever follows it. -/
theorem plainGetU8_more {b : UInt8} (extra : List UInt8) (h : plainGetU8 bytes = some (b, rest)) :
    plainGetU8 (bytes ++ extra) = some (b, rest ++ extra) := by
  cases bytes with
  | nil => cases h
  | cons c bytes =>
      cases h
      rfl

theorem leGetU64_more {v : U64} (extra : List UInt8) (h : leGetU64 bytes = some (v, rest)) :
    leGetU64 (bytes ++ extra) = some (v, rest ++ extra) := by
  rw [leGetU64_taken h, List.append_assoc, leGetU64_put]

/-- A wide number is got back whatever follows it. -/
theorem leGetU128_more {v : U128} (extra : List UInt8) (h : leGetU128 bytes = some (v, rest)) :
    leGetU128 (bytes ++ extra) = some (v, rest ++ extra) := by
  rw [leGetU128] at h
  split at h
  · next hlong =>
      cases h
      rw [leGetU128, if_pos (by rw [List.length_append]; omega),
        List.take_append_of_le_length hlong, List.drop_append_of_le_length hlong]
  · cases h

theorem leGetBytes_more {bytes' : List UInt8} (extra : List UInt8)
    (h : leGetBytes bytes = some (bytes', rest)) :
    leGetBytes (bytes ++ extra) = some (bytes', rest ++ extra) := by
  obtain ⟨hfits, hbytes⟩ := leGetBytes_taken h
  rw [hbytes, List.append_assoc, leGetBytes_put hfits]

end

section

variable (chain : Chain)

theorem stable_u8 : Stable (field (wireChain chain).getU8 malformedTransaction)
    malformedTransaction :=
  Stable.field (fun _ _ _ extra h => plainGetU8_more extra h)

theorem stable_u64 : Stable (field (wireChain chain).getU64 malformedTransaction)
    malformedTransaction :=
  Stable.field (fun _ _ _ extra h => leGetU64_more extra h)

theorem stable_u128 : Stable (field (wireChain chain).getU128 malformedTransaction)
    malformedTransaction :=
  Stable.field (fun _ _ _ extra h => leGetU128_more extra h)

theorem stable_bytes : Stable (field (wireChain chain).getBytes malformedTransaction)
    malformedTransaction :=
  Stable.field (fun _ _ _ extra h => leGetBytes_more extra h)

/-- A transaction is read the same whatever follows it. -/
theorem stable_transaction : Stable (transactionDecoder (wireChain chain)) malformedTransaction := by
  refine (stable_bytes chain).bind (fun _ => (stable_u64 chain).bind (fun _ => ?_))
  refine (stable_u64 chain).bind (fun _ => (stable_u128 chain).bind (fun _ => ?_))
  refine (stable_bytes chain).bind (fun _ => (stable_bytes chain).bind (fun _ => ?_))
  refine (stable_u64 chain).bind (fun _ => (stable_u64 chain).bind (fun _ => ?_))
  refine (stable_bytes chain).bind (fun _ => (stable_u64 chain).bind (fun _ => ?_))
  refine (stable_u8 chain).bind (fun _ => (stable_u8 chain).bind (fun _ => ?_))
  exact (stable_bytes chain).bind (fun _ => Stable.pure _)

theorem reads_wireU8 (b : UInt8) :
    Reads (field (wireChain chain).getU8 malformedTransaction) [b] b :=
  Reads.field (fun _ => rfl)

theorem reads_wireU64 (v : U64) :
    Reads (field (wireChain chain).getU64 malformedTransaction) (leBytes 8 v.val) v :=
  Reads.field (leGetU64_put v)

theorem reads_wireU128 (v : U128) :
    Reads (field (wireChain chain).getU128 malformedTransaction) (leBytes 16 v.val) v :=
  Reads.field (leGetU128_put v)

theorem reads_wireBytes {bytes : List UInt8} (h : bytes.length < 18446744073709551616) :
    Reads (field (wireChain chain).getBytes malformedTransaction) (lePutBytes bytes) bytes :=
  Reads.field (leGetBytes_put h)

/-- The asset of a body is short. -/
theorem length_assetBytes (body : Body) : (assetBytes body).length < 18446744073709551616 := by
  rw [assetBytes]
  split
  · next issuer _ =>
      rw [issuer.property]
      decide
  · decide

/-- **The leaf of a transaction** is read field by field. -/
theorem reads_transaction {sender target : Bytes 32} {body : Body} {scheme : UInt8}
    {signature : List UInt8} (hargs : body.args.length < 18446744073709551616)
    (hsignature : signature.length < 18446744073709551616) :
    Reads (transactionDecoder (wireChain chain)) (wireBytes sender target body scheme signature)
      (target.val, (assetBytes body).length, body.kind) := by
  have hpayload : ∀ payload : Bytes 32, payload.val.length < 18446744073709551616 := by
    intro payload
    rw [payload.property]
    decide
  refine (reads_wireBytes chain (hpayload _)).bind ((reads_wireU64 chain _).bind ?_)
  refine (reads_wireU64 chain _).bind ((reads_wireU128 chain _).bind ?_)
  refine (reads_wireBytes chain (hpayload _)).bind ((reads_wireBytes chain hargs).bind ?_)
  refine (reads_wireU64 chain _).bind ((reads_wireU64 chain _).bind ?_)
  refine (reads_wireBytes chain (length_assetBytes body)).bind ((reads_wireU64 chain _).bind ?_)
  refine (reads_wireU8 chain _).bind ((reads_wireU8 chain _).bind ?_)
  exact (reads_wireBytes chain hsignature).bind_pure

end

/-! ## What a leaf is confirmed as -/

/-- A transfer is confirmed as a call when it goes to the deploy address. -/
def transferKind (crates : TxCrates) (recipient : String) : TxKind :=
  if sameAddress crates.toCrates recipient (vmDeployAddress crates) = true then .call else .transfer

/-- A leaf that cannot be cut short or made longer. -/
structure Whole (crates : TxCrates) (chain : Chain) (leaf : List UInt8) : Prop where
  shorter : ∀ bytes, bytes <+: leaf → bytes ≠ leaf →
    transactionKind crates chain bytes = .error malformedTransaction
  longer : ∀ bytes, leaf <+: bytes → bytes ≠ leaf →
    transactionKind crates chain bytes = .error malformedTransaction

section

variable {crates : TxCrates} {chain : Chain} {seed : Bytes seedLen} {index : U64}
  {genesis : Bytes 32} {body : Body} {signed : SignedTransfer}

/-- What is signed is read back, and nothing else with those bytes in front. -/
theorem signs_reads (chain : Chain) (hwire : WireLayout crates)
    (h : Signs crates seed index genesis body signed) :
    ∃ target, addressPayload crates.toCrates body.target = .ok target
      ∧ Reads (transactionDecoder (wireChain chain)) signed.txBytes
        (target.val, (assetBytes body).length, body.kind) := by
  obtain ⟨rnd, wrapper, hwrapper, hbytes⟩ := h.wrapped
  obtain ⟨sender, target, scheme, signature, -, htarget, hargs, hsignature, hlayout⟩ :=
    hwire.layout _ _ _ _ _ _ hwrapper
  refine ⟨target, htarget, ?_⟩
  rw [hbytes, hlayout]
  exact reads_transaction chain hargs hsignature

/-- An asset is carried when its issuer is written. -/
theorem assetBytes_ne (body : Body) : (assetBytes body).length ≠ 0 ↔ body.inAsset ≠ none := by
  rw [assetBytes]
  split
  · next issuer hissuer =>
      rw [issuer.property, hissuer]
      simp
  · next hnone => simp [hnone]

/-- **What is signed is confirmed by its kind**, its asset and its target. -/
theorem signs_kind (hwire : WireLayout crates) (h : Signs crates seed index genesis body signed) :
    transactionKind crates (wireChain chain) signed.txBytes
      = .ok (if body.kind = crates.kindCall
            ∨ sameAddress crates.toCrates body.target (vmDeployAddress crates) = true
            ∨ body.inAsset ≠ none then .call else .transfer) := by
  obtain ⟨target, htarget, hreads⟩ := signs_reads chain hwire h
  refine bind_pass (decodeAll_ok hreads) (congrArg Except.ok (if_congr ?_ rfl rfl))
  refine or_congr Iff.rfl (or_congr (Bool.eq_iff_iff.mp ?_) (assetBytes_ne body))
  -- both compare the payload of the call with the one of a deployment
  rw [sameAddress, htarget]
  cases addressPayload crates.toCrates (vmDeployAddress crates) with
  | error e => rfl
  | ok payload =>
      rw [Bool.eq_iff_iff]
      show (payload.val == target.val) = true ↔ (target == payload) = true
      rw [beq_iff_eq, beq_iff_eq, Subtype.ext_iff]
      exact eq_comm

/-- What is signed is one whole transaction. -/
theorem signs_whole (hwire : WireLayout crates) (h : Signs crates seed index genesis body signed) :
    Whole crates (wireChain chain) signed.txBytes := by
  obtain ⟨target, -, hreads⟩ := signs_reads chain hwire h
  constructor
  · rintro bytes ⟨extra, hextra⟩ hne
    rw [← hextra] at hreads hne
    have hnil : extra ≠ [] := fun hnil => hne (by rw [hnil, List.append_nil])
    rw [transactionKind, decodeAll_shorter (stable_transaction chain) hreads hnil]
    rfl
  · rintro bytes ⟨extra, rfl⟩ hne
    have hnil : extra ≠ [] := fun hnil => hne (by rw [hnil, List.append_nil])
    rw [transactionKind, decodeAll_longer hreads hnil]
    rfl

/-- A body of the kind of a call is confirmed as a call. -/
theorem signs_call (hwire : WireLayout crates) (h : Signs crates seed index genesis body signed)
    (hkind : body.kind = crates.kindCall) :
    transactionKind crates (wireChain chain) signed.txBytes = .ok .call := by
  rw [signs_kind hwire h, if_pos (Or.inl hkind)]

/-- A body of the kind of a transfer, with no asset, by its target alone. -/
theorem signs_transfer (hwire : WireLayout crates)
    (h : Signs crates seed index genesis body signed) (hkind : body.kind = crates.kindTransfer)
    (hasset : body.inAsset = none) :
    transactionKind crates (wireChain chain) signed.txBytes
      = .ok (transferKind crates body.target) := by
  rw [signs_kind hwire h, transferKind]
  refine congrArg Except.ok (if_congr ?_ rfl rfl)
  rw [hkind, hasset]
  constructor
  · rintro (hsame | hdeploy | hcarries)
    · exact absurd hsame hwire.kinds
    · exact hdeploy
    · exact absurd rfl hcarries
  · exact fun hdeploy => Or.inr (Or.inl hdeploy)

/-- **A transaction is confirmed as what was signed.**  Every leaf of a call that
    one of the three functions signed is one of a call; every leaf of a transfer
    or a registration is one of a transfer, unless it goes to the deploy address;
    and each is refused as malformed when it is cut short or made longer. -/
theorem signed_leaf_kind (hwire : WireLayout crates) (chain : Chain) (seed : Bytes seedLen)
    (index nonce : U64) (fee : U128) (chainId validUntil head : U64) (genesis : Bytes 32)
    (randomness : Except String (Bytes 32)) (signed : SignedTransfer) :
    (∀ (path : CallPath) target args meterLimit transferFee,
      path.sign crates seed index target args nonce meterLimit fee chainId validUntil transferFee
        head genesis randomness = .ok signed →
      transactionKind crates (wireChain chain) signed.txBytes = .ok .call
        ∧ Whole crates (wireChain chain) signed.txBytes)
    ∧ (∀ recipient amount,
      signTransfer crates seed index recipient amount nonce fee chainId validUntil head genesis
        randomness = .ok signed →
      transactionKind crates (wireChain chain) signed.txBytes = .ok (transferKind crates recipient)
        ∧ Whole crates (wireChain chain) signed.txBytes)
    ∧ (signRegister crates seed index nonce fee chainId validUntil head genesis randomness
        = .ok signed →
      transactionKind crates (wireChain chain) signed.txBytes
          = .ok (transferKind crates (keyRegisterAddress crates))
        ∧ Whole crates (wireChain chain) signed.txBytes) := by
  refine ⟨?_, ?_, ?_⟩
  · intro path target args meterLimit transferFee h
    have hsigns : ∃ body, Signs crates seed index genesis body signed
        ∧ body.kind = crates.kindCall := by
      cases path with
      | call => exact ⟨_, signPayableCall_ok h, rfl⟩
      | payable value => exact ⟨_, signPayableCall_ok h, rfl⟩
      | asset issuer amount =>
          obtain ⟨payload, -, hsigns⟩ := signAssetCall_ok h
          exact ⟨_, hsigns, rfl⟩
    obtain ⟨body, hsigns, hkind⟩ := hsigns
    exact ⟨signs_call hwire hsigns hkind, signs_whole hwire hsigns⟩
  · intro recipient amount h
    have hsigns := signTransfer_ok h
    exact ⟨signs_transfer hwire hsigns rfl rfl, signs_whole hwire hsigns⟩
  · intro h
    have hsigns := signNative_ok h
    exact ⟨signs_transfer hwire hsigns rfl rfl, signs_whole hwire hsigns⟩

end

/-- The payloads of three addresses. -/
def wirePayload (address : String) : Bytes 32 :=
  ⟨List.replicate 32 (if address = "Q1" then 2 else if address = "Qa" then 1 else 3),
    List.length_replicate⟩

/-- Crates that sign what fits a machine, with an empty signature. -/
def wireCrates : TxCrates :=
  { deployCrates with
    parseAddress := fun address => some (wirePayload address).val
    trySignHedged := fun _ _ body _ _ =>
      if body.args.length < 18446744073709551616 then
        some { id := "tx"
               bytes := wireBytes (wirePayload body.sender) (wirePayload body.target) body 0 [] }
      else none }

/-- The wire crates lay transactions out so. -/
theorem wireCrates_layout : WireLayout wireCrates where
  kinds := by decide
  layout seed index body genesis rnd wrapper h := by
    refine ⟨wirePayload body.sender, wirePayload body.target, 0, [], addressPayload_of_parse rfl,
      addressPayload_of_parse rfl, ?_⟩
    by_cases hargs : body.args.length < 18446744073709551616
    · have hwrapper := Option.some.inj ((if_pos hargs).symm.trans h)
      exact ⟨hargs, by decide, (congrArg Wrapper.bytes hwrapper).symm⟩
    · cases (if_neg hargs).symm.trans h

theorem wire_transfer_is_signed : ∃ signed, signTransfer wireCrates
    ⟨List.replicate 32 0, List.length_replicate⟩ 0 "Qb" 5 0 500 9 300 0
    ⟨List.replicate 32 0, List.length_replicate⟩
    (.ok ⟨List.replicate 32 0, List.length_replicate⟩) = .ok signed := ⟨_, rfl⟩

/-- A transfer of 5 to another account is confirmed as a transfer. -/
theorem signed_leaf_kind_transfer : ∃ signed : SignedTransfer,
    transactionKind wireCrates (wireChain sealedChain) signed.txBytes = .ok .transfer := by
  obtain ⟨signed, hsigned⟩ := wire_transfer_is_signed
  obtain ⟨-, htransfer, -⟩ :=
    signed_leaf_kind wireCrates_layout sealedChain _ _ _ _ _ _ _ _ _ signed
  exact ⟨signed, (htransfer "Qb" 5 hsigned).1⟩

end QCoreTransactionLeaf
