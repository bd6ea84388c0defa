import Mathlib
import QCore.MachineIntProofs
import QCore.ByteMemoryProofs
import QCore.FallibleProofs
import QCore.WireProofs
import QCore.CratesProofs
import QCore.AddressProofs
import QCore.ContractProofs
import QCore.ClientProofs
import QCore.ConfirmationProofs
import QCore.SigningProofs
import QCore.RosterRunProofs

/-! # The fee of a deploy

    A call to the deploy address pays the network fee and a deploy fee over it.
    The core does not know the rate behind the deploy fee; it holds the fee to the
    band of the rates that price the network fee itself inside its own band.

    The client computes a fee from the rate its gateway reports, rounding down,
    and the signer checks it against the band, rounding the other way.
    `deploy_fee_admitted_iff` says the two agree.  The signer looks at the target
    in two of its three signing functions; `deploy_fee_carried_iff` says which. -/

namespace QCoreDeployFee

open QCoreMachineInt QCoreByteMemory QCoreFallible QCoreWire QCoreCrates QCoreAddress
  QCoreContract QCoreClient QCoreConfirmation QCoreSigning QCoreRosterRun

/-- A fee that carries a deploy fee inside the locked band, over the network fee. -/
def CarriesDeployFee (fee transferFee : U128) : Prop :=
  ∃ deployFee : ℕ, fee.val = transferFee.val + deployFee ∧ 1 ≤ deployFee
    ∧ 5000 * transferFee.val ≤ deployFee ∧ deployFee ≤ 10000 * (transferFee.val + 1)

/-! ## What a call is checked for -/

section

variable {ceiling meterLimit : U64} {argsLen : ℕ} {fee transferFee : U128}

/-- The meter limit is in range and the arguments are not too long. -/
def WithinLimits (ceiling meterLimit : U64) (argsLen : ℕ) : Prop :=
  1210 ≤ meterLimit.val ∧ meterLimit.val ≤ ceiling.val ∧ argsLen ≤ 131072

/-- A clamped band is the true one: a fee is a word, so where an end of the band
    is clamped the fee is on the same side of both. -/
theorem in_band_iff (hpaid : transferFee ≤ fee) (hmore : transferFee ≠ fee) :
    ¬ (saturatingSub fee transferFee < saturatingMul transferFee deployToTransferFloor
        ∨ saturatingMul (saturatingAdd transferFee 1) deployToTransferCeiling
          < saturatingSub fee transferFee) ↔ CarriesDeployFee fee transferFee := by
  have hfloor : deployToTransferFloor.val = 5000 := rfl
  have hceiling : deployToTransferCeiling.val = 10000 := rfl
  have hone : (1 : U128).val = 1 := rfl
  have hfee := fee.isLt
  rw [Fin.le_def] at hpaid
  rw [Ne, Fin.ext_iff] at hmore
  rw [Fin.lt_def, Fin.lt_def, saturatingMul_val, saturatingMul_val, saturatingAdd_val, hfloor,
    hceiling, hone]
  show ¬ (fee.val - transferFee.val < _ ∨ _ < fee.val - transferFee.val) ↔ _
  constructor
  · intro hband
    exact ⟨fee.val - transferFee.val, by omega, by omega, by omega, by omega⟩
  · rintro ⟨deployFee, hsum, hpos, hlow, hhigh⟩
    omega

/-- **A call that deploys** passes exactly when its fee carries a deploy fee. -/
theorem checkCallUnder_deploy_iff :
    checkCallUnder ceiling meterLimit argsLen fee transferFee true = .ok () ↔
      WithinLimits ceiling meterLimit argsLen ∧ CarriesDeployFee fee transferFee := by
  simp only [checkCallUnder, guard_iff, refuseIf_iff]
  simp only [vmCallFee, true_and, not_true, false_and, not_false_iff, and_true]
  rw [not_or, not_lt, not_lt, not_lt, not_lt, WithinLimits]
  constructor
  · rintro ⟨hmeter, hargs, hpaid, hmore, hband⟩
    exact ⟨⟨hmeter.1, hmeter.2, hargs⟩, (in_band_iff hpaid (Ne.symm hmore)).mp hband⟩
  · rintro ⟨⟨hlow, hhigh, hargs⟩, hcarries⟩
    obtain ⟨deployFee, hsum, hpos, hband⟩ := hcarries
    have hpaid : transferFee ≤ fee := Fin.le_def.mpr (by omega)
    have hmore : transferFee ≠ fee := fun heq => by rw [heq] at hsum; omega
    exact ⟨⟨hlow, hhigh⟩, hargs, hpaid, Ne.symm hmore,
      (in_band_iff hpaid hmore).mpr ⟨deployFee, hsum, hpos, hband⟩⟩

/-- Any other call passes exactly when it pays the network fee. -/
theorem checkCallUnder_flat_iff :
    checkCallUnder ceiling meterLimit argsLen fee transferFee false = .ok () ↔
      WithinLimits ceiling meterLimit argsLen ∧ fee = transferFee := by
  simp only [checkCallUnder, guard_iff, refuseIf_iff]
  simp only [vmCallFee, Bool.false_eq_true, false_and, not_false_iff, true_and]
  rw [not_or, not_lt, not_lt, not_lt, not_lt, not_lt, WithinLimits]
  constructor
  · rintro ⟨hmeter, hargs, hpaid, hflat⟩
    exact ⟨⟨hmeter.1, hmeter.2, hargs⟩, le_antisymm hflat hpaid⟩
  · rintro ⟨⟨hlow, hhigh, hargs⟩, rfl⟩
    exact ⟨⟨hlow, hhigh⟩, hargs, le_refl _, le_refl _⟩

end

/-! ## The fee a rate gives -/

section

variable {crates : TxCrates} {info : NodeInfo} {unit deployFee : U128} {target : String}
  {meterLimit : U64} {argsLen : ℕ} {fee transferFee : U128}

/-- A call to the deploy address is checked under the limit of a deploy. -/
theorem checkCallTo_deploy
    (h : sameAddress crates.toCrates target (vmDeployAddress crates) = true) :
    checkCallTo crates target meterLimit argsLen fee transferFee
      = checkCallUnder maxDeployMeterLimit meterLimit argsLen fee transferFee true := by
  rw [checkCallTo, h]
  rfl

/-- Where nothing is clamped, the fee is what the rate gives, rounded down, and the
    network fee is inside its own band at that rate. -/
theorem deployFeeOf_ok (hunit : info.quonPerQtov = some unit)
    (hbound : unit.val * 5001000 < 2 ^ 128) (h : deployFeeOf info = .ok deployFee) :
    ∃ rate : ℕ, 0 < rate ∧ deployFee.val = 5000000 * unit.val / rate
      ∧ 500 * unit.val / rate ≤ info.transferFee.val
      ∧ info.transferFee.val ≤ 1000 * unit.val / rate := by
  rw [deployFeeOf, hunit] at h
  split at h
  · next asked rate unit' _ hrate hsame =>
      cases hsame
      obtain ⟨hasked, h⟩ := guard_ok h
      obtain ⟨hband, h⟩ := guard_ok h
      cases h
      push Not at hasked hband
      -- each product is below the largest word, so a quotient of words is one of numbers
      have hexact : ∀ c : U128, c.val ≤ 5000000 → ((saturatingMul c unit) / rate).val
          = c.val * unit.val / rate.val := by
        intro c hc
        have hle : c.val * unit.val ≤ 5000000 * unit.val := Nat.mul_le_mul_right _ hc
        rw [Fin.div_val, saturatingMul_val, Nat.min_eq_left (by omega)]
      refine ⟨rate.val, Nat.pos_of_ne_zero (fun hzero => hasked.1 (Fin.ext hzero)), ?_, ?_, ?_⟩
      · rw [hasked.2.2]
        exact hexact deployFeeMicroUsd (by decide)
      · have := hexact feeBandFloorMicroUsd (by decide)
        exact this ▸ hband.1
      · have := hexact feeBandCeilingMicroUsd (by decide)
        exact this ▸ hband.2
  · cases h

/-- A deploy fee at a rate is inside the band of the rates that price the network
    fee where that rate does. -/
theorem floors_in_band {u r tf f : ℕ} (hr : 0 < r) (hf : f = 5000000 * u / r)
    (hlow : 500 * u / r ≤ tf) (hhigh : tf ≤ 1000 * u / r) :
    5000 * tf ≤ f ∧ f ≤ 10000 * (tf + 1) := by
  have hf' : f * r ≤ 5000000 * u := hf ▸ Nat.div_mul_le_self _ _
  have htf : tf * r ≤ 1000 * u :=
    (Nat.mul_le_mul_right r hhigh).trans (Nat.div_mul_le_self _ _)
  have hnext : 500 * u < (500 * u / r + 1) * r := by
    rw [mul_comm (500 * u / r + 1) r]
    exact Nat.lt_mul_div_succ _ hr
  constructor
  · rw [hf, Nat.le_div_iff_mul_le hr]
    calc 5000 * tf * r = 5000 * (tf * r) := by ring
      _ ≤ 5000 * (1000 * u) := Nat.mul_le_mul_left _ htf
      _ = 5000000 * u := by ring
  · refine Nat.le_of_lt (Nat.lt_of_mul_lt_mul_right (a := r) ?_)
    calc f * r ≤ 10000 * (500 * u) := by omega
      _ < 10000 * ((500 * u / r + 1) * r) := Nat.mul_lt_mul_of_pos_left hnext (by decide)
      _ ≤ 10000 * ((tf + 1) * r) :=
          Nat.mul_le_mul_left _ (Nat.mul_le_mul_right _ (Nat.succ_le_succ hlow))
      _ = 10000 * (tf + 1) * r := by ring

/-- **The fee a client computes is one its signer admits.**  At a rate that was
    taken from the gateway, the sum of the network fee and the deploy fee is
    exact, and a deploy of a meter limit and arguments that the chain admits
    passes with it exactly when the deploy fee is not zero. -/
theorem deploy_fee_admitted_iff (hunit : info.quonPerQtov = some unit)
    (hbound : unit.val * 5001000 < 2 ^ 128) (hfee : deployFeeOf info = .ok deployFee)
    (hmeter : 1210 ≤ meterLimit.val ∧ meterLimit.val ≤ 50000000) (hargs : argsLen ≤ 131072)
    (htarget : sameAddress crates.toCrates target (vmDeployAddress crates) = true) :
    (saturatingAdd info.transferFee deployFee).val = info.transferFee.val + deployFee.val
      ∧ (checkCallTo crates target meterLimit argsLen (saturatingAdd info.transferFee deployFee)
          info.transferFee = .ok () ↔ 1 ≤ deployFee.val) := by
  obtain ⟨rate, hpos, hasked, hlow, hhigh⟩ := deployFeeOf_ok hunit hbound hfee
  obtain ⟨hfloor, hceiling⟩ := floors_in_band hpos hasked hlow hhigh
  have hsum : (saturatingAdd info.transferFee deployFee).val
      = info.transferFee.val + deployFee.val := by
    have htransfer : info.transferFee.val ≤ 1000 * unit.val := hhigh.trans (Nat.div_le_self _ _)
    have hdeploy : deployFee.val ≤ 5000000 * unit.val := hasked ▸ Nat.div_le_self _ _
    rw [saturatingAdd_val]
    omega
  refine ⟨hsum, ?_⟩
  rw [checkCallTo_deploy htarget, checkCallUnder_deploy_iff]
  constructor
  · rintro ⟨-, deployFee', hsum', hone, -⟩
    omega
  · intro hone
    exact ⟨⟨hmeter.1, hmeter.2, hargs⟩, deployFee.val, hsum, hone, hfloor, hceiling⟩

end

/-- Crates with a deploy address and others, that sign anything. -/
def deployCrates : TxCrates :=
  { stillCrates with
    parseAddress := fun s => some (List.replicate 32 (if s = "Q1" then 2 else 1))
    accountAddress := fun _ _ => "Qa"
    trySignHedged := fun _ _ _ _ _ => some { id := "tx", bytes := [1] } }

/-- A node whose rate prices a deploy at five million Quon. -/
def ratedNode : NodeInfo :=
  { chainId := "c", genesisHash := "", headHeight := 1, denomination := "Quon"
    transferFee := 500, version := "t", protocol := 2, deployFee := some 5000000
    rateMicroUsdPerQtov := some 1000000, quonPerQtov := some 1000000 }

/-- At a rate the fee of a deploy is admitted. -/
theorem deploy_fee_admitted_iff_rated :
    checkCallTo deployCrates "Q1" 1210 0 5000500 500 = .ok () := by
  have hfee : deployFeeOf ratedNode = .ok 5000000 := by decide +kernel
  have hbound : (1000000 : U128).val * 5001000 < 2 ^ 128 := by decide
  have hmeter : 1210 ≤ (1210 : U64).val ∧ (1210 : U64).val ≤ 50000000 := by decide
  have htarget : sameAddress deployCrates.toCrates "Q1" (vmDeployAddress deployCrates) = true := rfl
  obtain ⟨-, hadmitted⟩ :=
    deploy_fee_admitted_iff rfl hbound hfee hmeter (Nat.zero_le 131072) htarget
  exact hadmitted.mpr (by decide)

/-! ## The three functions that sign a call -/

/-- Which function signs a call, and what it alone is given. -/
inductive CallPath
  | call
  | payable (value : U64)
  | asset (issuer : String) (amount : U64)

/-- Sign a call. -/
def CallPath.sign (crates : TxCrates) (seed : Bytes seedLen) (index : U64) (target : String)
    (args : List UInt8) (nonce meterLimit : U64) (fee : U128) (chainId validUntil : U64)
    (transferFee : U128) (head : U64) (genesis : Bytes 32)
    (randomness : Except String (Bytes 32)) : CallPath → Except String SignedTransfer
  | .call => signCall crates seed index target args nonce meterLimit fee chainId validUntil
      transferFee head genesis randomness
  | .payable value => signPayableCall crates seed index target args value nonce meterLimit fee
      chainId validUntil transferFee head genesis randomness
  | .asset issuer amount => signAssetCall crates seed index target args issuer amount nonce
      meterLimit fee chainId validUntil transferFee head genesis randomness

/-- A call carries no asset. -/
def CallPath.Native : CallPath → Prop
  | .asset _ _ => False
  | _ => True

section

variable {crates : TxCrates} {seed : Bytes seedLen} {index : U64} {genesis : Bytes 32}
  {target : String} {args : List UInt8} {nonce meterLimit : U64} {fee transferFee : U128}
  {chainId validUntil head : U64} {randomness : Except String (Bytes 32)} {signed : SignedTransfer}

/-- A call that carries no asset is checked against its target. -/
theorem signPayableCall_carries {value : U64}
    (htarget : sameAddress crates.toCrates target (vmDeployAddress crates) = true)
    (h : signPayableCall crates seed index target args value nonce meterLimit fee chainId
      validUntil transferFee head genesis randomness = .ok signed) :
    CarriesDeployFee fee transferFee := by
  obtain ⟨_, hcheck, -⟩ := bind_ok h
  rw [checkCallTo_deploy htarget] at hcheck
  exact (checkCallUnder_deploy_iff.mp hcheck).2

/-- A call that carries an asset pays the network fee alone, whatever its target. -/
theorem signAssetCall_flat {assetIssuer : String} {amount : U64}
    (h : signAssetCall crates seed index target args assetIssuer amount nonce meterLimit fee
      chainId validUntil transferFee head genesis randomness = .ok signed) : fee = transferFee := by
  obtain ⟨-, h⟩ := guard_ok h
  obtain ⟨-, h⟩ := guard_ok h
  obtain ⟨_, -, h⟩ := value_ok h
  obtain ⟨_, -, h⟩ := bind_ok h
  obtain ⟨_, hcheck, -⟩ := bind_ok h
  exact (checkCallUnder_flat_iff.mp hcheck).2

theorem not_carries_self : ¬ CarriesDeployFee fee fee := by
  rintro ⟨deployFee, hsum, hpos, -⟩
  omega

/-- **A deploy that is signed** carries a deploy fee exactly when it carries no
    asset: the function that signs a call with an asset does not look at the
    target. -/
theorem deploy_fee_carried_iff {path : CallPath}
    (htarget : sameAddress crates.toCrates target (vmDeployAddress crates) = true)
    (h : path.sign crates seed index target args nonce meterLimit fee chainId validUntil
      transferFee head genesis randomness = .ok signed) :
    ∃ body, Signs crates seed index genesis body signed ∧ body.target = target ∧ body.fee = fee
      ∧ (CarriesDeployFee fee transferFee ↔ path.Native) := by
  cases path with
  | call =>
      refine ⟨_, signPayableCall_ok h, rfl, rfl, ?_⟩
      exact iff_of_true (signPayableCall_carries htarget h) trivial
  | payable value =>
      refine ⟨_, signPayableCall_ok h, rfl, rfl, ?_⟩
      exact iff_of_true (signPayableCall_carries htarget h) trivial
  | asset issuer amount =>
      obtain ⟨payload, -, hsigns⟩ := signAssetCall_ok h
      refine ⟨_, hsigns, rfl, rfl, iff_of_false ?_ id⟩
      rw [signAssetCall_flat h]
      exact not_carries_self

end

/-- A deploy that carries an asset is signed for the network fee alone. -/
theorem asset_deploy_is_signed : ∃ signed, CallPath.sign deployCrates ⟨List.replicate 32 0, by decide⟩
    0 "Q1" [] 0 1210 500 9 300 500 0 ⟨List.replicate 32 0, by decide⟩
    (.ok ⟨List.replicate 32 0, by decide⟩) (.asset "Qa" 1) = .ok signed :=
  ⟨_, rfl⟩

/-- A call that carries an asset is held to the bounds of a call, to the deploy address too. -/
theorem deploy_fee_carried_iff_asset : ¬ CarriesDeployFee 500 500 := by
  obtain ⟨signed, hsigned⟩ := asset_deploy_is_signed
  obtain ⟨body, -, -, -, hcarries⟩ := deploy_fee_carried_iff rfl hsigned
  exact fun h => hcarries.mp h

/-- **Not every deploy that is signed carries a deploy fee.** -/
theorem asset_deploy_carries_no_fee : ¬ ∀ (path : CallPath) (signed : SignedTransfer),
    sameAddress deployCrates.toCrates "Q1" (vmDeployAddress deployCrates) = true →
    path.sign deployCrates ⟨List.replicate 32 0, by decide⟩ 0 "Q1" [] 0 1210 500 9 300 500 0
      ⟨List.replicate 32 0, by decide⟩ (.ok ⟨List.replicate 32 0, by decide⟩) = .ok signed →
    CarriesDeployFee 500 500 := by
  intro h
  obtain ⟨signed, hsigned⟩ := asset_deploy_is_signed
  exact not_carries_self (h (.asset "Qa" 1) signed rfl hsigned)

end QCoreDeployFee
