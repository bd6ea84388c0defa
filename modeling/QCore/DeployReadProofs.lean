import Mathlib
import QCore.MachineIntProofs
import QCore.ByteMemoryProofs
import QCore.FallibleProofs
import QCore.DecoderProofs
import QCore.DelimitedProofs
import QCore.FixedWidthProofs
import QCore.TraceProofs
import QCore.JsonProofs
import QCore.JsonRoundTripProofs
import QCore.WireProofs
import QCore.SessionProofs
import QCore.CratesProofs
import QCore.AddressProofs
import QCore.ClientProofs
import QCore.FinalitySafetyProofs
import QCore.TrustProofs
import QCore.RosterRunProofs
import QCore.HeadProofs
import QCore.ConfirmationProofs
import QCore.SigningProofs
import QCore.OrderProofs
import QCore.EntryPointProofs
import QCore.SubmissionProofs
import QCore.EntryRunProofs
import QCore.AccountProofs
import QCore.ClientRunProofs

/-! # What a deploy says

    A deploy carries a container and its parameters as one string of bytes: a tag, the
    container after its length, the parameters one after the other, and a mark behind
    them if there are any.  The container can be told from the bytes, and so can the
    bytes of the parameters; which parameters they are is known to who knows their
    shapes (`readDeployCall_iff`).  The length has four bytes, which is enough for
    what is signed. -/

namespace QCoreDeployRead

open QCoreMachineInt QCoreByteMemory QCoreFallible QCoreDecoder QCoreDelimited QCoreFixedWidth
  QCoreTrace QCoreTrace.Traced QCoreTransition QCoreJson QCoreJsonRoundTrip QCoreWire QCoreSession
  QCoreCrates QCoreAddress QCoreClient QCoreClient.Client QCoreTrust QCoreFinalitySafety
  QCoreRosterRun QCoreHead QCoreConfirmation QCoreSigning QCoreOrder QCoreEntryPoint QCoreSubmission
  QCoreAccount QCoreClientRun
open QCoreEntryRun (Entry)

/-! ## Reading one -/

/-- What a parameter is, and how many guardians it lists. -/
inductive Shape
  | address
  | u64
  | u128
  | guardians (count : Nat)

/-- The shape of a parameter. -/
def shapeOf : DeployParam → Shape
  | .address _ => .address
  | .u64 _ => .u64
  | .u128 _ => .u128
  | .guardians gs => .guardians gs.length

/-- The refusal of a deploy that breaks off. -/
def cutShort : String := "the deploy is cut short"

/-- Two words, the low one first. -/
def twoWords (low high : Fin (256 ^ 8)) : U128 :=
  ⟨low.val + high.val * 2 ^ 64, by
    have := low.isLt
    have := high.isLt
    omega⟩

/-- A parameter of a shape. -/
def readParam : Shape → Decode String DeployParam
  | .address => do
      let a ← readBytes 32 cutShort
      return .address a
  | .u64 => do
      let v ← readNumber 8 cutShort
      return .u64 v
  | .u128 => do
      let low ← readNumber 8 cutShort
      let high ← readNumber 8 cutShort
      return .u128 (twoWords low high)
  | .guardians count => do
      let gs ← times (readBytes 32 cutShort) count
      return .guardians gs.val

/-- The parameters of some shapes. -/
def readParams : List Shape → Decode String (List DeployParam)
  | [] => return []
  | shape :: shapes => do
      let param ← readParam shape
      let params ← readParams shapes
      return param :: params

/-- What stands behind the parameters. -/
def markOf : List Shape → List UInt8
  | [] => []
  | _ => genesisParamSentinel

/-- A container and the parameters of some shapes. -/
def readDeploy (shapes : List Shape) : Decode String (List UInt8 × List DeployParam) := do
  expect deployParamsTag cutShort "the call is not a deploy"
  let length ← readNumber 4 cutShort
  let container ← readBytes length.val cutShort
  let params ← readParams shapes
  expect (markOf shapes) cutShort "the parameters have no mark"
  return (container.val, params)

/-- A deploy is all of its arguments. -/
def readDeployCall (shapes : List Shape) :
    List UInt8 → Except String (List UInt8 × List DeployParam) :=
  decodeAll (readDeploy shapes) "bytes stand after the deploy"

/-- A parameter is read back. -/
theorem reads_param (param : DeployParam) :
    Reads (readParam (shapeOf param)) param.bytes param := by
  cases param with
  | address a => exact (reads_bytes a cutShort).bind_pure
  | u64 v => exact (@reads_number String 8 v cutShort).bind_pure
  | u128 v =>
      have hlow : v.val % 256 ^ 8 < 256 ^ 8 := Nat.mod_lt _ (by decide)
      have hhigh : v.val / 2 ^ 64 < 256 ^ 8 := by
        have := v.isLt
        omega
      have hread : Reads (readParam .u128)
          (beBytes 8 (v.val % 256 ^ 8) ++ beBytes 8 (v.val / 2 ^ 64))
          (.u128 (twoWords ⟨_, hlow⟩ ⟨_, hhigh⟩)) :=
        (reads_number ⟨_, hlow⟩ cutShort).bind (reads_number ⟨_, hhigh⟩ cutShort).bind_pure
      have hv : twoWords ⟨_, hlow⟩ ⟨_, hhigh⟩ = v := by
        refine Fin.ext ?_
        show v.val % 256 ^ 8 + v.val / 2 ^ 64 * 2 ^ 64 = v.val
        omega
      rw [hv, beBytes_mod] at hread
      exact hread
  | guardians gs =>
      exact (Reads.times rfl (fun g _ => reads_bytes g cutShort)).bind_pure

/-- It is read from its own bytes alone. -/
theorem takes_param (shape : Shape) :
    Takes (readParam shape) (fun param => shapeOf param = shape) DeployParam.bytes := by
  intro unread param rest h
  cases shape with
  | address =>
      obtain ⟨a, mid, -, hbytes, h⟩ := (takes_bytes 32 cutShort).bind_ok h
      cases h
      exact ⟨rfl, hbytes⟩
  | u64 =>
      obtain ⟨v, mid, -, hbytes, h⟩ := (takes_number 8 cutShort).bind_ok h
      cases h
      exact ⟨rfl, hbytes⟩
  | u128 =>
      obtain ⟨low, mid, -, hlow, h⟩ := (takes_number 8 cutShort).bind_ok h
      obtain ⟨high, mid', -, hhigh, h⟩ := (takes_number 8 cutShort).bind_ok h
      cases h
      have hlast : (low.val + high.val * 2 ^ 64) % 256 ^ 8 = low.val := by
        have := low.isLt
        omega
      have hfirst : (low.val + high.val * 2 ^ 64) / 2 ^ 64 = high.val := by
        have := low.isLt
        omega
      refine ⟨rfl, ?_⟩
      show unread = beBytes 8 (low.val + high.val * 2 ^ 64)
        ++ beBytes 8 ((low.val + high.val * 2 ^ 64) / 2 ^ 64) ++ rest
      rw [← beBytes_mod, hlast, hfirst, List.append_assoc, ← hhigh]
      exact hlow
  | guardians count =>
      obtain ⟨gs, mid, -, hbytes, h⟩ := ((takes_bytes 32 cutShort).times count).bind_ok h
      cases h
      exact ⟨congrArg Shape.guardians gs.property, hbytes⟩

/-- Parameters are read back. -/
theorem reads_params (params : List DeployParam) :
    Reads (readParams (params.map shapeOf)) (params.flatMap DeployParam.bytes) params := by
  induction params with
  | nil => exact Reads.pure
  | cons param params ih =>
      rw [List.flatMap_cons]
      exact (reads_param param).bind (ih.bind_pure (g := fun params => param :: params))

/-- The parameters of a deploy are read from their own bytes alone. -/
theorem takes_params (shapes : List Shape) :
    Takes (readParams shapes) (fun params => params.map shapeOf = shapes)
      (fun params => params.flatMap DeployParam.bytes) := by
  induction shapes with
  | nil =>
      intro unread params rest h
      cases h
      exact ⟨rfl, rfl⟩
  | cons shape shapes ih =>
      intro unread params rest h
      obtain ⟨param, mid, hshape, hbytes, h⟩ := (takes_param shape).bind_ok h
      obtain ⟨tail, mid', hshapes, hmid, h⟩ := ih.bind_ok h
      cases h
      refine ⟨?_, ?_⟩
      · show (param :: tail).map shapeOf = shape :: shapes
        rw [List.map_cons, hshape, hshapes]
      · show unread = (param :: tail).flatMap DeployParam.bytes ++ rest
        rw [hbytes, hmid, List.flatMap_cons, List.append_assoc]

/-- The arguments of a deploy, part by part. -/
theorem buildDeployCall_eq (container : List UInt8) (params : List DeployParam) :
    buildDeployCall container params = deployParamsTag ++ (beBytes 4 container.length
      ++ (container ++ (params.flatMap DeployParam.bytes ++ markOf (params.map shapeOf)))) := by
  rw [buildDeployCall]
  cases params with
  | nil => simp [markOf]
  | cons param params => simp [markOf]

/-- A deploy is read back. -/
theorem reads_deploy {container : List UInt8} (params : List DeployParam)
    (h : container.length < 256 ^ 4) :
    Reads (readDeploy (params.map shapeOf)) (buildDeployCall container params)
      (container, params) := by
  rw [buildDeployCall_eq]
  refine (reads_expect _ _ _).bind ((reads_number ⟨_, h⟩ cutShort).bind ?_)
  refine (reads_bytes ⟨container, rfl⟩ cutShort).bind ((reads_params params).bind ?_)
  exact (reads_expect _ _ _).bind_pure

/-- It is read from its own bytes alone. -/
theorem takes_deploy (shapes : List Shape) :
    Takes (readDeploy shapes)
      (fun deploy => deploy.1.length < 256 ^ 4 ∧ deploy.2.map shapeOf = shapes)
      (fun deploy => buildDeployCall deploy.1 deploy.2) := by
  intro unread deploy rest h
  obtain ⟨_, mid, -, htag, h⟩ := (takes_expect _ _ _).bind_ok h
  obtain ⟨length, mid', -, hlength, h⟩ := (takes_number 4 cutShort).bind_ok h
  obtain ⟨container, mid'', -, hcontainer, h⟩ := (takes_bytes _ cutShort).bind_ok h
  obtain ⟨params, mid''', hshapes, hparams, h⟩ := (takes_params shapes).bind_ok h
  obtain ⟨_, mid'''', -, hmark, h⟩ := (takes_expect _ _ _).bind_ok h
  cases h
  refine ⟨⟨?_, hshapes⟩, ?_⟩
  · show container.val.length < 256 ^ 4
    rw [container.property]
    exact length.isLt
  · show unread = buildDeployCall container.val params ++ rest
    rw [buildDeployCall_eq, container.property, hshapes, htag, hlength, hcontainer, hparams, hmark]
    simp only [List.append_assoc]

/-- **A deploy is read from what it is built as**, and from nothing else, when its
    length fits. -/
theorem readDeployCall_iff {shapes : List Shape} {args container : List UInt8}
    {params : List DeployParam} :
    readDeployCall shapes args = .ok (container, params)
      ↔ container.length < 256 ^ 4 ∧ params.map shapeOf = shapes
        ∧ args = buildDeployCall container params := by
  constructor
  · intro h
    obtain ⟨⟨hlength, hshapes⟩, hargs⟩ := decodeAll_takes (takes_deploy shapes) h
    exact ⟨hlength, hshapes, hargs⟩
  · rintro ⟨hlength, rfl, rfl⟩
    exact decodeAll_ok (reads_deploy params hlength)

/-! ## What is told from the bytes -/

/-- Deploys of one container, with parameters of the same bytes. -/
def SameDeploy (deploy deploy' : List UInt8 × List DeployParam) : Prop :=
  deploy.1 = deploy'.1 ∧ (deploy.2 = [] ↔ deploy'.2 = [])
    ∧ deploy.2.flatMap DeployParam.bytes = deploy'.2.flatMap DeployParam.bytes

/-- What stands behind a container. -/
def regionOf (params : List DeployParam) : List UInt8 :=
  params.flatMap DeployParam.bytes ++ markOf (params.map shapeOf)

/-- Two lists of parameters share a region where their bytes are the same, an empty list
    apart. -/
theorem regionOf_inj {params params' : List DeployParam} :
    regionOf params = regionOf params' ↔ (params = [] ↔ params' = [])
      ∧ params.flatMap DeployParam.bytes = params'.flatMap DeployParam.bytes := by
  have hmarked : ∀ (param : DeployParam) (params : List DeployParam),
      [] ≠ regionOf (param :: params) := by
    intro param params h
    have hlen := congrArg List.length h
    rw [regionOf, List.length_append] at hlen
    have hmark : (markOf ((param :: params).map shapeOf)).length = 8 := rfl
    rw [hmark, List.length_nil] at hlen
    omega
  cases params with
  | nil =>
      cases params' with
      | nil => exact iff_of_true rfl ⟨Iff.rfl, rfl⟩
      | cons param params' => exact iff_of_false (hmarked _ _) (fun h => nomatch h.1.mp rfl)
  | cons param params =>
      cases params' with
      | nil => exact iff_of_false (hmarked _ _).symm (fun h => nomatch h.1.mpr rfl)
      | cons param' params' =>
          have hmark : markOf ((param :: params).map shapeOf)
              = markOf ((param' :: params').map shapeOf) := rfl
          rw [regionOf, regionOf, hmark, List.append_left_inj]
          exact ⟨fun h => ⟨iff_of_false (by simp) (by simp), h⟩, fun h => h.2⟩

/-- **Two deploys are built alike** when their containers are one and the bytes of
    their parameters are, and not else. -/
theorem buildDeployCall_inj {container container' : List UInt8} {params params' : List DeployParam}
    (h : container.length < 256 ^ 4) (h' : container'.length < 256 ^ 4) :
    buildDeployCall container params = buildDeployCall container' params'
      ↔ SameDeploy (container, params) (container', params') := by
  have hframed : ∀ (container : List UInt8) (params : List DeployParam),
      buildDeployCall container params
        = deployParamsTag ++ (framed 4 container ++ regionOf params) := by
    intro container params
    rw [buildDeployCall_eq, framed, regionOf, List.append_assoc]
  rw [hframed, hframed, List.append_right_inj, SameDeploy, ← regionOf_inj]
  constructor
  · exact fun heq => delimits_framed 4 container container' _ _ ⟨h, h'⟩ heq
  · rintro ⟨hcontainer, hregion⟩
    rw [show container = container' from hcontainer, hregion]

/-! ## What is signed -/

/-- A call that is signed has few enough arguments. -/
theorem args_within {crates : TxCrates} {target : String} {meterLimit : U64} {argsLen : Nat}
    {fee transferFee : U128} {u : Unit}
    (h : checkCallTo crates target meterLimit argsLen fee transferFee = .ok u) :
    argsLen ≤ maxCallArgs := by
  obtain ⟨-, h⟩ := guard_ok h
  obtain ⟨hargs, -⟩ := guard_ok h
  exact Nat.not_lt.mp hargs

section

variable {self : Client} {s : ClientState} {r : Request} {seed : Bytes seedLen}
  {index meterLimit : U64} {maxFee : U128} {expected : Option U64} {container : List UInt8}
  {params : List DeployParam}

/-- A deploy that hands bytes over hands over a body to the deploy address, which the
    seed's key signed. -/
theorem deploy_hands (hr : r.Submits)
    (h : Emits ((Entry.deployWithParams seed index container params meterLimit maxFee expected).run
      self) s r) :
    ∃ body genesis rnd wrapper, self.crates.trySignHedged seed index body genesis rnd = some wrapper
      ∧ r.body = submitBody wrapper.bytes ∧ body.target = vmDeployAddress self.crates
      ∧ body.args = buildDeployCall container params ∧ body.args.length ≤ maxCallArgs := by
  have h := emits_map h
  obtain ⟨info, fee, chainId, s₁, -, hopened, h⟩ := emits_opening hr h
  obtain ⟨validUntil, s₂, -, h⟩ := emits_validity hr hopened h
  obtain ⟨reported, nonce, shared, turn, -, h⟩ := emits_checkedNonce hr h
  obtain ⟨contract, -, h⟩ := emits_value h
  rcases emits_bind h with h | ⟨⟨signed, outcome⟩, t, -, h⟩
  · obtain ⟨genesis, randomness, signed, -, hsigned, hbody, -⟩ := emits_signAndSubmit hr h
    obtain ⟨_, hcheck, -⟩ := bind_ok hsigned
    obtain ⟨rnd, wrapper, hwrapper, hbytes⟩ := (signPayableCall_ok hsigned).wrapped
    exact ⟨_, genesis, rnd, wrapper, hwrapper, by rw [hbody, hbytes], rfl, rfl, args_within hcheck⟩
  -- nothing is handed over once the outcome is known
  · exact absurd (emits_modify h) List.not_mem_nil

end

theorem length_container_le (container : List UInt8) (params : List DeployParam) :
    container.length ≤ (buildDeployCall container params).length := by
  rw [buildDeployCall_eq]
  simp only [List.length_append]
  omega

section

variable {self : Client} {AccountLeaf : Type} {accounts : AccountCrates AccountLeaf}
  {s t : ClientState} {log : List (Done AccountLeaf)}

/-- **A deploy is read as it was asked for.**  Over any run of calls of a client, what
    a deploy hands over is signed by its account for the deploy address, and it is read
    under the shapes of its parameters as its container and its parameters.  Under any
    shapes it is read as a deploy of its container, and of parameters that have those
    shapes and the bytes of its own, if there are such parameters. -/
theorem deploys_are_read_as_asked (h : Run (Calls self accounts) s log t) :
    ∀ done ∈ log, ∀ seed index container params meterLimit maxFee expected,
      done.call = .sign (.deployWithParams seed index container params meterLimit maxFee expected) →
      ∀ r ∈ done.requests, r.Submits → ∃ body genesis rnd wrapper,
        self.crates.trySignHedged seed index body genesis rnd = some wrapper
        ∧ r.body = submitBody wrapper.bytes ∧ body.target = vmDeployAddress self.crates
        ∧ readDeployCall (params.map shapeOf) body.args = .ok (container, params)
        ∧ ∀ shapes deploy, readDeployCall shapes body.args = .ok deploy
          ↔ deploy.2.map shapeOf = shapes ∧ SameDeploy deploy (container, params) := by
  intro done hmem seed index container params meterLimit maxFee expected hsign r hr hsubmits
  obtain ⟨u, v, hcall⟩ := run_called h done hmem
  obtain ⟨body, genesis, rnd, wrapper, hwrapper, hbody, htarget, hargs, hlen⟩ :=
    deploy_hands hsubmits (signed_request hsign hcall hr)
  have hcap : maxCallArgs < 256 ^ 4 := by decide
  have hfits : ∀ {c : List UInt8} {ps : List DeployParam}, body.args = buildDeployCall c ps →
      c.length < 256 ^ 4 := by
    intro c ps heq
    have hle := length_container_le c ps
    rw [← heq] at hle
    omega
  refine ⟨body, genesis, rnd, wrapper, hwrapper, hbody, htarget, ?_, ?_⟩
  · exact readDeployCall_iff.mpr ⟨hfits hargs, rfl, hargs⟩
  · rintro shapes ⟨container', params'⟩
    rw [readDeployCall_iff]
    constructor
    · rintro ⟨hlength, hshapes, heq⟩
      exact ⟨hshapes, (buildDeployCall_inj hlength (hfits hargs)).mp (heq.symm.trans hargs)⟩
    · rintro ⟨hshapes, hsame⟩
      have hlength : container'.length < 256 ^ 4 := by
        rw [show container' = container from hsame.1]
        exact hfits hargs
      have heq := (buildDeployCall_inj hlength (hfits hargs)).mpr hsame
      exact ⟨hlength, hshapes, hargs.trans heq.symm⟩

end

/-! ## A deploy on a local network -/

/-- A node that reports a rate. -/
def ratedInfo : Json := .object
  [("fee", .object [("transfer_quon", .str "500"), ("deploy_fee_quon", .str "5000000"),
      ("rate_micro_usd_per_qtov", .str "1000000"), ("quon_per_qtov", .str "1000000")]),
    ("chain_id", .str "Q-local"), ("genesis_hash", .str (toHex (filled 0).val)),
    ("head_height", .int 5), ("denomination", .str "q"), ("version", .str "1"),
    ("protocol", .int 2)]

/-- What a node reports that has a rate. -/
def localRated : NodeInfo :=
  { localNode with
    transferFee := 500, deployFee := some 5000000, rateMicroUsdPerQtov := some 1000000
    quonPerQtov := some 1000000 }

/-- A client of such a node. -/
def ratedClient : Client :=
  { localClient with
    transport := fun turn =>
      .ok (200, if turn = 0 then ratedInfo.render else localAccount.render) }

/-- Parameters of three shapes. -/
def localParams : List DeployParam :=
  [.address (filled 1), .guardians [filled 2, filled 3], .u128 7]

/-- A deploy of four bytes of code and some parameters. -/
def localDeploy : Entry :=
  .deployWithParams (filled 0) 0 [81, 86, 77, 49] localParams 1210 5000500 none

theorem length_ratedInfo : (asBytes ratedInfo.render).length ≤ responseCap "node_info" := by
  simp only [ratedInfo, Json.render, Json.write, Json.writeFields, asBytes_append,
    List.length_append, length_writeString_toHex]
  decide +kernel

theorem parse_ratedInfo : parseNodeInfo ratedInfo.render = .ok localRated := by
  refine bind_pass (parse_render ?_ (by decide)) rfl
  simp [ratedInfo, Json.DistinctKeys, Json.DistinctFields]

theorem rated_genesis {trusted : Option TrustedRosters} (h : trusted = none) :
    genesisUnder ratedClient trusted localRated = .ok (filled 0) := local_genesis h

/-- The opening of a deploy at a rate is accepted. -/
theorem rated_opening : Gives (opening ratedClient "Qa" [] (deployFeeWithin 1210 5000500))
    freshState (localRated, 5000500, 9)
    { freshState with turn := 1, session := rememberAddress pairCrates.toCrates .new "Qa" } := by
  have hinfo : ∀ {s : ClientState}, s.turn = 0 →
      Gives ratedClient.nodeInfo s localRated { s with turn := s.turn + 1 } := by
    intro s hs
    refine bind_gives (rpc_answers rfl ?_ length_ratedInfo) (ofExcept_gives parse_ratedInfo)
    rw [hs]
    rfl
  have hfee : deployFeeWithin 1210 5000500 localRated = .ok 5000500 := by decide +kernel
  refine bind_gives (m := vetTarget _ _ _) ⟨rfl, rfl⟩ (bind_gives (hinfo rfl) ?_)
  refine bind_gives (ofExcept_gives rfl) (bind_gives (ofExcept_gives hfee) ?_)
  exact bind_gives (m := signingChainId _ _) ⟨rfl, rfl⟩ ⟨rfl, rfl⟩

/-- Its deadline is found, and the head is noted. -/
theorem rated_validity (session : SigningSession) :
    ∃ t : ClientState, t.turn = 2 ∧ t.trustedRoster = none
      ∧ t.shared = SigningSession.new.noteHead "Q-local" 5 0
      ∧ Gives (validity ratedClient localRated)
        { freshState with turn := 1, session := session } 305 t :=
  ⟨_, rfl, rfl, rfl, validity_of_clock (rated_genesis rfl) ⟨rfl, rfl⟩ rfl rfl rfl⟩

/-- Its account is at the reported nonce. -/
theorem rated_account {t : ClientState} (h : t.turn = 2) :
    Gives (ratedClient.account "Qa") t
      { address := "Qa", nonce := 3, balance := 9, scheme := 1, hasKey := false }
      { t with turn := t.turn + 1 } := by
  refine account_of_answer rfl ?_
  rw [h]
  rfl

/-- The client of a node that reports a rate hands a deploy over. -/
theorem rated_deploy : Causes Request.Submits (localDeploy.run ratedClient) freshState := by
  obtain ⟨t, hturn, htrusted, hshared, hvalid⟩ :=
    rated_validity (rememberAddress pairCrates.toCrates .new "Qa")
  have hgranted : (t.shared.slot (accountSlotKey "Q-local" "Qa") 3 none false).1 = .ok 3 := by
    rw [hshared]
    rfl
  have hcheck : checkCallTo pairCrates (vmDeployAddress pairCrates) 1210
      (buildDeployCall [81, 86, 77, 49] localParams).length 5000500 500 = .ok () := by
    decide +kernel
  refine bind_causes_first (bind_causes rated_opening (bind_causes hvalid ?_))
  refine bind_causes (rated_account hturn) (bind_causes (m := step _) ⟨hgranted, rfl⟩ ?_)
  refine causes_finally (bind_causes (ofExcept_gives (a := "Q1") rfl) (bind_causes_first ?_))
  exact causes_mono (fun _ h => h.1) (signAndSubmit_causes ⟨"Qa", "tx", []⟩ rfl
    (rated_genesis htrusted) (bind_pass hcheck rfl) (fun s => ⟨s, rfl, rfl⟩))

/-- What that deploy hands over is read under the shapes of its parameters, and not as
    words in their place. -/
theorem deploys_are_read_as_asked_at_rated : ∃ (r : Request) (body : Body), r.Submits
    ∧ readDeployCall [.address, .guardians 2, .u128] body.args = .ok ([81, 86, 77, 49], localParams)
    ∧ ∀ deploy, readDeployCall [] body.args ≠ .ok deploy := by
  have hcauses : Causes Request.Submits
      ((ClientCall.sign localDeploy).run ratedClient emptyAccounts) freshState :=
    bind_causes_first rated_deploy
  obtain ⟨r, hr, hemits⟩ := hcauses
  have hdone : Calls ratedClient emptyAccounts freshState
      ((ClientCall.sign localDeploy).done ratedClient emptyAccounts freshState)
      ((ClientCall.sign localDeploy).run ratedClient emptyAccounts freshState).state :=
    calls_done _ _
  obtain ⟨body, genesis, rnd, wrapper, -, -, -, hread, hany⟩ := deploys_are_read_as_asked
    (Run.single hdone) _ List.mem_cons_self _ _ _ _ _ _ _ rfl r (requests_done hemits) hr
  refine ⟨r, body, hr, hread, fun deploy h => ?_⟩
  obtain ⟨hshapes, -, hnone, -⟩ := (hany [] deploy).mp h
  exact nomatch hnone.mp (List.map_eq_nil_iff.mp hshapes)

end QCoreDeployRead
