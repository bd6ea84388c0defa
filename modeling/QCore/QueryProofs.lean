import Mathlib
import QCore.MachineIntProofs
import QCore.ByteMemoryProofs
import QCore.FallibleProofs
import QCore.TraceProofs
import QCore.TransitionProofs
import QCore.JsonProofs
import QCore.JsonRoundTripProofs
import QCore.WireProofs
import QCore.SessionProofs
import QCore.CratesProofs
import QCore.ContractProofs
import QCore.CertificateProofs
import QCore.FinalityProofs
import QCore.FinalitySafetyProofs
import QCore.RosterProofs
import QCore.AddressProofs
import QCore.ClientProofs
import QCore.TrustProofs
import QCore.RosterRunProofs
import QCore.HeadProofs
import QCore.ConfirmationProofs
import QCore.SigningProofs
import QCore.OrderProofs
import QCore.EntryPointProofs
import QCore.SubmissionProofs
import QCore.EntryRunProofs
import QCore.EntryStepProofs
import QCore.SharedSessionProofs
import QCore.AccountProofs
import QCore.ClientRunProofs
import QCore.AskedProofs
import QCore.HttpRequestProofs
import QCore.LoopbackProofs

/-! # What a gateway is asked

    A request is a method and a text, and the text is put together from addresses
    and ids that callers hand in.  A gateway reads it with a strict parser.  What the
    gateway reads is what the client meant (`readQuery_json`): nothing in an
    address can end its string early or bring a field of its own.

    And what a client means to ask is settled by its call: nothing else that the
    client knows, its seeds least of all, is asked about. -/

namespace QCoreQuery

open QCoreMachineInt QCoreByteMemory QCoreFallible QCoreTrace QCoreTrace.Traced QCoreTransition
  QCoreJson QCoreJsonRoundTrip QCoreWire QCoreSession QCoreCrates QCoreContract QCoreRoster
  QCoreClient QCoreClient.Client QCoreTrust QCoreHead QCoreConfirmation QCoreSigning QCoreOrder
  QCoreEntryPoint QCoreEntryStep QCoreClientRun QCoreHttpRequest QCoreLoopback
  QCoreFinalitySafety QCoreAddress QCoreSubmission QCoreSharedSession QCoreRosterRun
open QCoreEntryRun (Entry)
open QCoreAccount (AccountCrates)
open QCoreAsked (HandsSigned call_asked)

/-! ## Queries -/

/-- What a gateway answers to. -/
inductive Method
  | nodeInfo
  | account
  | submit
  | transaction
  | transactionProof
  | accountProof
  | finality
  | rosterProof
  | events
  | eventProof
  | storage
  | storageAt
  | assetBalance
deriving DecidableEq

namespace Method

/-- The path of a method, as a client asks for it. -/
def name : Method → String
  | nodeInfo => "node_info"
  | account => "get_account"
  | submit => "submit_transaction"
  | transaction => "get_transaction"
  | transactionProof => "get_transaction_proof"
  | accountProof => "get_account_proof"
  | finality => "get_finality"
  | rosterProof => "get_roster_proof"
  | events => "get_events"
  | eventProof => "get_event_proof"
  | storage => "get_storage"
  | storageAt => "get_storage_at"
  | assetBalance => "get_asset_balance"

/-- The methods that a client asks for. -/
def all : List Method :=
  [nodeInfo, account, submit, transaction, transactionProof, accountProof, finality, rosterProof,
    events, eventProof, storage, storageAt, assetBalance]

/-- The method of a name. -/
def ofName (text : String) : Option Method := all.find? (fun method => method.name = text)

/-- A name is of one method. -/
theorem ofName_name (method : Method) : ofName method.name = some method := by
  cases method <;> decide +kernel

end Method

/-- What a gateway is asked. -/
inductive Query
  | nodeInfo
  | account (address : String)
  | submit (txBytes : List UInt8)
  | transaction (txId : String)
  | transactionProof (txId : String)
  | accountProof (address : String)
  | finality (height : U64)
  | rosterProof (epoch : U64)
  | events (height : U64)
  | eventProof (height index : U64)
  | storage (address : String)
  | storageAt (address : String) (keys : List (Bytes 32))
  | assetBalance (issuer holder : String)

namespace Query

/-- The method that a query is put to. -/
def method : Query → Method
  | nodeInfo => .nodeInfo
  | account _ => .account
  | submit _ => .submit
  | transaction _ => .transaction
  | transactionProof _ => .transactionProof
  | accountProof _ => .accountProof
  | finality _ => .finality
  | rosterProof _ => .rosterProof
  | events _ => .events
  | eventProof _ _ => .eventProof
  | storage _ => .storage
  | storageAt _ _ => .storageAt
  | assetBalance _ _ => .assetBalance

/-- What a query says, as a client puts it together. -/
def json : Query → Json
  | nodeInfo => .object []
  | account address | accountProof address | storage address =>
      .object [("address", .str address)]
  | submit txBytes => .object [("tx", .str (toHex txBytes))]
  | transaction txId | transactionProof txId => .object [("tx_id", .str txId)]
  | finality height | events height => .object [("height", .int height)]
  | rosterProof epoch => .object [("epoch", .int epoch)]
  | eventProof height index => .object [("height", .int height), ("index", .int index)]
  | storageAt address keys =>
      .object [("address", .str address),
        ("keys", .array (keys.map (fun key => .str (toHex key.val))))]
  | assetBalance issuer holder => .object [("issuer", .str issuer), ("holder", .str holder)]

end Query

/-- A request carries a query. -/
def Carries (r : Request) (query : Query) : Prop :=
  r.method = query.method.name ∧ r.body = query.json.render

/-! ## How a gateway reads one -/

/-- A key of a contract's storage. -/
def readKey (item : Json) : Except String (Bytes 32) := do
  let hex ← okOr item.asStr "a storage key is not a string"
  let bytes ← fromHex hex
  exactly 32 bytes "a storage key is not thirty two bytes"

/-- The fields that a method needs. -/
def readFields (v : Json) : Method → Except String Query
  | .nodeInfo => .ok .nodeInfo
  | .account => (fieldStr v "address").map .account
  | .submit => (fieldStr v "tx" >>= fromHex).map .submit
  | .transaction => (fieldStr v "tx_id").map .transaction
  | .transactionProof => (fieldStr v "tx_id").map .transactionProof
  | .accountProof => (fieldStr v "address").map .accountProof
  | .finality => (fieldU64 v "height").map .finality
  | .rosterProof => (fieldU64 v "epoch").map .rosterProof
  | .events => (fieldU64 v "height").map .events
  | .eventProof => do
      let height ← fieldU64 v "height"
      let index ← fieldU64 v "index"
      return .eventProof height index
  | .storage => (fieldStr v "address").map .storage
  | .storageAt => do
      let address ← fieldStr v "address"
      let items ← okOr ((v.get "keys").bind Json.asArray) "the query has no keys array"
      let keys ← items.mapM readKey
      return .storageAt address keys
  | .assetBalance => do
      let issuer ← fieldStr v "issuer"
      let holder ← fieldStr v "holder"
      return .assetBalance issuer holder

/-- A query, from the name of its method and a text. -/
def readQuery (method body : String) : Except String Query := do
  let method ← okOr (Method.ofName method) "the method is unknown"
  let v ← parse body
  readFields v method

theorem exactly_val {n : Nat} (b : Bytes n) (refusal : String) :
    exactly n b.val refusal = .ok b := by
  rw [exactly, dif_pos b.property]

theorem readKey_toHex (key : Bytes 32) : readKey (.str (toHex key.val)) = .ok key := by
  rw [readKey, Json.asStr]
  exact bind_pass rfl (bind_pass (fromHex_toHex key.val) (exactly_val key _))

/-- Keys are read from their digits. -/
theorem readKeys_toHex (keys : List (Bytes 32)) :
    (keys.map (fun key => Json.str (toHex key.val))).mapM readKey = .ok keys := by
  refine mapM_iff.mpr ?_
  induction keys with
  | nil => exact List.Forall₂.nil
  | cons key keys ih => exact List.Forall₂.cons (readKey_toHex key) ih

section

variable {key key' : String} {v v' : Json}

theorem get_single : (Json.object [(key, v)]).get key = some v := by simp [Json.get]

theorem get_behind : (Json.object [(key, v), (key', v')]).get key' = some v' := by simp [Json.get]

theorem get_front (h : key' ≠ key) : (Json.object [(key, v), (key', v')]).get key = some v := by
  simp [Json.get, h]

theorem fieldStr_of_get {text : String} (h : v.get key = some (.str text)) :
    fieldStr v key = .ok text := by
  rw [fieldStr, h]
  rfl

theorem fieldU64_of_get {n : U64} (h : v.get key = some (.int n)) : fieldU64 v key = .ok n := by
  rw [fieldU64, h]
  rfl

end

/-- The fields of a query are read as they were put. -/
theorem readFields_json (query : Query) : readFields query.json query.method = .ok query := by
  have hstr : ∀ {key text : String} {f : String → Query},
      (fieldStr (.object [(key, .str text)]) key).map f = .ok (f text) := by
    intro key text f
    rw [fieldStr_of_get get_single]
    rfl
  have hnumber : ∀ {key : String} {n : U64} {f : U64 → Query},
      (fieldU64 (.object [(key, .int n)]) key).map f = .ok (f n) := by
    intro key n f
    rw [fieldU64_of_get get_single]
    rfl
  cases query with
  | nodeInfo => rfl
  | account address =>
      rw [Query.json, Query.method, readFields]
      exact hstr
  | submit txBytes =>
      have hread : fieldStr (Query.submit txBytes).json "tx" >>= fromHex = .ok txBytes :=
        bind_pass (fieldStr_of_get get_single) (fromHex_toHex txBytes)
      rw [Query.method, readFields, hread]
      rfl
  | transaction txId =>
      rw [Query.json, Query.method, readFields]
      exact hstr
  | transactionProof txId =>
      rw [Query.json, Query.method, readFields]
      exact hstr
  | accountProof address =>
      rw [Query.json, Query.method, readFields]
      exact hstr
  | finality height =>
      rw [Query.json, Query.method, readFields]
      exact hnumber
  | rosterProof epoch =>
      rw [Query.json, Query.method, readFields]
      exact hnumber
  | events height =>
      rw [Query.json, Query.method, readFields]
      exact hnumber
  | eventProof height index =>
      exact bind_pass (fieldU64_of_get (get_front (by decide)))
        (bind_pass (fieldU64_of_get get_behind) rfl)
  | storage address =>
      rw [Query.json, Query.method, readFields]
      exact hstr
  | storageAt address keys =>
      have hitems : okOr (((Query.storageAt address keys).json.get "keys").bind Json.asArray)
          "the query has no keys array"
            = .ok (keys.map (fun key => Json.str (toHex key.val))) := by
        rw [Query.json, get_behind]
        rfl
      exact bind_pass (fieldStr_of_get (get_front (by decide)))
        (bind_pass hitems (bind_pass (readKeys_toHex keys) rfl))
  | assetBalance issuer holder =>
      exact bind_pass (fieldStr_of_get (get_front (by decide)))
        (bind_pass (fieldStr_of_get get_behind) rfl)

/-- A query is rendered so that a strict parser takes its text. -/
theorem parse_query (query : Query) : parse query.json.render = .ok query.json := by
  refine parse_render ?_ ?_
  · cases query with
    | storageAt address keys =>
        have hitems : Json.DistinctItems (keys.map (fun key => Json.str (toHex key.val))) := by
          refine distinctItems_iff.mpr (fun v hv => ?_)
          obtain ⟨key, -, rfl⟩ := List.mem_map.mp hv
          trivial
        have hnames : ["address", "keys"].Nodup := by decide
        exact ⟨hnames, trivial, hitems, trivial⟩
    | _ => simp [Query.json, Json.DistinctKeys, Json.DistinctFields]
  · cases query with
    | storageAt address keys =>
        have hitems : Json.heightItems (keys.map (fun key => Json.str (toHex key.val))) ≤ 0 := by
          refine heightItems_le_iff.mpr (fun v hv => ?_)
          obtain ⟨key, -, rfl⟩ := List.mem_map.mp hv
          exact Nat.le_refl 0
        show max 0 (max (Json.heightItems _ + 1) 0) + 1 ≤ maxDepth
        rw [Nat.le_zero.mp hitems]
        decide
    | _ => simp [Query.json, Json.height, Json.heightFields, maxDepth]

/-- **What a gateway reads is what was meant.** -/
theorem readQuery_json (query : Query) :
    readQuery query.method.name query.json.render = .ok query := by
  rw [readQuery, Method.ofName_name]
  refine bind_pass (a := query.method) rfl ?_
  exact bind_pass (parse_query query) (readFields_json query)

/-- A request is read as the query that it carries. -/
theorem readQuery_carried {r : Request} {query : Query} (h : Carries r query) :
    readQuery r.method r.body = .ok query := by
  rw [h.1, h.2]
  exact readQuery_json query

/-! ## What a computation asks -/

/-- The requests of a computation carry queries of a kind. -/
def PutsAt {α : Type} (P : Query → Prop) (m : ClientM α) (s : ClientState) : Prop :=
  ∀ r, Emits m s r → ∃ query, P query ∧ Carries r query

/-- From every state they do. -/
abbrev Puts {α : Type} (P : Query → Prop) (m : ClientM α) : Prop := ∀ s, PutsAt P m s

section

variable {α β : Type} {P P' : Query → Prop} {m : ClientM α} {f : α → ClientM β} {s : ClientState}

/-- **What a sequence asks** is what its steps ask. -/
theorem putsAt_bind (hm : PutsAt P m s) (hf : ∀ a t, Gives m s a t → PutsAt P (f a) t) :
    PutsAt P (m >>= f) s := by
  intro r h
  rcases emits_bind h with h | ⟨a, t, hgives, h⟩
  · exact hm r h
  · exact hf a t hgives r h

theorem puts_bind (hm : Puts P m) (hf : ∀ a, Puts P (f a)) : Puts P (m >>= f) :=
  fun s => putsAt_bind (hm s) (fun a t _ => hf a t)

theorem puts_of_nil (h : ∀ s, (m s).events = []) : Puts P m := by
  intro s r hr
  rw [Emits, h s] at hr
  exact absurd hr List.not_mem_nil

theorem puts_except (x : Except String α) : Puts P (liftM x : ClientM α) :=
  puts_of_nil (fun _ => rfl)

theorem puts_pure (a : α) : Puts P (pure a : ClientM α) := puts_of_nil (fun _ => rfl)

/-- A step from the value of an `Except` asks nothing. -/
theorem puts_value {x : Except String α} (hf : ∀ a, Puts P (f a)) : Puts P (liftM x >>= f) :=
  puts_bind (puts_except x) hf

theorem puts_reach (answer : Nat → α) : Puts P (reach answer) := puts_of_nil (fun _ => rfl)

theorem puts_modify (g : ClientState → ClientState) : Puts P (modify g : ClientM Unit) :=
  puts_of_nil (fun _ => rfl)

theorem puts_read {f : ClientState → ClientM β} (hf : ∀ s, Puts P (f s)) :
    Puts P (read >>= f) := puts_bind (puts_of_nil (fun _ => rfl)) hf

theorem putsAt_finally {g : ClientState → ClientState} (hm : PutsAt P m s) :
    PutsAt P (m.andFinally g) s := fun r h => hm r (emits_andFinally h)

theorem Puts.mono (h : Puts P m) (hsub : ∀ query, P query → P' query) : Puts P' m := by
  intro s r hr
  obtain ⟨query, hquery, hcarries⟩ := h s r hr
  exact ⟨query, hsub query hquery, hcarries⟩

end

section

variable {self : Client} {info : NodeInfo} {α : Type} {P : Query → Prop}

/-- A request puts the query that its method and its body are of. -/
theorem rpc_puts {method body : String} {query : Query} (hquery : P query)
    (hmethod : method = query.method.name) (hbody : body = query.json.render) :
    Puts P (self.rpc method body) := by
  have hpost : Puts P (self.post method body) := by
    refine puts_bind ?_ (fun _ => puts_bind (puts_reach _) (fun answer => puts_except answer))
    intro s r h
    obtain rfl := List.mem_singleton.mp h
    exact ⟨query, hquery, hmethod, hbody⟩
  refine puts_bind (puts_except _) (fun _ => puts_bind hpost ?_)
  rintro ⟨status, text⟩
  exact puts_bind (puts_except _) (fun _ => puts_bind (puts_except _) (fun _ => puts_pure _))

/-! ## What is asked about a chain -/

/-- A query that names a chain, a height or an epoch at most. -/
inductive Chainwide : Query → Prop
  | nodeInfo : Chainwide .nodeInfo
  | finality (height : U64) : Chainwide (.finality height)
  | rosterProof (epoch : U64) : Chainwide (.rosterProof epoch)

theorem nodeInfo_puts : Puts Chainwide self.nodeInfo :=
  puts_bind (rpc_puts Chainwide.nodeInfo rfl rfl) (fun _ => puts_except _)

theorem getRosterProof_puts (epoch : U64) : Puts Chainwide (getRosterProof self epoch) :=
  puts_bind (rpc_puts (Chainwide.rosterProof epoch) rfl rfl) (fun _ => puts_except _)

theorem anchorPinned_puts (genesis commitment : Bytes 32) :
    Puts Chainwide (anchorPinned self genesis commitment) := by
  refine puts_bind (getRosterProof_puts 0) (fun _ => puts_value (fun _ => puts_value (fun _ => ?_)))
  refine puts_value (fun _ => puts_bind ?_ (fun _ => puts_pure _))
  exact puts_value (fun _ => puts_modify _)

/-- To anchor the pinned roster puts queries of the chain. -/
theorem anchorPinnedRoster_puts : Puts Chainwide (anchorPinnedRoster self) := by
  refine puts_read (fun s => ?_)
  split
  · exact puts_pure _
  · exact anchorPinned_puts _ _
  · exact puts_pure _

theorem nextRoster_puts {chainId length : U64} {genesis : Bytes 32} (current : VerifiedRoster) :
    Puts Chainwide (nextRoster self chainId genesis length current) := by
  refine puts_bind (getRosterProof_puts _) (fun _ => puts_value (fun _ => puts_value (fun _ => ?_)))
  refine puts_value (fun _ => puts_value (fun _ => puts_value (fun _ => puts_value (fun _ => ?_))))
  exact puts_except _

/-- A walk along rosters puts queries of the chain. -/
theorem walk_puts {chainId length epoch : U64} {genesis : Bytes 32} (fuel : Nat)
    (current : VerifiedRoster) :
    Puts Chainwide (walk self chainId genesis length epoch fuel current) := by
  induction fuel generalizing current with
  | zero => exact puts_pure _
  | succ fuel ih =>
      rw [walk_succ]
      split
      · refine puts_bind (nextRoster_puts current) (fun next => ?_)
        exact puts_bind (puts_modify _) (fun _ => ih next)
      · exact puts_pure _

/-- So does the roster of an epoch. -/
theorem rosterForEpoch_puts {chainId epoch : U64} :
    Puts Chainwide (rosterForEpoch self chainId epoch) := by
  refine puts_bind anchorPinnedRoster_puts (fun anchored => ?_)
  split
  · refine puts_read (fun s => ?_)
    split
    · exact puts_pure _
    · refine puts_value (fun start => puts_value (fun length => ?_))
      exact puts_bind (walk_puts _ _) (fun _ => puts_pure _)
  · exact puts_pure _

theorem certifiedAt_puts (height : U64) : Puts Chainwide (certifiedAt self height) := by
  refine puts_bind (rpc_puts (Chainwide.finality height) rfl rfl) (fun _ => ?_)
  refine puts_value (fun _ => ?_)
  refine puts_value (fun _ => puts_value (fun _ => puts_value (fun _ => puts_value (fun _ => ?_))))
  exact puts_value (fun _ => puts_pure _)

/-- The check of the head puts queries of the chain. -/
theorem verifyHead_puts : Puts Chainwide (verifyHead self info) := by
  refine puts_value (fun chainId => puts_bind anchorPinnedRoster_puts (fun anchored => ?_))
  split
  · refine puts_bind (certifiedAt_puts _) ?_
    rintro ⟨epoch, header, certificate⟩
    refine puts_bind rosterForEpoch_puts (fun trusted => puts_value ?_)
    rintro ⟨genesis, members⟩
    refine puts_value (fun _ => puts_value (fun _ => puts_value (fun _ => puts_pure _)))
  · exact puts_value (fun _ => puts_pure _)

theorem signingGenesis_puts : Puts P (signingGenesis self info) :=
  puts_read (fun _ => puts_except _)

/-- The check of the chain puts no query. -/
theorem signingChainId_puts : Puts P (signingChainId self info) := by
  refine puts_value (fun _ => puts_value (fun _ => puts_bind ?_ (fun _ =>
    puts_value (fun _ => puts_pure _))))
  rw [holdChain]
  split
  · exact puts_except _
  · refine puts_value (fun _ => puts_read (fun s => ?_))
    split
    · exact puts_except _
    · exact puts_modify _

/-- The opening of a call puts queries of the chain. -/
theorem opening_puts {sender : String} {targets : List String}
    {feeOf : NodeInfo → Except String U128} :
    Puts Chainwide (opening self sender targets feeOf) := by
  refine puts_bind ?_ (fun _ => puts_bind nodeInfo_puts (fun _ => puts_value (fun _ => ?_)))
  · exact puts_bind (puts_modify _) (fun _ => puts_read (fun _ => puts_except _))
  · exact puts_value (fun _ => puts_bind signingChainId_puts (fun _ => puts_pure _))

theorem validity_puts : Puts Chainwide (validity self info) := by
  refine puts_bind signingGenesis_puts (fun _ => puts_bind verifyHead_puts (fun _ => ?_))
  refine puts_value (fun _ => puts_value (fun _ => puts_bind (puts_reach _) (fun _ => ?_)))
  refine puts_read (fun _ => puts_value (fun _ => puts_bind (puts_modify _) (fun _ => ?_)))
  exact puts_pure _

/-! ## What is asked to sign -/

/-- A query that a signing call may put: about the chain, the account that signs, the
    nonce of its order, or the transaction it hands over. -/
inductive Signing (client : Client) (sender : String) (order : Option (String × Bytes 32)) :
    Query → Prop
  | chainwide {query : Query} (h : Chainwide query) : Signing client sender order query
  | account : Signing client sender order (.account sender)
  | nonce {contract : String} {signer : Bytes 32} (h : order = some (contract, signer)) :
      Signing client sender order
        (.storageAt contract [nonceSlotKey client.crates.toCrates signer])
  | submit (txBytes : List UInt8) : Signing client sender order (.submit txBytes)

section

variable {sender : String} {order : Option (String × Bytes 32)}

theorem signing_of_chainwide {m : ClientM α} (h : Puts Chainwide m) :
    Puts (Signing self sender order) m := h.mono (fun _ => Signing.chainwide)

theorem submit_puts (txBytes : List UInt8) :
    Puts (Signing self sender order) (self.submit txBytes) :=
  puts_bind (rpc_puts (Signing.submit txBytes) rfl rfl) (fun _ => puts_except _)

theorem saveSigned_puts : Puts P (saveSigned self) := by
  rw [saveSigned]
  split
  · exact puts_read (fun _ => puts_bind (puts_reach _) (fun _ => puts_except _))
  · exact puts_pure _

/-- The signing step puts the queries of its call. -/
theorem signAndSubmit_puts {targets : List String} {slots : List (String × U64)}
    {sign : Bytes 32 → Except String (Bytes 32) → Except String SignedTransfer} :
    Puts (Signing self sender order) (signAndSubmit self info targets slots sign) := by
  refine puts_bind signingGenesis_puts (fun _ => puts_bind (puts_reach _) (fun _ => ?_))
  refine puts_bind (puts_except _) (fun signed => puts_bind (puts_modify _) (fun _ => ?_))
  refine puts_bind (puts_bind (puts_modify _) (fun _ => ?_)) (fun _ => puts_pure _)
  refine puts_bind saveSigned_puts (fun _ => puts_bind (submit_puts _) (fun _ => ?_))
  exact puts_bind (puts_modify _) (fun _ => puts_pure _)

theorem storageAt_puts {contract : String} {keys : List (Bytes 32)}
    (h : P (.storageAt contract keys)) : Puts P (storageAt self contract keys) :=
  puts_bind (rpc_puts h rfl rfl) (fun _ => puts_except _)

theorem slotValue_puts {contract : String} {key : Bytes 32} (h : P (.storageAt contract [key])) :
    Puts P (slotValue self contract key) :=
  puts_bind (storageAt_puts h) (fun _ => puts_except _)

theorem account_puts {address : String} (h : P (.account address)) :
    Puts P (self.account address) := by
  refine puts_bind (rpc_puts h rfl rfl) (fun _ => puts_bind (puts_except _) (fun _ => ?_))
  exact puts_bind (puts_except _) (fun _ => puts_pure _)

/-- What is asked before a nonce is reserved. -/
theorem preparing_puts {m : ClientM α} {entry : Entry} (h : Preparing self entry m) :
    Puts (Signing self (self.crates.accountAddress (accountOf entry).1 (accountOf entry).2)
      (entry.order self)) m := by
  cases h with
  | clock => exact puts_bind (puts_reach _) (fun _ => puts_except _)
  | opening => exact signing_of_chainwide opening_puts
  | genesis => exact signingGenesis_puts
  | validity => exact signing_of_chainwide validity_puts
  | account => exact account_puts Signing.account
  | orderNonce hcarries => exact slotValue_puts (Signing.nonce hcarries)
  | draw => exact puts_reach _

/-- Nothing is asked when the outcome is known. -/
theorem closing_puts {m : ClientM α} (h : Closing self m) : Puts P m := by
  cases h with
  | done a => exact puts_pure a
  | remember targets a => exact puts_bind (puts_modify _) (fun _ => puts_pure a)

/-- **What an entry point asks**, whatever its gateway answers and wherever it stops. -/
theorem entry_puts (entry : Entry) :
    Puts (Signing self (self.crates.accountAddress (accountOf entry).1 (accountOf entry).2)
      (entry.order self)) (entry.run self) := by
  refine entry_steps (P := PutsAt (Signing self
    (self.crates.accountAddress (accountOf entry).1 (accountOf entry).2) (entry.order self)))
    ⟨?value, ?prepare, ?reserve, ?submit, ?close⟩
  case value =>
    intro α β x rest s hrest
    exact putsAt_bind (puts_except x s) (fun a t hgives => by
      obtain ⟨hok, rfl⟩ := gives_ofExcept hgives
      exact hrest a hok)
  case prepare =>
    intro α β m rest s hm hrest
    exact putsAt_bind (preparing_puts hm s) hrest
  case reserve =>
    intro α key reported expected order rest s _ hrest
    refine putsAt_bind (puts_of_nil (fun _ => rfl) s) (fun nonce t hgranted => ?_)
    exact putsAt_finally (hrest nonce t (granted_names hgranted))
  case submit => exact fun _ => signAndSubmit_puts _
  case close =>
    intro α β m rest s hm hclose
    exact putsAt_bind hm (fun a t _ => closing_puts (hclose a) t)

end

/-! ## What is asked to confirm -/

/-- A query that a call which confirms a transaction may put. -/
inductive Confirming (txId : String) : Query → Prop
  | chainwide {query : Query} (h : Chainwide query) : Confirming txId query
  | proof : Confirming txId (.transactionProof txId)

/-- One that a call which confirms an event of it may. -/
inductive ConfirmingEvent (txId : String) : Query → Prop
  | confirming {query : Query} (h : Confirming txId query) : ConfirmingEvent txId query
  | events (height : U64) : ConfirmingEvent txId (.events height)
  | event (height index : U64) : ConfirmingEvent txId (.eventProof height index)

section

variable {txId contract : String} {selector : Bytes 4} {data : Option (List UInt8)}

/-- The proof of a transaction puts a query about it. -/
theorem transactionProof_puts : Puts (Confirming txId) (transactionProof self txId) := by
  refine puts_bind (rpc_puts Confirming.proof rfl rfl) (fun _ => ?_)
  refine puts_bind (puts_except _) (fun _ => ?_)
  refine puts_bind (puts_except _) (fun _ => puts_bind (puts_except _) (fun _ => ?_))
  refine puts_bind (puts_except _) (fun _ => puts_bind (puts_except _) (fun _ => ?_))
  exact puts_bind (puts_except _) (fun _ => puts_pure _)

/-- To look for a transaction puts queries about it. -/
theorem inclusion_puts {trusted : Option (Bytes 32 × VerifiedRoster)} :
    Puts (Confirming txId) (inclusion self txId trusted) := by
  have hchain : ∀ {β : Type} {m : ClientM β}, Puts Chainwide m → Puts (Confirming txId) m :=
    fun h => h.mono (fun _ => Confirming.chainwide)
  refine puts_bind (hchain nodeInfo_puts) (fun _ => puts_bind (puts_except _) (fun chainId => ?_))
  refine puts_bind transactionProof_puts ?_
  rintro ⟨height, index, leaf, steps⟩
  refine puts_bind (hchain (certifiedAt_puts height)) ?_
  rintro ⟨epoch, header, certificate⟩
  have hroster : Puts (Confirming txId) (rosterFor self chainId epoch trusted) := by
    cases trusted with
    | some given => exact puts_pure _
    | none =>
        refine puts_bind (hchain rosterForEpoch_puts) (fun _ => ?_)
        exact puts_bind (puts_except _) (fun _ => puts_pure _)
  refine puts_bind hroster ?_
  rintro ⟨genesis, roster⟩
  refine puts_bind (puts_except _) (fun _ => puts_bind (puts_except _) (fun _ => ?_))
  refine puts_bind (puts_except _) (fun _ => puts_bind (puts_except _) (fun _ => ?_))
  exact puts_bind (puts_except _) (fun _ => puts_bind (puts_except _) (fun _ => puts_pure _))

/-- To look for its event puts queries about it. -/
theorem provenEvent_puts {confirmed : ConfirmedTransaction} (position : Nat)
    (events : List ContractEvent) : Puts (ConfirmingEvent txId)
      (provenEvent self confirmed txId contract selector data position events) := by
  have hproof : ∀ height index, Puts (ConfirmingEvent txId) (eventProof self height index) := by
    intro height index
    refine puts_bind (rpc_puts (ConfirmingEvent.event height (Fin.ofNat _ index)) rfl rfl)
      (fun _ => ?_)
    refine puts_bind (puts_except _) (fun _ => puts_bind (puts_except _) (fun _ => ?_))
    exact puts_bind (puts_except _) (fun _ => puts_bind (puts_except _) (fun _ => puts_pure _))
  induction events generalizing position with
  | nil => exact puts_except _
  | cons event rest ih =>
      rw [provenEvent]
      split
      · refine puts_bind (hproof _ _) ?_
        rintro ⟨leaf, steps⟩
        show Puts _ (if _ then _ else _)
        split
        · refine puts_bind (puts_except _) (fun proven => ?_)
          split
          · exact puts_pure _
          · exact ih _
        · exact ih _
      · exact ih _

theorem events_puts {height : U64} (h : P (.events height)) : Puts P (events self height) :=
  puts_bind (rpc_puts h rfl rfl) (fun _ => puts_except _)

theorem confirmCallEvent_puts : Puts (ConfirmingEvent txId)
    (QCoreConfirmation.confirmCallEvent self txId contract selector data) := by
  refine puts_bind (inclusion_puts.mono (fun _ => ConfirmingEvent.confirming)) (fun confirmed => ?_)
  refine puts_bind (events_puts ?_) (fun events => provenEvent_puts 0 events)
  exact ConfirmingEvent.events confirmed.header.height

end

/-- A query that a call which asks for the status of a transaction may put. -/
inductive Status (txId : String) : Query → Prop
  | confirming {query : Query} (h : Confirming txId query) : Status txId query
  | reported : Status txId (.transaction txId)

/-- The status of a transaction puts queries about it. -/
theorem transaction_puts {txId : String} :
    Puts (Status txId) (QCoreConfirmation.transaction self txId) := by
  have hconfirming : ∀ {β : Type} {m : ClientM β}, Puts (Confirming txId) m →
      Puts (Status txId) m := fun h => h.mono (fun _ => Status.confirming)
  have hchain : ∀ {β : Type} {m : ClientM β}, Puts Chainwide m → Puts (Status txId) m :=
    fun h => hconfirming (h.mono (fun _ => Confirming.chainwide))
  refine puts_bind (puts_bind (rpc_puts Status.reported rfl rfl) (fun _ => puts_except _)) ?_
  intro status
  split
  · refine puts_bind (hchain anchorPinnedRoster_puts) (fun anchored => ?_)
    split
    · exact puts_bind (hconfirming inclusion_puts) (fun _ => puts_pure _)
    · rw [reportedStatus]
      split
      · exact puts_except _
      · refine puts_bind (hchain nodeInfo_puts) (fun _ => puts_bind (puts_except _) (fun _ => ?_))
        exact puts_pure _
  · exact puts_pure _

/-- A query that a call which proves an account may put. -/
inductive Proving (address : String) : Query → Prop
  | chainwide {query : Query} (h : Chainwide query) : Proving address query
  | proof : Proving address (.accountProof address)

/-- A verified account puts queries about the address. -/
theorem verifiedAccount_puts {AccountLeaf : Type} {accounts : AccountCrates AccountLeaf}
    {address : String} :
    Puts (Proving address) (QCoreAccount.verifiedAccount self accounts address) := by
  have hchain : ∀ {β : Type} {m : ClientM β}, Puts Chainwide m → Puts (Proving address) m :=
    fun h => h.mono (fun _ => Proving.chainwide)
  refine puts_bind (hchain nodeInfo_puts) (fun _ => puts_bind (puts_except _) (fun _ => ?_))
  refine puts_bind (puts_bind (rpc_puts Proving.proof rfl rfl) (fun _ => puts_except _)) ?_
  intro answer
  refine puts_bind (puts_except _) (fun _ => puts_bind (puts_except _) (fun _ => ?_))
  refine puts_bind (hchain rosterForEpoch_puts) (fun _ => puts_bind (puts_except _) ?_)
  rintro ⟨genesis, members⟩
  refine puts_bind (puts_except _) (fun _ => puts_bind (puts_except _) (fun _ => ?_))
  exact puts_bind (puts_except _) (fun _ => puts_except _)

/-! ## Over a run -/

/-- What a call may ask. -/
def Concerns (self : Client) : ClientCall → Query → Prop
  | .sign entry =>
      Signing self (self.crates.accountAddress (accountOf entry).1 (accountOf entry).2)
        (entry.order self)
  | .submit txBytes => fun query => query = .submit txBytes
  | .nodeInfo => fun query => query = .nodeInfo
  | .account address => fun query => query = .account address
  | .storage contract => fun query => query = .storage contract
  | .storageAt contract keys => fun query => query = .storageAt contract keys
  | .contractNonce contract signer =>
      fun query => query = .storageAt contract [nonceSlotKey self.crates.toCrates signer]
  | .contractScalar contract slot =>
      fun query => query = .storageAt contract [self.crates.scalarSlotKey slot]
  | .contractMap contract mapDomainTag key =>
      fun query => query = .storageAt contract [mapSlotKey self.crates.toCrates mapDomainTag key]
  | .assetBalance issuer holder => fun query => query = .assetBalance issuer holder
  | .events height => fun query => query = .events height
  | .confirmInclusion txId _ _ | .confirmInclusionTrusted txId | .confirmTransaction txId _ _
  | .confirmTransactionTrusted txId => Confirming txId
  | .confirmCallEvent txId _ _ _ => ConfirmingEvent txId
  | .transaction txId => Status txId
  | .verifiedAccount address => Proving address

/-- **What a call asks** is what it is about, whatever its gateway answers. -/
theorem call_puts {AccountLeaf : Type} {accounts : AccountCrates AccountLeaf} (call : ClientCall) :
    Puts (Concerns self call) (call.run self accounts) := by
  have hdone : ∀ {α β : Type} {P : Query → Prop} {m : ClientM α} {g : α → β}, Puts P m →
      Puts P (m >>= fun a => (pure (g a) : ClientM β)) :=
    fun h => puts_bind h (fun _ => puts_pure _)
  cases call with
  | sign entry => exact hdone (entry_puts entry)
  | submit txBytes =>
      exact hdone (puts_bind (rpc_puts (Eq.refl (Query.submit txBytes)) rfl rfl)
        (fun _ => puts_except _))
  | nodeInfo =>
      exact hdone (puts_bind (rpc_puts (Eq.refl Query.nodeInfo) rfl rfl) (fun _ => puts_except _))
  | account address => exact hdone (account_puts (Eq.refl (Query.account address)))
  | storage contract =>
      exact hdone (puts_bind (rpc_puts (Eq.refl (Query.storage contract)) rfl rfl)
        (fun _ => puts_except _))
  | storageAt contract keys => exact hdone (storageAt_puts (Eq.refl (Query.storageAt contract keys)))
  | contractNonce | contractScalar | contractMap => exact hdone (slotValue_puts (Eq.refl _))
  | assetBalance issuer holder =>
      refine hdone (puts_bind (puts_except _) (fun _ => puts_bind ?_ (fun _ => ?_)))
      · exact rpc_puts (Eq.refl (Query.assetBalance issuer holder)) rfl rfl
      · exact puts_bind (puts_except _) (fun _ => puts_except _)
  | events height => exact hdone (events_puts (Eq.refl (Query.events height)))
  | confirmInclusion | confirmInclusionTrusted => exact hdone inclusion_puts
  | confirmTransaction | confirmTransactionTrusted =>
      exact hdone (puts_bind inclusion_puts (fun _ => puts_except _))
  | confirmCallEvent => exact hdone confirmCallEvent_puts
  | transaction => exact hdone transaction_puts
  | verifiedAccount => exact hdone verifiedAccount_puts

end

/-- A request that a gateway took from a stream, as a query. -/
def readReceived (received : Received) : Except String Query := do
  let target ← okOr (fromUtf8 received.target) "the path is not text"
  let method ← okOr (stripPrefix "/v1/".toList target.toList) "the path is unknown"
  let body ← okOr (fromUtf8 received.body) "the body is not text"
  readQuery (String.ofList method) body

/-- What arrives is read as the query that was sent. -/
theorem readReceived_carried {r : Request} {query : Query} {received : Received}
    (h : Carries r query) (htarget : received.target = asBytes ("/v1/" ++ r.method))
    (hbody : received.body = asBytes r.body) : readReceived received = .ok query := by
  have hpath : stripPrefix "/v1/".toList ("/v1/" ++ r.method).toList = some r.method.toList := by
    rw [String.toList_append, stripPrefix, if_pos (List.prefix_append _ _),
      List.drop_left]
  rw [readReceived, htarget, hbody, fromUtf8_asBytes, fromUtf8_asBytes]
  refine bind_pass rfl ?_
  rw [hpath]
  refine bind_pass rfl (bind_pass rfl ?_)
  rw [String.ofList_toList]
  exact readQuery_carried h

section

variable {self : Client} {AccountLeaf : Type} {accounts : AccountCrates AccountLeaf}
  {s t : ClientState} {log : List (Done AccountLeaf)} {Addr : Type}

/-- **A gateway is asked what a call is about and nothing else.**  Over any run of
    calls of a client, whatever it is answered, the text of each request is that of one
    query that its call may put, and a strict reader reads that query from it; where the
    request is written to a socket, a gateway reads the query from the stream.  A
    transaction is asked to be taken by a call that signs, and then that call's own
    account signed it, or by a call that was given that very transaction. -/
theorem queries_are_of_calls (net : Nat → Sockets Addr) (h : Run (Calls self accounts) s log t) :
    ∀ done ∈ log, ∀ r ∈ done.requests, ∃ query, Concerns self done.call query
      ∧ r.method = query.method.name ∧ parse r.body = .ok query.json
      ∧ readQuery r.method r.body = .ok query
      ∧ (∀ bytes, Emits (carried net self r) () (.write bytes) → ∃ received,
        readRequest bytes = some (received, []) ∧ readReceived received = .ok query)
      ∧ ∀ txBytes, query = .submit txBytes → HandsSigned self done.call txBytes := by
  intro done hmem r hr
  obtain ⟨u, v, hcall⟩ := run_called h done hmem
  obtain ⟨query, hconcerns, hcarries⟩ := call_puts done.call u r ((call_emits hcall).mpr hr)
  have hparse : parse r.body = .ok query.json := by
    rw [hcarries.2]
    exact parse_query query
  refine ⟨query, hconcerns, hcarries.1, hparse, readQuery_carried hcarries, ?_, ?_⟩
  · intro bytes hwrite
    obtain ⟨host, port, addr, -, -, -, -, hread, -⟩ :=
      post_written (net r.state.turn) self.base ("/v1/" ++ r.method) r.body hwrite
    have hread := hread []
    rw [List.append_nil] at hread
    exact ⟨_, hread, readReceived_carried hcarries rfl rfl⟩
  · rintro txBytes rfl
    obtain ⟨txBytes', hbody, hsigned⟩ := ((call_asked hcall).2 r hr hcarries.1).signed
    -- one text, so one transaction
    cases submitBody_inj (hcarries.2.symm.trans hbody)
    exact hsigned

end

/-- The gateway of the local client reads from its socket that it is to take the
    transaction that the caller's account signed. -/
theorem queries_are_of_calls_at_local : ∃ (r : Request) (bytes : List UInt8) (received : Received)
    (wrapper : Wrapper), Emits (carried localNet portedClient r) () (.write bytes)
      ∧ readRequest bytes = some (received, [])
      ∧ readReceived received = .ok (.submit wrapper.bytes)
      ∧ ∃ body genesis rnd,
        portedClient.crates.trySignHedged (filled 0) 0 body genesis rnd = some wrapper := by
  obtain ⟨t, r, bytes, hrun, hr, hmethod, hwrite⟩ := ported_writes
  obtain ⟨query, -, hname, -, -, hreceived, hsubmit⟩ :=
    queries_are_of_calls localNet hrun _ List.mem_cons_self r hr
  obtain ⟨received, hrequest, hquery⟩ := hreceived bytes hwrite
  have hsubmits : query.method = .submit := by
    have hlookup := Method.ofName_name query.method
    rw [← hname, hmethod] at hlookup
    exact Option.some.inj (hlookup.symm.trans (Method.ofName_name .submit))
  obtain ⟨txBytes, rfl⟩ : ∃ txBytes, query = .submit txBytes := by
    cases query with
    | submit txBytes => exact ⟨txBytes, rfl⟩
    | _ => cases hsubmits
  obtain ⟨body, genesis, rnd, wrapper, hsigned, rfl⟩ := (hsubmit txBytes rfl).of_sign
  exact ⟨r, bytes, received, wrapper, hwrite, hrequest, hquery, body, genesis, rnd, hsigned⟩

end QCoreQuery
