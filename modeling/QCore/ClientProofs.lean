import Mathlib
import QCore.MachineIntProofs
import QCore.ByteMemoryProofs
import QCore.SortedMapProofs
import QCore.FallibleProofs
import QCore.TraceProofs
import QCore.JsonProofs
import QCore.WireProofs
import QCore.SessionProofs
import QCore.CratesProofs
import QCore.ContractProofs
import QCore.CertificateProofs
import QCore.FinalityProofs
import QCore.RosterProofs

/-! # The client and its gateway

    A client is how it was opened and what it reaches: a transport, a clock, a
    random source and a hook to save with.  None of them is trusted.  Each may
    answer anything at each turn, so a statement about every client is one about
    every sequence of answers.

    What a client changes is its state: the chain it pinned, its address book,
    the rosters it trusts, and the signing session that all clients of a process
    share.  Every request is an event that records the state it was made in. -/

namespace QCoreClient

open QCoreMachineInt QCoreByteMemory QCoreSortedMap QCoreFallible QCoreTrace QCoreTrace.Traced
  QCoreJson QCoreWire
  QCoreSession QCoreCrates QCoreContract QCoreCertificate QCoreFinality QCoreRoster

/-! ## Networks -/

/-- What a client knows of its network beforehand. -/
structure Network where
  name : String
  chainId : Option String
  isMainnet : Bool
  genesisHash : Option (Bytes 32)
  rosterCommitment : Option (Bytes 32)
  epochLength : Option U64
  genesisSecs : Option U64
  blocksPerSec : Option U64

/-- A clock that bounds the height of a chain. -/
structure ChainClock where
  genesisSecs : U64
  blocksPerSec : U64

/-- How far a head may be ahead of a clock, in blocks. -/
def headSlackBlocks : U64 := 240

/-- The fastest that a chain may be. -/
def maxBlocksPerSec : U64 := 1000

/-- When the test network began. -/
def testnetGenesisSecs : U64 := 1793761285

/-- How many blocks it makes in a second. -/
def testnetBlocksPerSec : U64 := 10

/-- Where it is served. -/
def testnetRpcUrl : String := "https://q-testnet-1-1.quantova.org"

/-- Hosts that served an earlier network. -/
def retiredRpcHosts : List String :=
  ["rpc-testnet.quantova.org", "q-test-net-0001.quantova.org", "test-net-0-1.quantova.org",
    "q-testnet-1.quantova.org"]

/-- A clock with a rate that is in bounds. -/
def ChainClock.new (genesisSecs blocksPerSec : U64) : Except String ChainClock := do
  refuseIf (blocksPerSec = 0 ∨ maxBlocksPerSec < blocksPerSec)
    s!"a block rate is from 1 to {maxBlocksPerSec} blocks per second, not {blocksPerSec}"
  return { genesisSecs, blocksPerSec }

/-- The highest head a chain can have reached at a time. -/
def ChainClock.headCeiling (clock : ChainClock) (wallSecs : U64) : U64 :=
  saturatingAdd (saturatingMul (saturatingSub wallSecs clock.genesisSecs) clock.blocksPerSec)
    headSlackBlocks

/-- The clock of a network that names one, both its time and its rate. -/
def Network.clock (network : Network) : Except String (Option ChainClock) :=
  match network.genesisSecs, network.blocksPerSec with
  | some genesisSecs, some blocksPerSec => (ChainClock.new genesisSecs blocksPerSec).map some
  | none, none => .ok none
  | _, _ => .error s!"the {network.name} network names a genesis time or a block rate but not both, set both or neither"

/-- The clock of a chain that is known by its name. -/
def knownClock (chainName : String) : Option ChainClock :=
  if chainName = testnetChainName then some ⟨testnetGenesisSecs, testnetBlocksPerSec⟩ else none

/-! ## Endpoints -/

/-- What follows the scheme of an endpoint, if it has one. -/
def afterScheme : List Char → Option (List Char)
  | ':' :: '/' :: '/' :: rest => some rest
  | _ :: rest => afterScheme rest
  | [] => none

/-- The characters that end the authority of an endpoint. -/
def endsAuthority (c : Char) : Bool := c == '/' || c == '?' || c == '#'

/-- The host an endpoint names, as it is compared. -/
def endpointHost (base : String) : String :=
  let rest := (afterScheme base.toList).getD base.toList
  let authority := rest.takeWhile (fun c => !endsAuthority c)
  let hostPort := (authority.reverse.takeWhile (· ≠ '@')).reverse
  let host := if hostPort.head? = some '[' then hostPort else hostPort.takeWhile (· ≠ ':')
  String.ofList ((host.reverse.dropWhile (· = '.')).reverse.map Char.toLower)

/-- The host of an endpoint is not a retired one. -/
def checkEndpoint (base : String) : Except String Unit :=
  refuseIf (endpointHost base ∈ retiredRpcHosts)
    s!"the endpoint {shown (endpointHost base)} served the retired Q-test-net-1 network, refusing to use it, the testnet is served at {testnetRpcUrl}"

/-! ## Chain names -/

section

variable (crates : Crates)

/-- The id of a chain by its name, which is short, visible and not retired. -/
def checkedChainId (name : String) : Except String U64 := do
  refuseIf (name = "") "a chain name is required to derive a chain id"
  refuseIf (name ∈ retiredChainNames)
    s!"the chain name {shown name} belonged to an earlier network and is retired, refusing to sign for it"
  refuseIf (64 < (asBytes name).length ∨ ¬ (asBytes name).all (fun b => 0x21 ≤ b && b ≤ 0x7e))
    "a chain name is up to 64 visible ASCII characters"
  return crates.chainIdFromName name

/-- Whether a chain is a main network by its name. -/
def isMainnetChain (name : String) : Bool :=
  "Q-main-net-".isPrefixOf name || crates.chainIdFromName name == crates.mainnetChainId

/-- Whether a chain is public by its name. -/
def isPublicChain (name : String) : Bool :=
  "Q-test-net-".isPrefixOf name || crates.chainIdFromName name == testnetChainId crates
    || isMainnetChain crates name

end

/-- The genesis that a gateway reports. -/
def parseGenesis (info : NodeInfo) : Except String (Bytes 32) :=
  let refusal := "the gateway reports a genesis hash that is not 32 bytes of hex, refusing to sign"
  match fromHex info.genesisHash with
  | .ok bytes => exactly 32 bytes refusal
  | .error _ => .error refusal

/-! ## The client -/

/-- The rosters a client trusts: a genesis hash and rosters by epoch. -/
abbrev TrustedRosters := Bytes 32 × SortedMap U64 (List RosterMember)

/-- What changes in a client from call to call. -/
structure ClientState where
  /-- How often the client has turned to what it reaches. -/
  turn : Nat
  pinnedChain : Option String
  /-- The client's own address book. -/
  session : SigningSession
  trustedRoster : Option TrustedRosters
  /-- The signing session of the process. -/
  shared : SigningSession

/-- A request to the gateway and the state it was made in. -/
structure Request where
  method : String
  body : String
  state : ClientState

/-- What a client is made with. -/
structure Client where
  crates : TxCrates
  chain : Chain
  base : String
  network : Network
  acknowledgeMainnet : Bool
  /-- The answer at a turn: a status and a text. -/
  transport : Nat → Except String (U64 × String)
  /-- The seconds since 1970 at a turn, none before. -/
  clock : Nat → Option U64
  /-- What the random source fills at a turn. -/
  entropy : Nat → Option (Bytes 32)
  onSigned : Option (Nat → String → Except String Unit)

/-- A computation of a client: what it asks its gateway is its events. -/
abbrev ClientM := Traced ClientState Request String

namespace Client

variable (self : Client)

/-- Turn to something outside. -/
def reach {α : Type} (answer : Nat → α) : ClientM α :=
  step (fun s => (.ok (answer s.turn), { s with turn := s.turn + 1 }))

/-- A request, and the answer to it. -/
def post (method body : String) : ClientM (U64 × String) := do
  emit (fun s => { method, body, state := s })
  let answer ← reach self.transport
  answer

/-- A request whose answer is checked for its status and its length. -/
def rpc (method body : String) : ClientM String := do
  checkEndpoint self.base
  let (status, text) ← self.post method body
  refuseIf (responseCap method < (asBytes text).length)
    s!"the gateway answered {method} with {(asBytes text).length} bytes, above the {responseCap method} bytes that answer can need, refusing to read it"
  refuseIf (status ≠ 200) s!"the gateway returned {status}: {shown text}"
  return text

/-- What a gateway reports of its chain. -/
def nodeInfo : ClientM NodeInfo := do
  let text ← self.rpc "node_info" "\x7b\x7d"
  parseNodeInfo text

/-- What it reports of an account. -/
def account (address : String) : ClientM Account := do
  let text ← self.rpc "get_account" (accountBody address)
  let account ← parseAccount text
  refuseIf (account.address ≠ address)
    s!"the gateway answered for {shown account.address} when asked about {address}, refusing to trust it"
  return account

/-- Hand a transaction over. -/
def submit (txBytes : List UInt8) : ClientM Submit := do
  let text ← self.rpc "submit_transaction" (submitBody txBytes)
  parseSubmit text

/-- What it reports of a transaction. -/
def transactionReported (txId : String) : ClientM TxStatus := do
  let text ← self.rpc "get_transaction" (transactionBody txId)
  parseTransaction text

end Client

/-! ## What asking changes -/

/-- Nothing has changed but the number of turns. -/
def Later (s s' : ClientState) : Prop := ∃ turn, s' = { s with turn := turn }

instance : Std.Refl Later := ⟨fun s => ⟨s.turn, rfl⟩⟩

instance : IsTrans ClientState Later := ⟨by
  rintro s _ _ ⟨turn, rfl⟩ ⟨turn', rfl⟩
  exact ⟨turn', rfl⟩⟩

/-- A request that hands a transaction over. -/
def Request.Submits (r : Request) : Prop := r.method = "submit_transaction"

namespace Client

variable {self : Client}

/-- A computation that asks the gateway and hands no transaction over. -/
abbrev Asks {α : Type} (m : ClientM α) : Prop := Within Later Request.Submits m

theorem reach_asks {α : Type} (answer : Nat → α) : Asks (reach answer) :=
  within_step (fun s => ⟨s.turn + 1, rfl⟩)

/-- A request to any other method hands no transaction over. -/
theorem rpc_asks {method : String} (hmethod : method ≠ "submit_transaction") (body : String) :
    Asks (self.rpc method body) := by
  refine within_bind (within_ofExcept _) (fun _ => within_bind ?_ ?_)
  · refine within_bind ⟨fun s => ⟨s.turn, rfl⟩, ?_⟩ (fun _ =>
      within_bind (reach_asks _) (fun answer => within_ofExcept answer))
    intro s e he
    cases List.mem_singleton.mp he
    exact hmethod
  · rintro ⟨status, text⟩
    exact within_bind (within_ofExcept _) (fun _ =>
      within_bind (within_ofExcept _) (fun _ => within_pure _))

/-- What a result is made into in the end sends nothing. -/
theorem emits_map {α β : Type} {m : ClientM α} {g : α → β} {s : ClientState} {r : Request}
    (h : Emits (m >>= fun a => (pure (g a) : ClientM β)) s r) : Emits m s r := by
  rcases emits_bind h with h | ⟨a, t, -, h⟩
  · exact h
  · exact absurd h List.not_mem_nil

/-- Nor does it change how often a request of a kind is sent. -/
theorem once_of_map {α β : Type} {P : Request → Prop} [DecidablePred P] {m : ClientM α} {g : α → β}
    (h : Once P (m >>= fun a => (pure (g a) : ClientM β))) : Once P m := by
  intro s
  have hs := h s
  rw [OnceAt, bind_run] at hs
  rw [OnceAt]
  cases hresult : (m s).result with
  | error e =>
      rw [hresult] at hs
      exact hs
  | ok a =>
      rw [hresult] at hs
      rw [List.countP_append] at hs
      exact Nat.le_trans (Nat.le_add_right _ _) hs

theorem nodeInfo_asks : Asks self.nodeInfo :=
  within_bind (rpc_asks (by decide) _) (fun _ => within_ofExcept _)

theorem account_asks (address : String) : Asks (self.account address) :=
  within_bind (rpc_asks (by decide) _) (fun _ => within_bind (within_ofExcept _) (fun _ =>
    within_bind (within_ofExcept _) (fun _ => within_pure _)))

/-- An answer that is not too long is what a client is told. -/
theorem rpc_answers {method body text : String} {s : ClientState}
    (hbase : checkEndpoint self.base = .ok ()) (htext : self.transport s.turn = .ok (200, text))
    (hlen : (asBytes text).length ≤ responseCap method) :
    Gives (self.rpc method body) s text { s with turn := s.turn + 1 } := by
  have hpost : Gives (self.post method body) s (200, text) { s with turn := s.turn + 1 } :=
    bind_gives (m := emit _) ⟨rfl, rfl⟩ (bind_gives (m := reach _) ⟨rfl, rfl⟩ (ofExcept_gives htext))
  refine bind_gives (ofExcept_gives hbase) (bind_gives hpost ?_)
  exact bind_gives (ofExcept_gives (if_neg (not_lt.mpr hlen)))
    (bind_gives (ofExcept_gives (if_neg (not_not.mpr rfl))) ⟨rfl, rfl⟩)

/-- An answer of another status is none. -/
theorem rpc_refuses {method body text : String} {status : U64} {s : ClientState}
    (hbase : checkEndpoint self.base = .ok ())
    (htext : self.transport s.turn = .ok (status, text))
    (hlen : (asBytes text).length ≤ responseCap method) (hstatus : status ≠ 200) :
    Refuses (self.rpc method body) s s!"the gateway returned {status}: {shown text}"
      { s with turn := s.turn + 1 } := by
  have hpost : Gives (self.post method body) s (status, text) { s with turn := s.turn + 1 } :=
    bind_gives (m := emit _) ⟨rfl, rfl⟩ (bind_gives (m := reach _) ⟨rfl, rfl⟩ (ofExcept_gives htext))
  refine bind_refuses (ofExcept_gives hbase) (bind_refuses hpost ?_)
  exact bind_refuses (ofExcept_gives (if_neg (not_lt.mpr hlen)))
    (bind_refuses_first ⟨if_pos hstatus, rfl⟩)

/-- What a client is told was answered by the transport. -/
theorem rpc_gives {method body text : String} {s s' : ClientState}
    (h : Gives (self.rpc method body) s text s') :
    self.transport s.turn = .ok (200, text) ∧ s' = { s with turn := s.turn + 1 } := by
  obtain ⟨_, -, h⟩ := gives_value h
  obtain ⟨⟨status, answer⟩, t, hpost, h⟩ := gives_bind h
  obtain ⟨-, h⟩ := gives_guard h
  obtain ⟨hstatus, h⟩ := gives_guard h
  obtain ⟨rfl, rfl⟩ := gives_pure h
  obtain ⟨_, t, hemit, hpost⟩ := gives_bind hpost
  obtain ⟨reached, t', hreach, hpost⟩ := gives_bind hpost
  obtain ⟨hanswer, rfl⟩ := gives_ofExcept hpost
  obtain ⟨-, rfl⟩ := hemit
  obtain ⟨hreached, rfl⟩ := hreach
  cases hreached
  rw [← not_not.mp hstatus]
  exact ⟨hanswer, rfl⟩

/-- It was an answer to a request. -/
theorem rpc_givesBy {asked : Request → Prop} {method body text : String} {s s' : ClientState}
    (h : GivesBy asked (self.rpc method body) s text s') :
    ∃ r, asked r ∧ self.transport r.state.turn = .ok (200, text) := by
  obtain ⟨htext, -⟩ := rpc_gives h.1
  obtain ⟨_, -, h⟩ := givesBy_value h
  obtain ⟨answer, t, hpost, -⟩ := givesBy_bind h
  obtain ⟨_, t, hemit, -⟩ := givesBy_bind hpost
  exact ⟨{ method, body, state := s }, hemit.2 _ (List.mem_singleton.mpr rfl), htext⟩

theorem nodeInfo_gives {info : NodeInfo} {s s' : ClientState} (h : Gives self.nodeInfo s info s') :
    ∃ text, self.transport s.turn = .ok (200, text) ∧ parseNodeInfo text = .ok info := by
  obtain ⟨text, t, htext, h⟩ := gives_bind h
  exact ⟨text, (rpc_gives htext).1, (gives_ofExcept h).1⟩

end Client

end QCoreClient
