import Mathlib
import QCore.MachineIntProofs
import QCore.ByteMemoryProofs
import QCore.FallibleProofs
import QCore.TraceProofs
import QCore.JsonProofs
import QCore.WireProofs
import QCore.SessionProofs
import QCore.SessionSpentProofs
import QCore.CratesProofs
import QCore.AddressProofs
import QCore.ContractProofs
import QCore.CertificateProofs
import QCore.FinalitySafetyProofs
import QCore.ClientProofs
import QCore.RosterRunProofs
import QCore.ConfirmationProofs
import QCore.SigningProofs
import QCore.EntryPointProofs
import QCore.SubmissionProofs
import QCore.EntryRunProofs
import QCore.EntryStepProofs
import QCore.ClientRunProofs
import QCore.MnemonicProofs
import QCore.MnemonicRoundTripProofs
import QCore.HttpRequestProofs

/-! # The terminal

    A run of the terminal is one command.  It takes its options from wherever they
    stand among the words, reads a seed from where a word says, opens a client, loads
    the session file, signs, and saves the session twice: through the client's hook
    before anything is handed over, and once more at the end, whatever came of the
    rest.

    A run reaches the environment, the file system and a gateway, and each of them
    may answer anything.  What is handed over is nevertheless what the words say
    (`terminal_hands_over_what_was_typed`), and by then the session file holds the
    nonce that was signed. -/

namespace QCoreTerminal

open QCoreMachineInt QCoreByteMemory QCoreFallible QCoreTrace QCoreTrace.Traced QCoreJson QCoreWire
  QCoreSession QCoreSession.SigningSession QCoreCrates QCoreAddress QCoreContract QCoreCertificate
  QCoreFinalitySafety QCoreClient QCoreClient.Client QCoreRosterRun QCoreConfirmation QCoreSigning
  QCoreEntryPoint QCoreSubmission QCoreEntryStep QCoreMnemonic QCoreMnemonicRoundTrip QCoreHttpRequest
  QCoreTrust QCoreHead QCoreClientRun
open QCoreEntryRun (Entry)

/-! ## Networks and clients -/

/-- The genesis that the test network is pinned to. -/
def testnetGenesisHash : Bytes 32 :=
  ⟨[0xeb, 0x6a, 0x54, 0xc9, 0xd4, 0xda, 0xf6, 0xa8, 0x60, 0x9c, 0x0f, 0xd9, 0xc2, 0x5e, 0x33, 0x9a,
    0x59, 0xcb, 0x26, 0x96, 0x46, 0xfb, 0xf5, 0x36, 0x79, 0xef, 0xa5, 0x8a, 0x0d, 0x15, 0xc7, 0xc8],
    rfl⟩

/-- The commitment to its first roster. -/
def testnetRosterCommitment : Bytes 32 :=
  ⟨[0x08, 0x71, 0x15, 0xea, 0x12, 0x24, 0x24, 0x76, 0xf7, 0xe7, 0xb6, 0x53, 0x7e, 0xbe, 0xcf, 0x5d,
    0x1b, 0x30, 0x42, 0x27, 0xae, 0x0d, 0x29, 0x8c, 0x83, 0x1e, 0x29, 0xcd, 0xe2, 0x5d, 0x30, 0x34],
    rfl⟩

/-- The test network: everything about it is pinned. -/
def testnet : Network where
  name := "testnet"
  chainId := some testnetChainName
  isMainnet := false
  genesisHash := some testnetGenesisHash
  rosterCommitment := some testnetRosterCommitment
  epochLength := some 65536
  genesisSecs := some testnetGenesisSecs
  blocksPerSec := some testnetBlocksPerSec

/-- The main network: its genesis and its roster are not known yet. -/
def mainnet : Network where
  name := "mainnet"
  chainId := some "Q-main-net-1"
  isMainnet := true
  genesisHash := mainnetGenesisHash
  rosterCommitment := none
  epochLength := none
  genesisSecs := none
  blocksPerSec := none

/-- The network of an endpoint that was not named. -/
def forUrl : Network where
  name := "custom"
  chainId := none
  isMainnet := false
  genesisHash := none
  rosterCommitment := none
  epochLength := none
  genesisSecs := none
  blocksPerSec := none

/-- An endpoint without the slashes at its end. -/
def normalizeBase (base : String) : String :=
  String.ofList (base.toList.reverse.dropWhile (· = '/')).reverse

/-! ## What a run reaches -/

/-- Why a file was not read. -/
inductive ReadFailure
  | notFound
  | other (message : String)

/-- A file with a seed: its mode and what its reads give. -/
structure SeedFile where
  mode : Except String UInt32
  read : Nat → Except String (List UInt8)

/-- What a run of the terminal reaches: the environment, the file system, the standard
    input, a gateway, a clock and the random sources, each of which may answer anything.
    -/
structure Machine where
  crates : TxCrates
  chain : Chain
  words : WordList
  env : String → Option String
  readToString : String → Except ReadFailure String
  parent : String → Option String
  /-- A path with another extension. -/
  withExtension : String → String → String
  createDirAll : Nat → String → Except String Unit
  openForWriting : Nat → String → Except String Unit
  writeAndSync : Nat → String → String → Except String Unit
  rename : Nat → String → String → Except String Unit
  openSeed : String → Except String SeedFile
  stdin : Nat → Except String (List UInt8)
  transport : Nat → Except String (U64 × String)
  clock : Nat → Option U64
  entropy : Nat → Option (Bytes 32)
  /-- What the operating system fills a new seed with. -/
  freshSeed : Option (Bytes seedLen)

/-! ## Words and options -/

/-- Whether a flag stands among the words, and the words without it. -/
def takeFlag (args : List String) (flag : String) : Bool × List String :=
  (args.any (· == flag), args.filter (· != flag))

/-- A word as a whole number. -/
def wholeArg {n : Nat} (text message : String) : Except String (Fin n) :=
  okOr ((wholeNumber text).bind (fun v => tryFrom n v.val)) message

/-- The last value of an option and the words around it. -/
def takeValues (flag : String) :
    Option U64 → List String → List String → Except String (Option U64 × List String)
  | value, kept, [] => .ok (value, kept)
  | value, kept, arg :: rest =>
      if arg = flag then
        match rest with
        | [] => .error s!"{flag} needs a value"
        | text :: rest => do
            let n ← wholeArg text s!"{flag} is not a number"
            takeValues flag (some n) kept rest
      else takeValues flag value (kept ++ [arg]) rest

/-- The value behind a flag, and the words without both. -/
def takeValue (args : List String) (flag : String) : Except String (Option U64 × List String) :=
  takeValues flag none [] args

/-- The genesis time and the block rate of a chain, when they are given. -/
abbrev Clock := Option (U64 × U64)

/-- Both are given or neither is. -/
def takeClock (args : List String) : Except String (Clock × List String) := do
  let (genesis, args) ← takeValue args "--genesis-time"
  let (rate, args) ← takeValue args "--block-rate"
  match genesis, rate with
  | some genesis, some rate => return (some (genesis, rate), args)
  | none, none => return (none, args)
  | _, _ => throw "--genesis-time and --block-rate go together"

/-- What a signing command is given: its options, and the words that are left. -/
structure Options where
  mainnet : Bool
  testnet : Bool
  acknowledged : Bool
  argv : Bool
  clock : Clock
  words : List String

/-- What the flags of a command say, and its other words. -/
def takeOptions (args : List String) : Except String Options := do
  let (mainnet, args) := takeFlag args "--mainnet"
  let (testnet, args) := takeFlag args "--testnet"
  let (acknowledged, args) := takeFlag args "--acknowledge-mainnet"
  let (argv, args) := takeFlag args "--insecure-argv"
  let (clock, words) ← takeClock args
  return { mainnet, testnet, acknowledged, argv, clock, words }

/-- The index of an account, zero when none is named. -/
def parseIndex (arg : Option String) : Except String U64 :=
  match arg with
  | some value => wholeArg value "the index is not a number"
  | none => .ok 0

/-! ## Seeds -/

/-- The most bytes a seed source may have. -/
def seedBuffer : Nat := 64 * 1024

/-- A seed source that is all there, if it is not too long. -/
def copyInto (bytes : List UInt8) : Except String (List UInt8) := do
  refuseIf (seedBuffer < bytes.length) "the seed source is too long"
  return bytes

/-- Read until a line ends, half of the buffer is full or nothing is left.  Each
    read adds a byte, and no more than there is room for. -/
def readInto (read : Nat → Except String (List UInt8)) :
    Nat → Nat → List UInt8 → Except String (List UInt8)
  | 0, _, raw => .ok raw
  | fuel + 1, turn, raw =>
      if seedBuffer / 2 ≤ raw.length then .ok raw
      else do
        let bytes ← read turn
        let bytes := bytes.take (seedBuffer - raw.length)
        if bytes = [] then return raw
        else if 10 ∈ raw ++ bytes then return raw ++ bytes
        else readInto read fuel (turn + 1) (raw ++ bytes)

/-- A seed source that is read piece by piece. -/
def readWhole (read : Nat → Except String (List UInt8)) : Except String (List UInt8) :=
  readInto read (seedBuffer / 2) 0 []

/-- White space among the ASCII bytes. -/
def isAsciiWhitespace (b : UInt8) : Bool := b == 32 || b == 9 || b == 10 || b == 12 || b == 13

/-- Bytes without the white space around them. -/
def trimAscii (bytes : List UInt8) : List UInt8 :=
  ((bytes.dropWhile isAsciiWhitespace).reverse.dropWhile isAsciiWhitespace).reverse

/-- A digit of a seed. -/
def isHexDigit (b : UInt8) : Bool :=
  (0x30 ≤ b && b ≤ 0x39) || (0x41 ≤ b && b ≤ 0x46) || (0x61 ≤ b && b ≤ 0x66)

/-- What a digit stands for. -/
def digitValue (b : UInt8) : UInt8 :=
  if 0x30 ≤ b ∧ b ≤ 0x39 then b - 0x30
  else if 0x41 ≤ b ∧ b ≤ 0x46 then b - 0x37
  else if 0x61 ≤ b ∧ b ≤ 0x66 then b - 0x57
  else 0

/-- Digits as bytes, two by two. -/
def digitPairs : List UInt8 → List UInt8
  | hi :: lo :: rest => ((digitValue hi <<< 4) ||| digitValue lo) :: digitPairs rest
  | _ => []

/-- A seed is sixty four hex characters, with white space around them at most. -/
def parseSeedBytes (raw : List UInt8) : Except String (Bytes seedLen) := do
  let hex := trimAscii raw
  refuseIf (hex.length ≠ 64 ∨ hex.all isHexDigit = false) "a seed is sixty four hex characters"
  exactly seedLen (digitPairs hex) "a seed is sixty four hex characters"

section

variable (m : Machine)

/-- A seed file is read only if nobody but its owner may read it. -/
def openSeedFile (path : String) : Except String SeedFile := do
  let file ← (m.openSeed path).mapError (fun e => s!"opening the seed file {path}: {e}")
  let mode ← file.mode.mapError (fun e => s!"inspecting the seed file {path}: {e}")
  refuseIf (mode &&& 0o077 ≠ 0)
    s!"the seed file {path} is readable by group or others, restrict it with chmod 600 before use"
  return file

/-- Where a word says the seed is: the environment, a file, the standard input, or the
    word itself when the caller insists. -/
def seedBytes (source : String) (insecureArgv : Bool) : Except String (List UInt8) :=
  match stripPrefix "env:".toList source.toList, stripPrefix ['@'] source.toList with
  | some var, _ => do
      let var := String.ofList var
      let value ← okOr (m.env var) s!"the environment variable {var} is not set"
      copyInto (asBytes value)
  | none, some path => do
      let path := String.ofList path
      let file ← openSeedFile m path
      (readWhole file.read).mapError (fun e => s!"reading the seed file {path}: {e}")
  | none, none =>
      if source = "-" then
        (readWhole m.stdin).mapError (fun e => s!"reading the seed from stdin: {e}")
      else do
        refuseIf (!insecureArgv)
          "a seed on the command line is visible to other users through the process list and shell history; pass it as @file, - for stdin, or env:VAR, or repeat the command with --insecure-argv"
        copyInto (asBytes source)

/-- The seed that a word leads to. -/
def readSeed (source : String) (insecureArgv : Bool) : Except String (Bytes seedLen) := do
  let raw ← seedBytes m source insecureArgv
  parseSeedBytes raw

/-! ## The session file -/

/-- A path below a directory. -/
def joinPath (directory name : String) : String :=
  if directory = "" ∨ directory.toList.getLast? = some '/' then directory ++ name
  else directory ++ "/" ++ name

/-- Where the session is kept: where the environment says, or under the home directory.
    -/
def sessionPath : Option String :=
  match m.env "QCORE_SESSION" with
  | some path => some path
  | none => (m.env "HOME").map (fun home => joinPath (joinPath home ".qcore") "session.json")

/-- Write beside the session file and rename over it. -/
def writeSession (turn : Nat) (state : String) : Except String Unit := do
  let path ← okOr (sessionPath m)
    "no HOME or QCORE_SESSION to keep the signing session in, refusing to forget the nonces this run signed"
  match m.parent path with
  | some dir => (m.createDirAll turn dir).mapError (fun e => s!"creating {dir}: {e}")
  | none => .ok ()
  let temp := m.withExtension path "tmp"
  (m.openForWriting turn temp).mapError (fun e => s!"writing the signing session {temp}: {e}")
  (m.writeAndSync turn temp state).mapError (fun e => s!"writing the signing session {temp}: {e}")
  (m.rename turn temp path).mapError (fun e => s!"keeping the signing session {path}: {e}")

/-- Take a saved session into the one of this run. -/
def restoreSession (path state : String) : ClientM Unit :=
  step (fun s =>
    let (answer, shared) := s.shared.importState state
    (answer.mapError (fun e => s!"the saved signing session {path} is unreadable: {e}"),
      { s with shared }))

/-- Start from the session file, if there is one. -/
def loadSession : ClientM Unit :=
  match sessionPath m with
  | none => pure ()
  | some path =>
      match m.readToString path with
      | .ok state => restoreSession path state
      | .error .notFound => pure ()
      | .error (.other e) =>
          liftM (Except.error s!"reading the signing session {path}: {e}" : Except String Unit)

/-- Leave the session in its file. -/
def saveSession : ClientM Unit := do
  let s ← read
  let saved ← reach (fun turn => writeSession m turn s.shared.exportState)
  saved

/-- A gateway that reports another transaction than the one signed is not believed. -/
def sameTx (signed reported : String) : Except String Unit :=
  refuseIf (signed ≠ reported)
    s!"the gateway accepted {shown reported} but this run signed {signed}, do not trust its answer and check {signed} on another gateway"

/-! ## Commands -/

/-- A client on the built-in transport. -/
def openClient (base : String) (network : Network) (acknowledgeMainnet : Bool) : Client where
  crates := m.crates
  chain := m.chain
  base := normalizeBase base
  network := network
  acknowledgeMainnet := acknowledgeMainnet
  transport := m.transport
  clock := m.clock
  entropy := m.entropy
  onSigned := none

/-- A client of an endpoint, with the network of that endpoint. -/
def newClient (base : String) : Client := openClient m base forUrl false

/-- A client whose network has a clock. -/
def withChainClock (self : Client) (genesisSecs blocksPerSec : U64) : Client :=
  { self with
    network := { self.network with
      genesisSecs := some genesisSecs, blocksPerSec := some blocksPerSec } }

/-- The client that the flags of a command choose, which saves the session before it
    hands anything over. -/
def buildClient (gateway : String) (mainnetChosen acknowledged testnetChosen : Bool)
    (clock : Clock) : Except String Client := do
  refuseIf (mainnetChosen && !acknowledged)
    "--mainnet moves real value; pass --acknowledge-mainnet as well to sign for it"
  let client :=
    if mainnetChosen then openClient m gateway mainnet true
    else if testnetChosen then openClient m gateway testnet false
    else newClient m gateway
  let client := { client with onSigned := some (writeSession m) }
  return match clock with
    | some (genesis, rate) => withChainClock client genesis rate
    | none => client

/-- A new wallet. -/
def cmdNew : Except String (List String) := do
  let seed ← okOr m.freshSeed "the operating system random source is unavailable"
  return ["seed    " ++ toHex seed.val,
    "phrase  " ++ mnemonicFromSeed m.crates.toCrates m.words seed,
    "address " ++ m.crates.accountAddress seed 0, "",
    "Keep the seed and the phrase secret. The phrase is the only backup of this key."]

/-- The seed and the index that a command about an account names. -/
def namedAccount (args : List String) (usage : String) : Except String (Bytes seedLen × U64) := do
  let (argv, args) := takeFlag args "--insecure-argv"
  let source ← okOr args.head? usage
  let seed ← readSeed m source argv
  let index ← parseIndex args[1]?
  return (seed, index)

/-- The address of a seed and an index. -/
def cmdAddress (args : List String) : Except String (List String) := do
  let (seed, index) ← namedAccount m args "usage: qcore address <seed> [index]"
  return [m.crates.accountAddress seed index]

/-- Its public key. -/
def cmdPubkey (args : List String) : Except String (List String) := do
  let (seed, index) ← namedAccount m args "usage: qcore pubkey <seed> [index]"
  return ["scheme  1", "pubkey  " ++ toHex (m.crates.accountPublicKey seed index),
    "address " ++ m.crates.accountAddress seed index]

/-- What a gateway reports of its chain. -/
def cmdInfo (args : List String) : ClientM (List String) := do
  let gateway ← okOr args.head? "usage: qcore info <gateway-url>"
  let info ← (newClient m gateway).nodeInfo
  return [s!"chain   {shown info.chainId}", s!"height  {info.headHeight}",
    s!"fee     {info.transferFee} {shown info.denomination}", s!"version {shown info.version}"]

/-- What a gateway reports of an account. -/
def cmdBalance (args : List String) : ClientM (List String) := do
  let gateway ← okOr args.head? "usage: qcore balance <gateway-url> <address>"
  let address ← okOr args[1]? "usage: qcore balance <gateway-url> <address>"
  refuseIf (¬ validAddress m.crates.toCrates address) "the address is not a Q1 address"
  let account ← (newClient m gateway).account address
  return [s!"address {shown account.address}", s!"balance {account.balance}",
    s!"nonce   {account.nonce}"]

/-- Load the session, sign and hand over, and save the session in any case. -/
def inSession (call : ClientM (SignedTransfer × Submit)) : ClientM (SignedTransfer × Submit) := do
  loadSession m
  let result ← attempt call
  saveSession m
  result

/-- Report what the gateway made of a transaction, under the id that was signed. -/
def reportOutcome (accepted stateLine : String → String) (rejected : String → String → String)
    (answer : SignedTransfer × Submit) : Except String (List String) :=
  match answer.2 with
  | .accepted state txId => do
      sameTx answer.1.txId txId
      return [accepted answer.1.txId, stateLine (shown state)]
  | .rejected reason _ _ => throw (rejected answer.1.txId (shown reason))

/-- Register the key of a funded account. -/
def cmdRegister (args : List String) : ClientM (List String) := do
  let options ← takeOptions args
  match options.words with
  | gateway :: source :: maxFee :: _ => do
      let seed ← readSeed m source options.argv
      let maxFee ← wholeArg maxFee "the max fee is not a number"
      let client ← buildClient m gateway options.mainnet options.acknowledged options.testnet
        options.clock
      let answer ← inSession m (registerExpecting client seed 0 maxFee none)
      reportOutcome (fun txId => s!"registered {txId}") (fun state => s!"state      {state}")
        (fun txId reason => s!"the node rejected the registration {txId}: {reason}") answer
  | _ => ofExcept (.error "usage: qcore register [--mainnet|--testnet] <gateway-url> <seed-hex> <max-fee>")

/-- Send an amount to a recipient. -/
def cmdSend (args : List String) : ClientM (List String) := do
  let options ← takeOptions args
  match options.words with
  | gateway :: source :: recipient :: amount :: maxFee :: _ => do
      let seed ← readSeed m source options.argv
      let amount ← wholeArg amount "the amount is not a number"
      let maxFee ← wholeArg maxFee "the max fee is not a number"
      let client ← buildClient m gateway options.mainnet options.acknowledged options.testnet
        options.clock
      let answer ← inSession m (transferExpecting client seed 0 recipient amount maxFee none)
      reportOutcome (fun txId => s!"submitted {txId}") (fun state => s!"state     {state}")
        (fun txId reason => s!"the node rejected the transfer {txId}: {reason}") answer
  | _ =>
      ofExcept (.error "usage: qcore send [--mainnet|--testnet] <gateway-url> <seed-hex> <to> <amount> <max-fee>")

/-- What a gateway reports of a transaction. -/
def cmdStatus (args : List String) : ClientM (List String) := do
  let gateway ← okOr args.head? "usage: qcore status <gateway-url> <tx-id>"
  let txId ← okOr args[1]? "usage: qcore status <gateway-url> <tx-id>"
  let status ← transaction (newClient m gateway) txId
  match status with
  | .finalised height (some block) =>
      return [s!"finalised at height {height} in block {shown block}"]
  | .finalised height none => return [s!"finalised at height {height}"]
  | .included height _ =>
      return [s!"included at height {height}, a contract call whose outcome is shown only by its event, check it with confirm_call_event"]
  | .unverified height _ =>
      ofExcept (.error s!"UNVERIFIED, the gateway alone reports it finalised at height {height}; no trusted validator roster checked it")
  | .pending => return ["pending"]
  | .unknown => return ["unknown"]

/-- The text that a run without a command prints. -/
def printUsage : List String :=
  ["qcore, the Quantova terminal client",
    "",
    "usage",
    "  qcore new                                             create a wallet, seed, phrase, and address",
    "  qcore address <seed-hex> [index]                      the address for a seed and index",
    "  qcore pubkey <seed-hex> [index]                       the scheme, public key, and address, for genesis",
    "  qcore info <gateway-url>                              the chain id, height, and fee",
    "  qcore register [--testnet|--mainnet] <gateway-url> <seed-hex> <max-fee>     register a funded account's key so it can send",
    "  qcore balance <gateway-url> <address>                 an account balance and nonce",
    "  qcore send [--testnet|--mainnet] <gateway-url> <seed-hex> <to> <amount> <max-fee>   sign and submit a transfer",
    "  qcore status <gateway-url> <tx-id>                    where a transaction is",
    "",
    "A <seed> can be the hex directly, @file to read it from a file, - to read it from",
    "stdin, or env:VAR to read it from an environment variable. Prefer the last three so",
    "the seed never appears in the process list or your shell history. A seed typed",
    "directly is refused unless --insecure-argv is given.",
    "",
    "Pass --testnet or --mainnet on a signing command to bind the client to that network;",
    "--mainnet also needs --acknowledge-mainnet, since the transaction moves real value. It refuses",
    "to sign if the gateway does not serve the chosen network, and refuses to sign for either",
    "public network when neither flag is given.",
    "",
    "A signing command keeps its nonces in ~/.qcore/session.json, or the file QCORE_SESSION",
    "names, so a later run never signs a second transaction at a nonce already used. On a",
    "private chain pass --genesis-time <unix-secs> --block-rate <blocks-per-sec> so the",
    "validity deadline is bounded by the chain clock rather than the gateway's word."]

/-- The lines a command prints, or the message it ends with. -/
def run (args : List String) : ClientM (List String) :=
  match args with
  | "new" :: _ => liftM (cmdNew m)
  | "address" :: rest => liftM (cmdAddress m rest)
  | "pubkey" :: rest => liftM (cmdPubkey m rest)
  | "info" :: rest => cmdInfo m rest
  | "register" :: rest => cmdRegister m rest
  | "balance" :: rest => cmdBalance m rest
  | "send" :: rest => cmdSend m rest
  | "status" :: rest => cmdStatus m rest
  | [] | "help" :: _ | "-h" :: _ | "--help" :: _ => pure printUsage
  | other :: _ => ofExcept (.error s!"unknown command '{other}'")

end

/-! ## What is handed over -/

section

variable {self : Client} {s t : ClientState} {r : Request} {info : NodeInfo} {sender : String}
  {targets : List String} {slots : List (String × U64)} {maxFee fee : U128}
  {nonce chainId validUntil : U64} {signed : SignedTransfer}
  {hook : Nat → String → Except String Unit}

/-- After the hook the session is written. -/
theorem saveSigned_gives (hhook : self.onSigned = some hook) (h : Gives (saveSigned self) s () t) :
    hook s.turn s.shared.exportState = .ok () ∧ t.shared = s.shared := by
  rw [saveSigned, hhook] at h
  have h := gives_read_bind h
  obtain ⟨saved, t', hreach, h⟩ := gives_bind h
  obtain ⟨hok, rfl⟩ := gives_ofExcept h
  obtain ⟨hsaved, rfl⟩ := hreach
  cases hsaved
  exact ⟨mapError_ok.mp hok, rfl⟩

/-- **The hook has the session first**: with every nonce of the transaction marked, and
    before anything is handed over. -/
theorem submitHeld_saved (hhook : self.onSigned = some hook) (hr : r.Submits)
    (h : Emits (submitHeld self slots signed) s r) :
    ∃ turn, hook turn r.state.shared.exportState = .ok () := by
  have h := emits_modify h
  obtain ⟨u, t, hgives, h⟩ := emits_after saveSigned_asks.silent hr h
  obtain ⟨hsaved, hshared⟩ := saveSigned_gives hhook hgives
  rcases emits_bind h with h | ⟨outcome, t', -, h⟩
  · obtain ⟨-, hstate⟩ := emits_submit h
    rw [hstate, hshared]
    exact ⟨_, hsaved⟩
  · exact absurd (emits_modify h) List.not_mem_nil

/-- What is handed over was written first. -/
theorem signAndSubmit_saved
    {sign : Bytes 32 → Except String (Bytes 32) → Except String SignedTransfer}
    (hhook : self.onSigned = some hook) (hr : r.Submits)
    (h : Emits (signAndSubmit self info targets slots sign) s r) :
    ∃ turn, hook turn r.state.shared.exportState = .ok () := by
  obtain ⟨genesis, t, -, h⟩ := emits_after signingGenesis_asks.silent hr h
  obtain ⟨randomness, t', -, h⟩ := emits_after (reach_asks _).silent hr h
  obtain ⟨signed, -, h⟩ := emits_value h
  have h := emits_modify h
  rcases emits_bind h with h | ⟨outcome, t, -, h⟩
  · exact submitHeld_saved hhook hr h
  · exact absurd h List.not_mem_nil

/-- A transaction of an account whose nonce nobody named: the chain is the network's,
    the session granted the nonce and has it marked, and the hook has saved it. -/
structure Handed (client : Client) (s : ClientState) (sender : String) (r : Request)
    (info : NodeInfo) (genesis : Bytes 32) (nonce : U64) : Prop where
  named : Named client s.pinnedChain r.state.pinnedChain info.chainId
  genesis : ∃ trusted, genesisUnder client trusted info = .ok genesis
  granted : ∃ wall reported session,
    (s.shared.noteHead info.chainId info.headHeight wall).slot
        (accountSlotKey info.chainId sender) reported none false = (.ok nonce, session)
      ∧ r.state.shared = session.signedAll [(accountSlotKey info.chainId sender, nonce)]
  saved : ∀ hook, client.onSigned = some hook →
    ∃ turn, hook turn r.state.shared.exportState = .ok ()

/-- What a call hands over, as it was asked and with what stands behind its nonce. -/
def HandsOver (self : Client) (entry : Entry) (s : ClientState) (r : Request) : Prop :=
  ∃ txBytes info genesis ask nonce fee validUntil, r.body = submitBody txBytes
      ∧ AsAsked self entry txBytes genesis none ask nonce fee
        (self.crates.chainIdFromName info.chainId) validUntil
      ∧ Handed self s (self.crates.accountAddress (accountOf entry).1 (accountOf entry).2) r info
        genesis nonce

/-- A call with one nonce hands over what it was asked for, at a nonce that it reserved.
    -/
theorem emits_hands_over (entry : Entry)
    {sign : U64 → Bytes 32 → Except String (Bytes 32) → Except String SignedTransfer}
    (hready : Ready self s (self.crates.accountAddress (accountOf entry).1 (accountOf entry).2)
      targets info chainId validUntil t)
    (hfee : fee ≤ maxFeeOf entry) (hnone : namedOrderNonce entry = none)
    (hunnamed : namedNonce entry = none)
    (hsign : ∀ nonce, SignsAsked self.crates (accountOf entry) nonce fee chainId validUntil
      (fun genesis ask => Asks self.crates chainId genesis entry none ask) (sign nonce))
    (hr : r.Submits)
    (h : Emits (checkedNonce self info
      (self.crates.accountAddress (accountOf entry).1 (accountOf entry).2) none
      (fun key nonce => signAndSubmit self info targets [(key, nonce)] (sign nonce))) t r) :
    HandsOver self entry s r := by
  obtain ⟨reported, nonce, session, turn, hslot, h⟩ := emits_checkedNonce hr h
  obtain ⟨genesis, randomness, signed, hgenesis, hsigned, hbody, turn', book, hstate⟩ :=
    emits_signAndSubmit hr h
  obtain ⟨ask, hasks, hsigns⟩ := hsign nonce genesis randomness signed hsigned
  obtain ⟨hid, -⟩ := checkedChainId_ok hready.chain
  obtain ⟨wall, hshared⟩ := hready.shared
  subst hid
  refine ⟨signed.txBytes, info, genesis, ask, nonce, fee, validUntil, hbody,
    ⟨hasks, hsigns.wrapped, hfee, ?_, ?_⟩, ?_, ⟨_, hgenesis⟩, ?_, ?_⟩
  · exact fun _ hsome => nomatch hunnamed.symm.trans hsome
  · exact fun _ hsome => nomatch hnone.symm.trans hsome
  · rw [hstate]
    exact hready.named
  · rw [hshared] at hslot
    exact ⟨wall, reported, session, hslot, by rw [hstate]⟩
  · exact fun hook hhook => signAndSubmit_saved hhook hr h

variable {seed : Bytes seedLen} {index : U64}

/-- So does a transfer. -/
theorem transfer_hands_over {recipient : String} {amount : U64} (hr : r.Submits)
    (h : Emits (transferExpecting self seed index recipient amount maxFee none) s r) :
    HandsOver self (.transfer seed index recipient amount maxFee none) s r := by
  obtain ⟨-, h⟩ := emits_guard h
  obtain ⟨info, fee, chainId, s₁, hfee, hopened, h⟩ := emits_opening hr h
  obtain ⟨validUntil, s₂, hready, h⟩ := emits_validity hr hopened h
  exact emits_hands_over (.transfer seed index recipient amount maxFee none) hready
    (transferFeeWithin_ok hfee) rfl rfl
    (fun _ => signTransfer_asked (fun _ hsome => .transfer hsome)) hr h

/-- So does the registration of a key. -/
theorem register_hands_over (hr : r.Submits)
    (h : Emits (registerExpecting self seed index maxFee none) s r) :
    HandsOver self (.register seed index maxFee none) s r := by
  obtain ⟨info, fee, chainId, s₁, hfee, hopened, h⟩ := emits_opening hr h
  obtain ⟨validUntil, s₂, hready, h⟩ := emits_validity hr hopened h
  exact emits_hands_over (.register seed index maxFee none) hready
    (transferFeeWithin_ok hfee) rfl rfl (fun _ => signRegister_asked (fun _ => .register)) hr h

end

/-! ## What the words say -/

section

variable {m : Machine} {self : Client} {s t : ClientState} {r : Request}

theorem wholeArg_ok {n : Nat} {text message : String} {v : Fin n}
    (h : wholeArg text message = .ok v) : ∃ w, wholeNumber text = some w ∧ w.val = v.val := by
  obtain ⟨w, hw, hv⟩ := Option.bind_eq_some_iff.mp (okOr_ok h)
  exact ⟨w, hw, tryFrom_eq_some.mp hv⟩

/-- What a signing command asks of which client, by its words. -/
inductive Told (m : Machine) : List String → Options → Client → Entry → Prop
  | send {rest more : List String} {options : Options} {self : Client} {seed : Bytes seedLen}
      {gateway source recipient amountText maxFeeText : String} {amount : U64} {maxFee : U128}
      (taken : takeOptions rest = .ok options)
      (words : options.words
        = gateway :: source :: recipient :: amountText :: maxFeeText :: more)
      (seedRead : readSeed m source options.argv = .ok seed)
      (amountRead : ∃ n, wholeNumber amountText = some n ∧ n.val = amount.val)
      (maxFeeRead : wholeNumber maxFeeText = some maxFee)
      (opened : buildClient m gateway options.mainnet options.acknowledged options.testnet
        options.clock = .ok self) :
      Told m ("send" :: rest) options self (.transfer seed 0 recipient amount maxFee none)
  | register {rest more : List String} {options : Options} {self : Client} {seed : Bytes seedLen}
      {gateway source maxFeeText : String} {maxFee : U128}
      (taken : takeOptions rest = .ok options)
      (words : options.words = gateway :: source :: maxFeeText :: more)
      (seedRead : readSeed m source options.argv = .ok seed)
      (maxFeeRead : wholeNumber maxFeeText = some maxFee)
      (opened : buildClient m gateway options.mainnet options.acknowledged options.testnet
        options.clock = .ok self) :
      Told m ("register" :: rest) options self (.register seed 0 maxFee none)

/-- What the words tell is told to a client that was built. -/
theorem told_opens {args : List String} {options : Options} {entry : Entry}
    (h : Told m args options self entry) :
    ∃ gateway, buildClient m gateway options.mainnet options.acknowledged options.testnet
      options.clock = .ok self := by
  cases h with
  | send _ _ _ _ _ opened => exact ⟨_, opened⟩
  | register _ _ _ _ opened => exact ⟨_, opened⟩

/-- The session that a run starts with: the one in its session file, if it has one. -/
inductive Loaded (m : Machine) : SigningSession → Prop
  | nowhere (none : sessionPath m = none) : Loaded m new
  | missing {path : String} (place : sessionPath m = some path)
      (read : m.readToString path = .error .notFound) : Loaded m new
  | restored {path text : String} {session : SigningSession} (place : sessionPath m = some path)
      (read : m.readToString path = .ok text)
      (imported : new.importState text = (.ok (), session)) : Loaded m session

/-- What is loaded becomes the session, and nothing else changes. -/
theorem loadSession_gives (h : Gives (loadSession m) freshState () t) :
    ∃ session, Loaded m session ∧ t = { freshState with shared := session } := by
  rw [loadSession] at h
  split at h
  · next hpath =>
      obtain ⟨-, rfl⟩ := gives_pure h
      exact ⟨new, Loaded.nowhere hpath, rfl⟩
  · next path hpath =>
      split at h
      · next text hread =>
          obtain ⟨hok, rfl⟩ := h
          have himport : (new.importState text).1 = .ok () := mapError_ok.mp hok
          exact ⟨(new.importState text).2,
            Loaded.restored hpath hread (Prod.ext himport rfl), rfl⟩
      · next hread =>
          obtain ⟨-, rfl⟩ := gives_pure h
          exact ⟨new, Loaded.missing hpath hread, rfl⟩
      · cases (gives_ofExcept h).1

theorem loadSession_silent : Silent Request.Submits (loadSession m) := by
  rw [loadSession]
  split
  · exact silent_of_nil (fun _ => rfl)
  · split <;> exact silent_of_nil (fun _ => rfl)

theorem saveSession_silent : Silent Request.Submits (saveSession m) :=
  silent_bind (silent_of_nil (fun _ => rfl)) (fun _ =>
    silent_bind (reach_asks _).silent (fun _ => silent_ofExcept _))

/-- What is handed over in a session is handed over by the call, from the session that
    was loaded. -/
theorem emits_inSession {α : Type} {call : ClientM (SignedTransfer × Submit)}
    {f : SignedTransfer × Submit → ClientM α} (hf : ∀ x, Silent Request.Submits (f x))
    (hr : r.Submits) (h : Emits (inSession m call >>= f) freshState r) :
    ∃ session, Loaded m session ∧ Emits call { freshState with shared := session } r := by
  rcases emits_bind h with h | ⟨x, t, -, h⟩
  · obtain ⟨u, t, hload, h⟩ := emits_after loadSession_silent hr h
    obtain ⟨session, hloaded, rfl⟩ := loadSession_gives hload
    rcases emits_bind h with h | ⟨result, t, -, h⟩
    · exact ⟨session, hloaded, emits_attempt h⟩
    · obtain ⟨u, t', -, h⟩ := emits_after saveSession_silent hr h
      exact absurd hr (silent_ofExcept _ _ _ h)
  · exact absurd hr (hf x t r h)

/-- A client that is built has the network that was chosen, and writes its session. -/
theorem buildClient_ok {gateway : String} {mainnetChosen acknowledged testnetChosen : Bool}
    {clock : Clock}
    (h : buildClient m gateway mainnetChosen acknowledged testnetChosen clock = .ok self) :
    self.crates = m.crates ∧ self.onSigned = some (writeSession m)
      ∧ self.network.chainId = (if mainnetChosen then some "Q-main-net-1"
          else if testnetChosen then some testnetChainName else none)
      ∧ self.network.genesisHash = (if mainnetChosen then none
          else if testnetChosen then some testnetGenesisHash else none) := by
  obtain ⟨-, h⟩ := guard_ok h
  cases h
  cases mainnetChosen <;> cases testnetChosen <;> cases clock <;> exact ⟨rfl, rfl, rfl, rfl⟩

/-- A chain whose name begins like a public one's is public. -/
theorem isPublicChain_mainnet (crates : Crates) : isPublicChain crates "Q-main-net-1" = true := by
  have hname : "Q-main-net-".isPrefixOf "Q-main-net-1" = true := by decide +kernel
  rw [isPublicChain, isMainnetChain, hname, Bool.true_or, Bool.or_true]

/-- No genesis is signed for a public chain unless one is pinned. -/
theorem genesisUnder_unpinned {trusted : Option TrustedRosters} {info : NodeInfo}
    {genesis : Bytes 32} (hnone : self.network.genesisHash = none)
    (h : genesisUnder self trusted info = .ok genesis) :
    isPublicChain self.crates.toCrates info.chainId = false := by
  obtain ⟨reported, -, h⟩ := bind_ok h
  obtain ⟨-, h⟩ := guard_ok h
  rw [hnone] at h
  obtain ⟨hpublic, -⟩ := guard_ok h
  exact Bool.eq_false_of_not_eq_true hpublic

/-- The chain that a run may sign for: never the main network, whose genesis is not
    known yet, the test network with its own genesis when it was chosen, and no public
    chain when it was not. -/
structure OnChosen (m : Machine) (options : Options) (name : String) (genesis : Bytes 32) :
    Prop where
  mainnet : options.mainnet = false
  testnet : options.testnet = true → name = testnetChainName ∧ genesis = testnetGenesisHash
  unnamed : options.testnet = false → isPublicChain m.crates.toCrates name = false

/-- The chain that is signed for is the one that was chosen. -/
theorem onChosen {gateway : String} {options : Options} {pinned : Option String}
    {trusted : Option TrustedRosters} {info : NodeInfo} {genesis : Bytes 32}
    (hclient : buildClient m gateway options.mainnet options.acknowledged options.testnet
      options.clock = .ok self)
    (hnamed : Named self none pinned info.chainId)
    (hgenesis : genesisUnder self trusted info = .ok genesis) :
    OnChosen m options info.chainId genesis := by
  obtain ⟨hcrates, -, hchain, hpinned⟩ := buildClient_ok hclient
  obtain ⟨-, -, hheld⟩ := genesisUnder_ok hgenesis
  have hname : ∀ name, self.network.chainId = some name → info.chainId = name := by
    intro name hsome
    rcases hnamed with hconfigured | ⟨hnone, -⟩
    · exact Option.some.inj (hconfigured.symm.trans hsome)
    · exact nomatch hnone.symm.trans hsome
  cases hmainnet : options.mainnet with
  | true =>
      -- the main network is public and has no pinned genesis
      rw [hmainnet, if_pos rfl] at hchain hpinned
      have hpublic := genesisUnder_unpinned hpinned hgenesis
      rw [hname _ hchain, isPublicChain_mainnet] at hpublic
      cases hpublic
  | false =>
      rw [hmainnet, if_neg Bool.false_ne_true] at hchain hpinned
      refine ⟨hmainnet, fun htestnet => ?_, fun htestnet => ?_⟩
      · rw [if_pos htestnet] at hchain hpinned
        exact ⟨hname _ hchain, (hheld _ hpinned).symm⟩
      · rw [htestnet, if_neg Bool.false_ne_true] at hpinned
        rw [← hcrates]
        exact genesisUnder_unpinned hpinned hgenesis

/-! ## What a run hands over -/

/-- Only two commands hand anything over. -/
theorem emits_run {args : List String} (hr : r.Submits) (h : Emits (run m args) freshState r) :
    ∃ options self entry session, Told m args options self entry ∧ Loaded m session
      ∧ HandsOver self entry { freshState with shared := session } r := by
  unfold run at h
  split at h
  · exact absurd hr (silent_ofExcept _ _ _ h)
  · exact absurd hr (silent_ofExcept _ _ _ h)
  · exact absurd hr (silent_ofExcept _ _ _ h)
  · obtain ⟨gateway, -, h⟩ := emits_value h
    rcases emits_bind h with h | ⟨info, t, -, h⟩
    · exact absurd hr (nodeInfo_asks.silent _ _ h)
    · exact absurd h List.not_mem_nil
  · obtain ⟨options, hoptions, h⟩ := emits_value h
    split at h
    · next gateway source maxFeeText more hwords =>
        obtain ⟨seed, hseed, h⟩ := emits_value h
        obtain ⟨maxFee, hmaxFee, h⟩ := emits_value h
        obtain ⟨self, hclient, h⟩ := emits_value h
        obtain ⟨session, hloaded, h⟩ := emits_inSession (fun _ => silent_ofExcept _) hr h
        obtain ⟨w, hw, hval⟩ := wholeArg_ok hmaxFee
        obtain rfl := Fin.ext hval
        exact ⟨options, self, _, session, Told.register hoptions hwords hseed hw hclient, hloaded,
          register_hands_over hr h⟩
    · exact absurd h List.not_mem_nil
  · obtain ⟨gateway, -, h⟩ := emits_value h
    obtain ⟨address, -, h⟩ := emits_value h
    obtain ⟨-, h⟩ := emits_guard h
    rcases emits_bind h with h | ⟨account, t, -, h⟩
    · exact absurd hr ((account_asks address).silent _ _ h)
    · exact absurd h List.not_mem_nil
  · obtain ⟨options, hoptions, h⟩ := emits_value h
    split at h
    · next gateway source recipient amountText maxFeeText more hwords =>
        obtain ⟨seed, hseed, h⟩ := emits_value h
        obtain ⟨amount, hamount, h⟩ := emits_value h
        obtain ⟨maxFee, hmaxFee, h⟩ := emits_value h
        obtain ⟨self, hclient, h⟩ := emits_value h
        obtain ⟨session, hloaded, h⟩ := emits_inSession (fun _ => silent_ofExcept _) hr h
        obtain ⟨w, hw, hval⟩ := wholeArg_ok hmaxFee
        obtain rfl := Fin.ext hval
        exact ⟨options, self, _, session,
          Told.send hoptions hwords hseed (wholeArg_ok hamount) hw hclient, hloaded,
          transfer_hands_over hr h⟩
    · exact absurd h List.not_mem_nil
  · obtain ⟨gateway, -, h⟩ := emits_value h
    obtain ⟨txId, -, h⟩ := emits_value h
    rcases emits_bind h with h | ⟨status, t, -, h⟩
    · exact absurd hr (transaction_reads.silent _ _ h)
    · cases status with
      | finalised height block => cases block <;> exact absurd h List.not_mem_nil
      | _ => exact absurd h List.not_mem_nil
  · exact absurd h List.not_mem_nil
  · exact absurd h List.not_mem_nil
  · exact absurd h List.not_mem_nil
  · exact absurd h List.not_mem_nil
  · exact absurd h List.not_mem_nil

end

/-! ## One transaction at most -/

section

variable {m : Machine} {self : Client} {seed : Bytes seedLen} {index : U64} {maxFee : U128}

theorem transfer_once {recipient : String} {amount : U64} {expected : Option U64} :
    Once Request.Submits (transferExpecting self seed index recipient amount maxFee expected) :=
  once_of_map (entry_once self (.transfer seed index recipient amount maxFee expected))

theorem register_once {expected : Option U64} :
    Once Request.Submits (registerExpecting self seed index maxFee expected) :=
  once_of_map (entry_once self (.register seed index maxFee expected))

theorem inSession_once {call : ClientM (SignedTransfer × Submit)}
    (h : Once Request.Submits call) : Once Request.Submits (inSession m call) := by
  have hattempt : Once Request.Submits call.attempt := h
  exact once_after loadSession_silent (fun _ => once_before hattempt (fun _ =>
    silent_bind saveSession_silent (fun _ => silent_ofExcept _)))

/-- A run of the terminal hands over at most once. -/
theorem run_once (args : List String) : Once Request.Submits (run m args) := by
  have hvalue : ∀ {α β : Type} {x : Except String α} {f : α → ClientM β},
      (∀ a, Once Request.Submits (f a)) → Once Request.Submits (liftM x >>= f) :=
    fun h => once_after (silent_ofExcept _) h
  have hnone : ∀ {α : Type} {x : Except String α},
      Once Request.Submits (ofExcept x : ClientM α) := once_of_silent (silent_ofExcept _)
  unfold run
  split
  · exact hnone
  · exact hnone
  · exact hnone
  · refine hvalue (fun _ => once_of_silent (silent_bind nodeInfo_asks.silent (fun _ => ?_)))
    exact silent_of_nil (fun _ => rfl)
  · refine hvalue (fun options => ?_)
    split
    · refine hvalue (fun _ => hvalue (fun _ => hvalue (fun _ => ?_)))
      exact once_before (inSession_once register_once) (fun _ => silent_ofExcept _)
    · exact hnone
  · refine hvalue (fun _ => hvalue (fun _ => hvalue (fun _ => ?_)))
    refine once_of_silent (silent_bind (account_asks _).silent (fun _ => ?_))
    exact silent_of_nil (fun _ => rfl)
  · refine hvalue (fun options => ?_)
    split
    · refine hvalue (fun _ => hvalue (fun _ => hvalue (fun _ => hvalue (fun _ => ?_))))
      exact once_before (inSession_once transfer_once) (fun _ => silent_ofExcept _)
    · exact hnone
  · refine hvalue (fun _ => hvalue (fun _ => once_of_silent ?_))
    refine silent_bind transaction_reads.silent (fun status => ?_)
    cases status with
    | finalised height block => cases block <;> exact silent_of_nil (fun _ => rfl)
    | _ => exact silent_of_nil (fun _ => rfl)
  · exact once_of_silent (silent_of_nil (fun _ => rfl))
  · exact once_of_silent (silent_of_nil (fun _ => rfl))
  · exact once_of_silent (silent_of_nil (fun _ => rfl))
  · exact once_of_silent (silent_of_nil (fun _ => rfl))
  · exact hnone

end

/-- **A run of the terminal hands over what its words say**, and one transaction at
    most.  The transaction is the one that a `send` or a `register` was told, signed by
    the seed its words name, for the chain its flags choose and never for the main
    network; its nonce was granted by the session that was loaded, and the session file
    holds it before the gateway sees it. -/
theorem terminal_hands_over_what_was_typed (m : Machine) (args : List String) :
    (run m args freshState).events.countP (fun r => decide r.Submits) ≤ 1
      ∧ ∀ r, r.Submits → Emits (run m args) freshState r →
        ∃ options self entry session txBytes info genesis ask nonce fee validUntil,
          Told m args options self entry ∧ Loaded m session ∧ r.body = submitBody txBytes
            ∧ AsAsked self entry txBytes genesis none ask nonce fee
                (m.crates.chainIdFromName info.chainId) validUntil
            ∧ OnChosen m options info.chainId genesis
            ∧ Handed self { freshState with shared := session }
                (m.crates.accountAddress (accountOf entry).1 (accountOf entry).2) r info genesis
                nonce
            ∧ ∃ turn, writeSession m turn r.state.shared.exportState = .ok () := by
  refine ⟨run_once args freshState, fun r hr h => ?_⟩
  obtain ⟨options, self, entry, session, htold, hloaded, txBytes, info, genesis, ask, nonce, fee,
    validUntil, hbody, hasked, hhanded⟩ := emits_run hr h
  obtain ⟨gateway, hclient⟩ := told_opens htold
  obtain ⟨hcrates, hhook, -, -⟩ := buildClient_ok hclient
  obtain ⟨trusted, hgenesis⟩ := hhanded.genesis
  rw [hcrates] at hasked hhanded
  exact ⟨options, self, entry, session, txBytes, info, genesis, ask, nonce, fee, validUntil, htold,
    hloaded, hbody, hasked, onChosen hclient hhanded.named hgenesis, hhanded,
    hhanded.saved _ hhook⟩

/-! ## A transfer of the terminal -/

/-- A machine with a key file, no session file yet and a gateway of a local network. -/
def localMachine : Machine where
  crates := pairCrates
  chain := localClient.chain
  words := threeLetterWords
  env := fun name => if name = "QCORE_SESSION" then some "session.json" else none
  readToString := fun _ => .error .notFound
  parent := fun _ => none
  withExtension := fun _ extension => "session." ++ extension
  createDirAll := fun _ _ => .ok ()
  openForWriting := fun _ _ => .ok ()
  writeAndSync := fun _ _ _ => .ok ()
  rename := fun _ _ _ => .ok ()
  openSeed := fun _ => .ok
    { mode := .ok 0o600, read := fun turn => .ok (if turn = 0 then List.replicate 64 0x30 else []) }
  stdin := fun _ => .ok []
  transport := localClient.transport
  clock := localClient.clock
  entropy := localClient.entropy
  freshSeed := none

/-- The local client as the terminal opens it. -/
def terminalClient : Client :=
  { openClient localMachine "http://127.0.0.1:80" forUrl false with
    network := { forUrl with genesisSecs := some 0, blocksPerSec := some 1 }
    onSigned := some (writeSession localMachine) }

theorem local_endpoint : checkEndpoint localClient.base = .ok () :=
  refuseIf_iff.mpr (by decide +kernel)

theorem terminal_endpoint : checkEndpoint terminalClient.base = .ok () :=
  refuseIf_iff.mpr (by decide +kernel)

theorem terminal_rpc : terminalClient.rpc = localClient.rpc := by
  funext method body
  rw [rpc, rpc, terminal_endpoint, local_endpoint]
  rfl

theorem terminal_account : terminalClient.account = localClient.account := by
  funext address
  rw [account, account, terminal_rpc]

/-- The terminal's call is opened. -/
theorem terminal_opening : Gives (opening terminalClient "Qa" ["Qb"] (transferFeeWithin 7))
    freshState (localNode, 7, 9) { freshState with
      turn := 1, pinnedChain := some "Q-local"
      session := rememberAddress pairCrates.toCrates .new "Qa" } := by
  have hinfo : ∀ {s : ClientState}, s.turn = 0 →
      Gives terminalClient.nodeInfo s localNode { s with turn := s.turn + 1 } := by
    intro s hs
    rw [nodeInfo, terminal_rpc]
    refine bind_gives (rpc_answers local_endpoint ?_ length_localInfo)
      (ofExcept_gives parse_localInfo)
    rw [hs]
    rfl
  refine bind_gives (m := vetTarget _ _ _) ⟨rfl, rfl⟩ (bind_gives (hinfo rfl) ?_)
  refine bind_gives (ofExcept_gives rfl) (bind_gives (ofExcept_gives rfl) ?_)
  exact bind_gives (m := signingChainId _ _) ⟨rfl, rfl⟩ ⟨rfl, rfl⟩

/-- The terminal's gateway reports a genesis of zeros. -/
theorem terminal_genesis {trusted : Option TrustedRosters} (h : trusted = none) :
    genesisUnder terminalClient trusted localNode = .ok (filled 0) := by
  have hlocal := local_genesis h
  obtain ⟨hparse, -, -⟩ := genesisUnder_ok hlocal
  rw [h]
  exact bind_pass hparse rfl

/-- The head is not verified, but the clock bounds it. -/
theorem terminal_validity (session : SigningSession) :
    ∃ t : ClientState, t.turn = 2 ∧ t.trustedRoster = none
      ∧ t.shared = SigningSession.new.noteHead "Q-local" 5 0
      ∧ Gives (validity terminalClient localNode)
        { freshState with turn := 1, pinnedChain := some "Q-local", session := session } 305 t :=
  ⟨_, rfl, rfl, rfl, validity_of_clock (terminal_genesis rfl) ⟨rfl, rfl⟩ rfl rfl rfl⟩

/-- The terminal's transfer hands a transaction over. -/
theorem terminal_transfer : Causes Request.Submits
    (transferExpecting terminalClient (filled 0) 0 "Qb" 1 7 none) freshState := by
  obtain ⟨t, hturn, htrusted, hshared, hvalid⟩ :=
    terminal_validity (rememberAddress pairCrates.toCrates .new "Qa")
  have hgranted : (t.shared.slot (accountSlotKey "Q-local" "Qa") 3 none false).1 = .ok 3 := by
    rw [hshared]
    rfl
  have haccount := local_account hturn
  rw [← terminal_account] at haccount
  refine bind_causes (ofExcept_gives rfl) (bind_causes terminal_opening (bind_causes hvalid ?_))
  refine bind_causes haccount (bind_causes (m := step _) ⟨hgranted, rfl⟩ ?_)
  exact causes_finally (causes_mono (fun _ h => h.1) (signAndSubmit_causes
    ⟨"Qa", "tx", []⟩ terminal_endpoint (terminal_genesis htrusted) rfl
    (fun s => ⟨_, rfl, rfl⟩)))

/-- The words of a transfer of one unit, with its flags between them. -/
def sendArgs : List String :=
  ["send", "http://127.0.0.1:80", "@seed", "--genesis-time", "0", "Qb", "1", "--block-rate", "1",
    "7"]

/-- What they say. -/
def sendOptions : Options :=
  { mainnet := false, testnet := false, acknowledged := false, argv := false, clock := some (0, 1)
    words := ["http://127.0.0.1:80", "@seed", "Qb", "1", "7"] }

/-- The command to send does so on the local machine. -/
theorem localMachine_sends : Causes Request.Submits (run localMachine sendArgs) freshState := by
  have hoptions : takeOptions sendArgs.tail = .ok sendOptions := rfl
  have hseed : readSeed localMachine "@seed" false = .ok (filled 0) := by decide +kernel
  have hamount : (wholeArg "1" "the amount is not a number" : Except String U64) = .ok 1 := by
    decide +kernel
  have hmaxFee : (wholeArg "7" "the max fee is not a number" : Except String U128) = .ok 7 := by
    decide +kernel
  have hclient : buildClient localMachine "http://127.0.0.1:80" false false false (some (0, 1))
      = .ok terminalClient := rfl
  show Causes Request.Submits (cmdSend localMachine sendArgs.tail) freshState
  refine bind_causes (ofExcept_gives hoptions) ?_
  refine bind_causes (ofExcept_gives hseed) (bind_causes (ofExcept_gives hamount) ?_)
  refine bind_causes (ofExcept_gives hmaxFee) (bind_causes (ofExcept_gives hclient) ?_)
  have hload : Gives (loadSession localMachine) freshState () freshState := ⟨rfl, rfl⟩
  have hcall : Causes Request.Submits
      (transferExpecting terminalClient (filled 0) 0 "Qb" 1 7 none).attempt freshState :=
    terminal_transfer
  exact bind_causes_first (bind_causes hload (bind_causes_first hcall))

/-- It hands over what was typed. -/
theorem terminal_hands_over_what_was_typed_at_local : ∃ (r : Request) (self : Client)
    (entry : Entry) (options : Options) (txBytes : List UInt8), r.Submits
      ∧ Told localMachine sendArgs options self entry ∧ r.body = submitBody txBytes
      ∧ Asked self entry txBytes := by
  obtain ⟨r, hr, h⟩ := localMachine_sends
  obtain ⟨options, self, entry, _, txBytes, _, _, _, _, _, _, htold, -, hbody, hasked, -⟩ :=
    (terminal_hands_over_what_was_typed localMachine sendArgs).2 r hr h
  exact ⟨r, self, entry, options, txBytes, hr, htold, hbody, _, _, _, _, _, _, _, hasked⟩

end QCoreTerminal
