import Mathlib
import QCore.MachineIntProofs
import QCore.ByteMemoryProofs
import QCore.FallibleProofs
import QCore.CratesProofs

/-! # Signed order calls

    An order call carries a signed message and the argument memory the contract
    reads.  The caller lays the memory out freely: the scheme, the pointer to
    the verify region and the expiry are words at offsets of its choice, so is
    each field, and the region holds the public key, the signature and the
    message.  The builder refuses a layout in which two of these spans overlap,
    or one lies in the host's call context or past the memory.

    What is proved is that the arguments executed are the arguments signed: each
    span reads back as it was written, whatever the order, and the fields read
    back in the order they are listed are the ones the message ends with. -/

namespace QCoreContract

open QCoreMachineInt QCoreByteMemory QCoreFallible QCoreCrates

/-! ## Layout constants -/

/-- Where the arguments of a call begin, behind its context. -/
def contractContextBytes : U64 := 152

/-- The bytes of a word. -/
def word : U64 := 8

/-- Where the region of an order begins when nothing else is said. -/
def defaultRegionOffset : U64 := 8192

/-- The most memory that arguments take. -/
def maxUserMemory : Nat := 65536

/-- The most bytes of a label. -/
def nameWindow : Nat := 32

/-- Where the fields of an order's message begin. -/
def msgFieldsOff : Nat := 168

/-- `QTVSGN04`, in bytes. -/
def signedMsgTag : List UInt8 := [81, 84, 86, 83, 71, 78, 48, 52]

/-- The name of the test network. -/
def testnetChainName : String := "Q-testNet-1.1"

/-- The names that it had before. -/
def retiredChainNames : List String :=
  ["Q-test-net-1", "Q-test-net-01", "Q-test-net-001", "Q-test-net-0001", "Test-Net-0-1",
    "Q-TestNet-1", "Q-testNet-1.0"]

/-! ## Fields -/

/-- A value of an order. -/
inductive FieldValue
  | word (w : U64)
  | wide (b : Bytes 16)
  | address (a : Bytes 32)
  | name (label : List UInt8)

namespace FieldValue

/-- The bytes of a field, as signed and as laid out. -/
def bytes : FieldValue → List UInt8
  | .word w => beBytes 8 w.val
  | .wide b => b.val
  | .address a => a.val
  | .name label =>
      let n := min label.length nameWindow
      label.take n ++ List.replicate (nameWindow - n) 0 ++ beBytes 8 label.length

/-- How many bytes of memory it takes. -/
def width : FieldValue → U64
  | .word _ => 8
  | .wide _ => 16
  | .address _ => 32
  | .name _ => 40

/-- A label has to fit its window. -/
def ensureFits : FieldValue → Except String Unit
  | .name label =>
      refuseIf (nameWindow < label.length)
        "a Q_Name label longer than thirty two bytes cannot be represented"
  | _ => .ok ()

/-- The width of a field is how many bytes it has. -/
theorem length_bytes (v : FieldValue) : v.bytes.length = v.width.val := by
  cases v with
  | word w => exact length_beBytes 8 w.val
  | wide b => exact b.property
  | address a => exact a.property
  | name label =>
      simp only [bytes, List.length_append, List.length_take, List.length_replicate,
        length_beBytes, nameWindow]
      show _ = 40
      omega

end FieldValue

/-- A value and where it goes. -/
structure FieldArg where
  offset : U64
  value : FieldValue

/-! ## The signed message -/

variable (crates : Crates)

/-- The address of a public key under its scheme. -/
def signerAddress (scheme : UInt8) (publicKey : List UInt8) : Bytes 32 :=
  crates.sha3_256 (scheme :: publicKey)

/-- The message an order signature covers: a header of fixed length, then the
    fields as they are listed. -/
def canonicalOrderMessageTyped (chainId : U64) (genesis contractId : Bytes 32)
    (selector : Bytes 4) (signer : Bytes 32) (nonce expiry : U64) (layoutHash : Bytes 32)
    (fields : List FieldValue) : List UInt8 :=
  signedMsgTag ++ beBytes 8 chainId.val ++ genesis.val ++ contractId.val
    ++ (List.replicate 4 0 ++ selector.val) ++ signer.val ++ beBytes 8 nonce.val
    ++ beBytes 8 expiry.val ++ layoutHash.val ++ fields.flatMap FieldValue.bytes

/-- The payload of a contract's address. -/
def contractId (contract : String) : Except String (Bytes 32) := do
  let payload ← okOr (crates.parseAddress contract) "the contract is not a Q1 address"
  if h : payload.length = 32 then return ⟨payload, h⟩
  else throw "the contract address is not the canonical thirty two byte width"

/-- The id of the test network. -/
def testnetChainId : U64 := crates.chainIdFromName testnetChainName

/-- A retired chain is not signed for, and a public one not for a genesis of zeros. -/
def checkGenesis (chainId : U64) (genesis : Bytes 32) : Except String Unit :=
  match retiredChainNames.find? (fun name => crates.chainIdFromName name == chainId) with
  | some name =>
      .error s!"the chain id {chainId} belongs to the retired network {name}, refusing to sign for it"
  | none =>
      if genesis.val = List.replicate 32 0 ∧
          (chainId = testnetChainId crates ∨ chainId = crates.mainnetChainId) then
        .error "a transaction for a public network needs that network's genesis hash, not zero, refusing to sign"
      else .ok ()

/-! ## The argument memory -/

/-- Where a layout puts the three words, the region and the fields. -/
structure Layout where
  schemeOff : U64
  ptrOff : U64
  expiryOff : U64
  regionOff : U64
  fields : List FieldArg

/-- The checks made before anything is signed. -/
def checkOffsets (layout : Layout) : Except String Unit := do
  refuseIf (layout.schemeOff < contractContextBytes ∨ layout.ptrOff < contractContextBytes ∨
      layout.expiryOff < contractContextBytes ∨ layout.regionOff < contractContextBytes)
    "the scheme, pointer, expiry or verify region offset falls inside the host call context"
  layout.fields.forM (fun field => do
    field.value.ensureFits
    refuseIf (field.offset < contractContextBytes)
      "a field offset falls inside the host call context")

/-- How far the words and fields reach, the call context at least. -/
def lastWordEnd (layout : Layout) : Except String U64 := do
  let schemeEnd ← okOr (checkedAdd layout.schemeOff word) "the scheme offset is too large"
  let ptrEnd ← okOr (checkedAdd layout.ptrOff word) "the pointer offset is too large"
  let expiryEnd ← okOr (checkedAdd layout.expiryOff word) "the expiry offset is too large"
  layout.fields.foldlM (fun last field => do
    let fieldEnd ← okOr (checkedAdd field.offset field.value.width)
      "a field offset is too large"
    return max last fieldEnd) (max (max (max contractContextBytes schemeEnd) ptrEnd) expiryEnd)

/-- Neighbouring spans, in order of offset, do not overlap. -/
def checkSpans : List (U64 × U64) → Except String Unit
  | a :: b :: rest => do
      let aEnd ← okOr (checkedAdd a.1 a.2) "a call span overflows the argument memory"
      refuseIf (b.1 < aEnd) "the order layout overlaps the verify region or a signed field"
      checkSpans (b :: rest)
  | _ => .ok ()

/-- The spans of a call: the three words, the fields and the verify region. -/
def callSpans (layout : Layout) (regionLen : U64) : List (U64 × U64) :=
  [(layout.schemeOff, word), (layout.ptrOff, word), (layout.expiryOff, word)]
    ++ layout.fields.map (fun field => (field.offset, field.value.width))
    ++ [(layout.regionOff, regionLen)]

/-- The layout checks, made once the region's length is known: how long the
    memory is, when every span lies in it and no two overlap. -/
def checkLayout (layout : Layout) (regionLen : Nat) : Except String Nat := do
  let regionLen ← okOr (tryFrom _ regionLen) "the verify region overflows the address space"
  let regionEnd ← okOr (checkedAdd layout.regionOff regionLen)
    "the verify region overflows the address space"
  let last ← lastWordEnd layout
  let memLen := max regionEnd.val last.val
  refuseIf (maxUserMemory < memLen) "the order arguments do not fit the contract memory"
  checkSpans ((callSpans layout regionLen).insertionSort (fun a b => a.1 ≤ b.1))
  return memLen

/-- A word of the argument memory. -/
def putWord (memory : List UInt8) (offset value : U64) : Except String (List UInt8) := do
  let _ ← okOr (checkedAdd offset word) "an argument word overflows scratch"
  okOr (write memory offset.val (beBytes 8 value.val))
    "an argument word runs off the end of the argument memory"

/-- Bytes of the argument memory. -/
def putBytes (memory : List UInt8) (offset : U64) (bytes : List UInt8) :
    Except String (List UInt8) := do
  let _ ← okOr (tryFrom 18446744073709551616 (offset.val + bytes.length))
    "an argument value overflows scratch"
  okOr (write memory offset.val bytes)
    "an argument value runs off the end of the argument memory"

/-- Fill the argument memory: the words and the fields each through a checked
    write, the region by three copies into a range the layout checks found room
    for. -/
def writeMemory (crates : Crates) (layout : Layout) (expiry : U64) (publicKey signature message : List UInt8)
    (memLen : Nat) : Except String (List UInt8) := do
  let memory := List.replicate memLen 0
  let memory ← putWord memory layout.schemeOff (u64From crates.schemeLattice)
  let memory ← putWord memory layout.ptrOff layout.regionOff
  let memory ← putWord memory layout.expiryOff expiry
  let memory ← layout.fields.foldlM
    (fun memory field => putBytes memory field.offset field.value.bytes) memory
  let regionStart := layout.regionOff.val
  let pkEnd := regionStart + publicKey.length
  let sigEnd := pkEnd + signature.length
  let memory := splice memory regionStart publicKey
  let memory := splice memory pkEnd signature
  return splice memory sigEnd message

/-! ## The builder -/

/-- An order that was signed, and the call that carries it. -/
structure SignedOrderCall where
  callArgs : List UInt8
  userMemory : List UInt8
  message : List UInt8
  signature : List UInt8
  publicKey : List UInt8
  signer : Bytes 32
  nonce : U64
  expiry : U64

/-- Build and sign an order call; `randomness` is what the randomness source
    gives. -/
def buildTypedOrderCall (chainId : U64) (genesis : Bytes 32) (contract : String)
    (selector : Bytes 4) (layoutHash : Bytes 32)
    (schemeOff ptrOff expiryOff regionOff : U64) (fields : List FieldArg)
    (ownerSeed : Bytes seedLen) (ownerIndex nonce expiry : U64)
    (randomness : Except String (Bytes 32)) : Except String SignedOrderCall := do
  let regionOff := if regionOff = 0 then defaultRegionOffset else regionOff
  let layout : Layout := ⟨schemeOff, ptrOff, expiryOff, regionOff, fields⟩
  let contractId ← contractId crates contract
  refuseIf (expiry = 0) "the order expiry must be set"
  checkGenesis crates chainId genesis
  checkOffsets layout
  let seed := crates.accountSeed ownerSeed crates.schemeLattice ownerIndex
  let (publicKey, secret) := crates.keygenInto seed
  let signer := signerAddress crates crates.schemeLattice publicKey
  let values := fields.map FieldArg.value
  let message := canonicalOrderMessageTyped chainId genesis contractId selector signer nonce
    expiry layoutHash values
  let rnd ← randomness
  let signature ← okOr (crates.sign secret message crates.vmVerifyContext rnd)
    "signing the order message failed"
  let regionLen := publicKey.length + signature.length + message.length
  let memLen ← checkLayout layout regionLen
  let userMemory ← writeMemory crates layout expiry publicKey signature message memLen
  let callArgs := selector.val ++ userMemory
  return { callArgs, userMemory, message, signature, publicKey, signer, nonce, expiry }

/-! ## What the checks establish -/

/-- Spans that are not refused lie apart. -/
theorem checkSpans_ok {spans : List (U64 × U64)} (h : checkSpans spans = .ok ()) :
    Separated (spans.map (fun s => (s.1.val, s.2.val))) := by
  induction spans with
  | nil => trivial
  | cons a rest ih =>
      cases rest with
      | nil => trivial
      | cons b rest =>
          rw [checkSpans] at h
          obtain ⟨e, he, h⟩ := value_ok h
          obtain ⟨hle, h⟩ := guard_ok h
          refine ⟨?_, ih h⟩
          have hend := checkedAdd_eq_some.mp he
          have hbe : ¬ b.1.val < e.val := fun hlt => hle (Fin.lt_def.mpr hlt)
          dsimp only
          omega

/-- A word with its width, as natural numbers. -/
def spanVal (s : U64 × U64) : Nat × Nat := (s.1.val, s.2.val)

/-- The fields end where the fold says, or before. -/
theorem foldlM_fieldEnd {fields : List FieldArg} {start last : U64}
    (h : fields.foldlM (fun last field => do
      let fieldEnd ← okOr (checkedAdd field.offset field.value.width)
        "a field offset is too large"
      return max last fieldEnd) start = .ok last) :
    start ≤ last ∧ ∀ f ∈ fields, f.offset.val + f.value.width.val ≤ last.val := by
  induction fields generalizing start with
  | nil =>
      cases h
      exact ⟨le_refl _, fun f hf => absurd hf List.not_mem_nil⟩
  | cons f rest ih =>
      rw [List.foldlM_cons] at h
      obtain ⟨mid, hmid, h⟩ := bind_ok h
      obtain ⟨e, he, hmax⟩ := value_ok hmid
      cases hmax
      obtain ⟨hle, hrest⟩ := ih h
      have hend := checkedAdd_eq_some.mp he
      refine ⟨(le_max_left _ _).trans hle, ?_⟩
      intro g hg
      rcases List.mem_cons.mp hg with rfl | hg
      · rw [← hend]
        exact (le_max_right _ _).trans hle
      · exact hrest g hg

/-- No word of a layout ends past the last end. -/
theorem lastWordEnd_ok {layout : Layout} {last : U64} (h : lastWordEnd layout = .ok last) :
    152 ≤ last.val ∧ layout.schemeOff.val + 8 ≤ last.val ∧ layout.ptrOff.val + 8 ≤ last.val ∧
      layout.expiryOff.val + 8 ≤ last.val ∧
      ∀ f ∈ layout.fields, f.offset.val + f.value.width.val ≤ last.val := by
  rw [lastWordEnd] at h
  obtain ⟨schemeEnd, hscheme, h⟩ := value_ok h
  obtain ⟨ptrEnd, hptr, h⟩ := value_ok h
  obtain ⟨expiryEnd, hexpiry, h⟩ := value_ok h
  obtain ⟨hle, hfields⟩ := foldlM_fieldEnd h
  have hword : word.val = 8 := rfl
  have hcontext : contractContextBytes.val = 152 := rfl
  have h1 := checkedAdd_eq_some.mp hscheme
  have h2 := checkedAdd_eq_some.mp hptr
  have h3 := checkedAdd_eq_some.mp hexpiry
  simp only [max_le_iff, Fin.le_def] at hle
  exact ⟨by omega, by omega, by omega, by omega, hfields⟩

/-- **What the layout checks establish**: the memory is bounded, every span lies
    in it, and no two spans share a byte. -/
theorem checkLayout_ok {layout : Layout} {regionLen memLen : Nat}
    (h : checkLayout layout regionLen = .ok memLen) :
    memLen ≤ 65536 ∧ 152 ≤ memLen ∧ ∃ len : U64, len.val = regionLen ∧
      (∀ s ∈ callSpans layout len, s.1.val + s.2.val ≤ memLen) ∧
      ((callSpans layout len).map spanVal).Pairwise Apart := by
  -- each check the code makes, in order
  rw [checkLayout] at h
  obtain ⟨len, hlen, h⟩ := value_ok h
  obtain ⟨regionEnd, hregion, h⟩ := value_ok h
  obtain ⟨last, hlast, h⟩ := bind_ok h
  obtain ⟨hmax, h⟩ := guard_ok h
  obtain ⟨u, hspans, h⟩ := bind_ok h
  cases h
  have hregionEnd := checkedAdd_eq_some.mp hregion
  obtain ⟨hcontext, hscheme, hptr, hexpiry, hfields⟩ := lastWordEnd_ok hlast
  have hword : word.val = 8 := rfl
  refine ⟨?_, hcontext.trans (le_max_right _ _), len, ?_, ?_, ?_⟩
  · simpa [maxUserMemory] using hmax
  · rw [tryFrom] at hlen
    split at hlen
    · cases hlen; rfl
    · cases hlen
  · intro s hs
    have hle := le_max_left regionEnd.val last.val
    have hle' := le_max_right regionEnd.val last.val
    simp only [callSpans, List.cons_append, List.nil_append, List.mem_cons, List.mem_append,
      List.mem_map, List.not_mem_nil, or_false] at hs
    rcases hs with rfl | rfl | rfl | ⟨f, hf, rfl⟩ | rfl
    · dsimp only; omega
    · dsimp only; omega
    · dsimp only; omega
    · exact (hfields f hf).trans hle'
    · dsimp only; omega
  · exact pairwise_apart_of_perm ((List.perm_insertionSort _ _).map spanVal)
      (checkSpans_ok hspans)

/-- No word of a layout that is not refused begins in the context. -/
theorem checkOffsets_ok {layout : Layout} (h : checkOffsets layout = .ok ()) :
    152 ≤ layout.schemeOff.val ∧ 152 ≤ layout.ptrOff.val ∧ 152 ≤ layout.expiryOff.val ∧
      152 ≤ layout.regionOff.val ∧ ∀ f ∈ layout.fields, 152 ≤ f.offset.val := by
  rw [checkOffsets] at h
  obtain ⟨hwords, h⟩ := guard_ok h
  have hcontext : contractContextBytes.val = 152 := rfl
  simp only [not_or, not_lt, Fin.le_def, hcontext] at hwords
  obtain ⟨hscheme, hptr, hexpiry, hregion⟩ := hwords
  refine ⟨hscheme, hptr, hexpiry, hregion, ?_⟩
  intro f hf
  obtain ⟨u, -, hoffset⟩ := bind_ok (forM_ok h f hf)
  have := refuseIf_ok hoffset
  simpa only [not_lt, Fin.le_def, hcontext] using this

/-! ## The memory written -/

/-- The writes of a call, in the order they are made; the region is one. -/
def orderWrites (layout : Layout) (expiry : U64) (region : List UInt8) :
    List (Nat × List UInt8) :=
  [(layout.schemeOff.val, beBytes 8 (u64From crates.schemeLattice).val),
    (layout.ptrOff.val, beBytes 8 layout.regionOff.val),
    (layout.expiryOff.val, beBytes 8 expiry.val)]
    ++ layout.fields.map (fun f => (f.offset.val, f.value.bytes))
    ++ [(layout.regionOff.val, region)]

/-- Each write covers its span. -/
theorem orderWrites_span (layout : Layout) (expiry : U64) {region : List UInt8} {len : U64}
    (hlen : len.val = region.length) :
    (orderWrites crates layout expiry region).map span
      = (callSpans layout len).map spanVal := by
  have hfields : (layout.fields.map (fun f => (f.offset.val, f.value.bytes))).map span
      = (layout.fields.map (fun f => (f.offset, f.value.width))).map spanVal := by
    rw [List.map_map, List.map_map]
    refine List.map_congr_left (fun f _ => ?_)
    exact Prod.ext rfl (FieldValue.length_bytes f.value)
  have hword : word.val = 8 := rfl
  rw [orderWrites, callSpans, List.map_append, List.map_append, hfields, List.map_append,
    List.map_append]
  simp only [List.map_cons, List.map_nil, span, spanVal, length_beBytes, hword, hlen]

/-- A word that can be written is put. -/
theorem putWord_write {memory m : List UInt8} {offset value : U64}
    (h : write memory offset.val (beBytes 8 value.val) = some m) (hlen : memory.length ≤ 65536) :
    putWord memory offset value = .ok m := by
  obtain ⟨hfit, -⟩ := write_eq_some.mp h
  rw [length_beBytes] at hfit
  have hadd : checkedAdd offset word = some ⟨offset.val + 8, by omega⟩ :=
    checkedAdd_eq_some.mpr rfl
  rw [putWord, hadd, h]
  rfl

/-- Bytes that can be written are put. -/
theorem putBytes_write {memory m bytes : List UInt8} {offset : U64}
    (h : write memory offset.val bytes = some m) (hlen : memory.length ≤ 65536) :
    putBytes memory offset bytes = .ok m := by
  obtain ⟨hfit, -⟩ := write_eq_some.mp h
  rw [putBytes, tryFrom, dif_pos (by omega), h]
  rfl

theorem length_write {memory m bytes : List UInt8} {offset : Nat}
    (h : write memory offset bytes = some m) : m.length = memory.length := by
  obtain ⟨hfit, rfl⟩ := write_eq_some.mp h
  exact length_splice hfit

/-- Fields that can be written one after another are put. -/
theorem foldlM_putBytes {fields : List FieldArg} {memory m : List UInt8}
    (h : writeAll memory (fields.map (fun f => (f.offset.val, f.value.bytes))) = some m)
    (hlen : memory.length ≤ 65536) :
    fields.foldlM (fun memory f => putBytes memory f.offset f.value.bytes) memory = .ok m ∧
      m.length = memory.length := by
  induction fields generalizing memory with
  | nil => cases h; exact ⟨rfl, rfl⟩
  | cons f rest ih =>
      rw [List.map_cons, writeAll, List.foldlM_cons] at h
      obtain ⟨mid, hmid, h⟩ := Option.bind_eq_some_iff.mp h
      have hmidlen := length_write hmid
      obtain ⟨hrest, hmlen⟩ := ih h (by omega)
      rw [List.foldlM_cons, putBytes_write hmid hlen]
      exact ⟨hrest, by omega⟩

/-- When the writes all fit, the checked writes and the copies make them. -/
theorem writeMemory_writeAll {layout : Layout} {expiry : U64} {pk sig msg m : List UInt8}
    {memLen : Nat} (hlen : memLen ≤ 65536)
    (h : writeAll (List.replicate memLen 0) (orderWrites crates layout expiry (pk ++ sig ++ msg))
      = some m) : writeMemory crates layout expiry pk sig msg memLen = .ok m := by
  simp only [orderWrites, writeAll, List.cons_append, List.nil_append, List.foldlM_cons,
    List.foldlM_append] at h
  obtain ⟨m₁, h₁, h⟩ := Option.bind_eq_some_iff.mp h
  obtain ⟨m₂, h₂, h⟩ := Option.bind_eq_some_iff.mp h
  obtain ⟨m₃, h₃, h⟩ := Option.bind_eq_some_iff.mp h
  obtain ⟨m₄, h₄, h⟩ := Option.bind_eq_some_iff.mp h
  have hzero : (List.replicate memLen (0 : UInt8)).length = memLen := List.length_replicate
  have hl₁ := length_write h₁
  have hl₂ := length_write h₂
  have hl₃ := length_write h₃
  obtain ⟨hfields, hl₄⟩ := foldlM_putBytes h₄ (by omega)
  -- the three copies are one write of the region
  have hregion : write m₄ layout.regionOff.val (pk ++ sig ++ msg) = some m := by
    obtain ⟨m₅, h₅, hlast⟩ := Option.bind_eq_some_iff.mp h
    cases hlast
    exact h₅
  obtain ⟨hfit, hm⟩ := write_eq_some.mp hregion
  have hcopy : splice (splice (splice m₄ layout.regionOff.val pk)
      (layout.regionOff.val + pk.length) sig)
      (layout.regionOff.val + pk.length + sig.length) msg = m := by
    simp only [List.length_append] at hfit
    have hpk : (splice m₄ layout.regionOff.val pk).length = m₄.length :=
      length_splice (by omega)
    rw [splice_splice (by rw [hpk, List.length_append]; omega),
      splice_splice (by simp only [List.length_append]; omega), ← List.append_assoc, hm]
  rw [writeMemory, putWord_write h₁ (by omega), ok_bind, putWord_write h₂ (by omega), ok_bind,
    putWord_write h₃ (by omega), ok_bind, hfields, ok_bind]
  exact congrArg Except.ok hcopy

/-! ## What a built call is -/

/-- The message ends with the fields as listed, after a header of 168 bytes whose
    word at 128 is the expiry. -/
theorem message_layout (chainId : U64) (genesis contractId : Bytes 32) (selector : Bytes 4)
    (signer : Bytes 32) (nonce expiry : U64) (layoutHash : Bytes 32) (values : List FieldValue) :
    let message := canonicalOrderMessageTyped chainId genesis contractId selector signer nonce
      expiry layoutHash values
    slice message 128 8 = beBytes 8 expiry.val ∧
      message.drop msgFieldsOff = values.flatMap FieldValue.bytes := by
  have hpre : (signedMsgTag ++ beBytes 8 chainId.val ++ genesis.val ++ contractId.val
      ++ (List.replicate 4 0 ++ selector.val) ++ signer.val ++ beBytes 8 nonce.val).length
        = 128 := by
    simp only [List.length_append, length_beBytes, genesis.property, contractId.property,
      selector.property, signer.property, List.length_replicate]
    rfl
  constructor
  · have hmid := slice_middle (signedMsgTag ++ beBytes 8 chainId.val ++ genesis.val
      ++ contractId.val ++ (List.replicate 4 0 ++ selector.val) ++ signer.val
      ++ beBytes 8 nonce.val) (beBytes 8 expiry.val)
      (layoutHash.val ++ values.flatMap FieldValue.bytes)
    rw [hpre, length_beBytes, ← List.append_assoc] at hmid
    exact hmid
  · refine List.drop_left' ?_
    rw [List.length_append, List.length_append, hpre, length_beBytes, layoutHash.property]
    rfl

/-- **Once the layout checks have passed no write fails**: every write is in
    range, reads back as written, and leaves every other byte zero. -/
theorem writeMemory_ok (expiry : U64) {layout : Layout} {pk sig msg : List UInt8}
    {memLen : Nat} (h : checkLayout layout (pk.length + sig.length + msg.length) = .ok memLen) :
    ∃ memory, writeMemory crates layout expiry pk sig msg memLen = .ok memory ∧
      memory.length = memLen ∧
      (∀ w ∈ orderWrites crates layout expiry (pk ++ sig ++ msg),
        slice memory w.1 w.2.length = w.2) ∧
      ∀ i < memLen, (∀ w ∈ orderWrites crates layout expiry (pk ++ sig ++ msg),
        ¬ (w.1 ≤ i ∧ i < w.1 + w.2.length)) → memory[i]? = some 0 := by
  obtain ⟨hmax, -, len, hlen, hfit, hapart⟩ := checkLayout_ok h
  have hregion : len.val = (pk ++ sig ++ msg).length := by
    rw [hlen, List.length_append, List.length_append]
  -- the writes are exactly the spans that were checked
  have hspan := orderWrites_span crates layout expiry hregion
  have hfits : ∀ w ∈ orderWrites crates layout expiry (pk ++ sig ++ msg),
      w.1 + w.2.length ≤ (List.replicate memLen (0 : UInt8)).length := by
    intro w hw
    have hmem : span w ∈ (callSpans layout len).map spanVal := by
      rw [← hspan]
      exact List.mem_map_of_mem hw
    obtain ⟨s, hs, hval⟩ := List.mem_map.mp hmem
    have hs' := hfit s hs
    rw [show s.1.val = w.1 from congrArg Prod.fst hval,
      show s.2.val = w.2.length from congrArg Prod.snd hval] at hs'
    rw [List.length_replicate]
    exact hs'
  have hpairs : (orderWrites crates layout expiry (pk ++ sig ++ msg)).Pairwise
      (fun a b => Apart (span a) (span b)) := by
    rw [← List.pairwise_map, hspan]
    exact hapart
  obtain ⟨memory, hall, hmemlen, hread, hkeep⟩ := writeAll_apart _ hfits hpairs
  refine ⟨memory, writeMemory_writeAll crates hmax hall, ?_, hread, ?_⟩
  · rw [hmemlen, List.length_replicate]
  · intro i hi hout
    rw [hkeep i hout, List.getElem?_replicate, if_pos hi]

/-- What the memory of a call holds: the scheme, the region's offset and the
    expiry at their offsets, each field at its own, and in the region the public
    key, the signature and the message. -/
structure Executes (layout : Layout) (expiry : U64) (call : SignedOrderCall) : Prop where
  scheme : slice call.userMemory layout.schemeOff.val 8
    = beBytes 8 (u64From crates.schemeLattice).val
  pointer : slice call.userMemory layout.ptrOff.val 8 = beBytes 8 layout.regionOff.val
  expiryWord : slice call.userMemory layout.expiryOff.val 8 = beBytes 8 expiry.val
  fields : ∀ f ∈ layout.fields,
    slice call.userMemory f.offset.val f.value.width.val = f.value.bytes
  region : slice call.userMemory layout.regionOff.val
      (call.publicKey.length + call.signature.length + call.message.length)
    = call.publicKey ++ call.signature ++ call.message
  listed : layout.fields.flatMap
      (fun f => slice call.userMemory f.offset.val f.value.width.val)
    = call.message.drop msgFieldsOff
  expirySigned : slice call.userMemory layout.expiryOff.val 8 = slice call.message 128 8
  zero : ∀ i < call.userMemory.length,
    (∀ s ∈ [layout.schemeOff.val, layout.ptrOff.val, layout.expiryOff.val],
      ¬ (s ≤ i ∧ i < s + 8)) →
    (∀ f ∈ layout.fields, ¬ (f.offset.val ≤ i ∧ i < f.offset.val + f.value.width.val)) →
    ¬ (layout.regionOff.val ≤ i ∧ i < layout.regionOff.val
      + (call.publicKey.length + call.signature.length + call.message.length)) →
    call.userMemory[i]? = some 0
  context : ∀ i < 152, call.userMemory[i]? = some 0

/-- What a call that was built rests on: the checks passed, and the memory is
    the one written for the message that was signed. -/
theorem buildTypedOrderCall_ok {chainId : U64} {genesis : Bytes 32} {contract : String}
    {selector : Bytes 4} {layoutHash : Bytes 32} {schemeOff ptrOff expiryOff regionOff : U64}
    {fields : List FieldArg} {ownerSeed : Bytes seedLen} {ownerIndex nonce expiry : U64}
    {randomness : Except String (Bytes 32)} {call : SignedOrderCall}
    (h : buildTypedOrderCall crates chainId genesis contract selector layoutHash schemeOff
      ptrOff expiryOff regionOff fields ownerSeed ownerIndex nonce expiry randomness
        = .ok call) :
    ∃ contractId : Bytes 32, ∃ layout : Layout, ∃ memLen,
      layout = ⟨schemeOff, ptrOff, expiryOff,
        if regionOff = 0 then defaultRegionOffset else regionOff, fields⟩ ∧
      checkOffsets layout = .ok () ∧
      call.message = canonicalOrderMessageTyped chainId genesis contractId selector call.signer
        nonce expiry layoutHash (fields.map FieldArg.value) ∧
      checkLayout layout (call.publicKey.length + call.signature.length + call.message.length)
        = .ok memLen ∧
      writeMemory crates layout expiry call.publicKey call.signature call.message memLen
        = .ok call.userMemory ∧
      call.callArgs = selector.val ++ call.userMemory := by
  rw [buildTypedOrderCall] at h
  obtain ⟨cid, -, h⟩ := bind_ok h
  obtain ⟨-, h⟩ := guard_ok h
  obtain ⟨-, -, h⟩ := bind_ok h
  obtain ⟨u, hoffsets, h⟩ := bind_ok h
  obtain ⟨rnd, -, h⟩ := bind_ok h
  obtain ⟨signature, -, h⟩ := value_ok h
  obtain ⟨memLen, hlayout, h⟩ := bind_ok h
  obtain ⟨memory, hmemory, h⟩ := bind_ok h
  cases h
  exact ⟨cid, _, memLen, rfl, hoffsets, rfl, hlayout, hmemory, rfl⟩

/-- A builder whose every step succeeds returns the call of those steps. -/
theorem buildTypedOrderCall_eq {chainId : U64} {genesis cid : Bytes 32} {contract : String}
    {selector : Bytes 4} {layoutHash rnd : Bytes 32} {layout : Layout}
    {ownerSeed : Bytes seedLen} {ownerIndex nonce expiry : U64} {memLen : Nat}
    {pk secret sig message memory : List UInt8} (hid : contractId crates contract = .ok cid)
    (hregion : layout.regionOff ≠ 0) (hexpiry : expiry ≠ 0)
    (hgenesis : checkGenesis crates chainId genesis = .ok ())
    (hoffsets : checkOffsets layout = .ok ())
    (hkeys : crates.keygenInto (crates.accountSeed ownerSeed crates.schemeLattice ownerIndex)
      = (pk, secret))
    (hmessage : canonicalOrderMessageTyped chainId genesis cid selector
      (signerAddress crates crates.schemeLattice pk) nonce expiry layoutHash
      (layout.fields.map FieldArg.value) = message)
    (hsign : crates.sign secret message crates.vmVerifyContext rnd = some sig)
    (hlayout : checkLayout layout (pk.length + sig.length + message.length) = .ok memLen)
    (hmemory : writeMemory crates layout expiry pk sig message memLen = .ok memory) :
    buildTypedOrderCall crates chainId genesis contract selector layoutHash layout.schemeOff
      layout.ptrOff layout.expiryOff layout.regionOff layout.fields ownerSeed ownerIndex nonce
      expiry (.ok rnd)
    = .ok ⟨selector.val ++ memory, memory, message, sig, pk,
        signerAddress crates crates.schemeLattice pk, nonce, expiry⟩ := by
  rw [buildTypedOrderCall, if_neg hregion, hid, ok_bind, refuseIf, if_neg hexpiry, ok_bind,
    hgenesis, ok_bind, hoffsets, ok_bind]
  simp only [hkeys, hmessage, ok_bind, hsign, okOr_some, hlayout, hmemory]
  rfl

/-- **The arguments executed are the arguments signed.**  A call that is built
    executes what its message signs: the words, the fields and the region read
    back from its memory as they were laid out, the fields in their listed order
    are the end of the message, the expiry is the signed one, every other byte
    is zero, and the call's arguments are the selector and that memory.  And no
    write can fail once the layout checks have passed. -/
theorem order_call_executes_what_is_signed {chainId : U64} {genesis : Bytes 32}
    {contract : String} {selector : Bytes 4} {layoutHash : Bytes 32}
    {schemeOff ptrOff expiryOff regionOff : U64} {fields : List FieldArg}
    {ownerSeed : Bytes seedLen} {ownerIndex nonce expiry : U64}
    {randomness : Except String (Bytes 32)} {call : SignedOrderCall}
    (h : buildTypedOrderCall crates chainId genesis contract selector layoutHash schemeOff
      ptrOff expiryOff regionOff fields ownerSeed ownerIndex nonce expiry randomness
        = .ok call) :
    Executes crates ⟨schemeOff, ptrOff, expiryOff,
      if regionOff = 0 then 8192 else regionOff, fields⟩ expiry call ∧
    call.callArgs = selector.val ++ call.userMemory ∧
    ∀ (layout : Layout) (pk sig msg : List UInt8) (memLen : Nat),
      checkLayout layout (pk.length + sig.length + msg.length) = .ok memLen →
      ∃ memory, writeMemory crates layout expiry pk sig msg memLen = .ok memory := by
  obtain ⟨cid, layout, memLen, hlayouteq, hoffsets, hmessage, hlayout, hmemory, hargs⟩ :=
    buildTypedOrderCall_ok crates h
  obtain ⟨memory, hwritten, hlen, hread, hzero⟩ := writeMemory_ok crates expiry hlayout
  have hsame : memory = call.userMemory := Except.ok.inj (hwritten.symm.trans hmemory)
  subst hsame
  obtain ⟨hscheme, hptr, hexpiry, hregion, hfields⟩ := checkOffsets_ok hoffsets
  obtain ⟨-, hcontext, -⟩ := checkLayout_ok hlayout
  have hword : ∀ off v : Nat, (off, beBytes 8 v)
      ∈ orderWrites crates layout expiry (call.publicKey ++ call.signature ++ call.message) →
      slice call.userMemory off 8 = beBytes 8 v := by
    intro off v hmem
    have := hread _ hmem
    rwa [length_beBytes] at this
  have hfield : ∀ f ∈ layout.fields,
      slice call.userMemory f.offset.val f.value.width.val = f.value.bytes := by
    intro f hf
    rw [← FieldValue.length_bytes]
    exact hread (f.offset.val, f.value.bytes)
      (List.mem_append_left _ (List.mem_append_right _ (List.mem_map_of_mem hf)))
  have hexpiryWord := hword layout.expiryOff.val expiry.val (by simp [orderWrites])
  obtain ⟨hexpirySigned, hlisted⟩ := message_layout chainId genesis cid selector call.signer
    nonce expiry layoutHash (fields.map FieldArg.value)
  rw [← hmessage] at hexpirySigned hlisted
  -- a byte outside the spans of the call is outside every write
  have hout : ∀ i < call.userMemory.length,
      (∀ s ∈ [layout.schemeOff.val, layout.ptrOff.val, layout.expiryOff.val],
        ¬ (s ≤ i ∧ i < s + 8)) →
      (∀ f ∈ layout.fields, ¬ (f.offset.val ≤ i ∧ i < f.offset.val + f.value.width.val)) →
      ¬ (layout.regionOff.val ≤ i ∧ i < layout.regionOff.val
        + (call.publicKey.length + call.signature.length + call.message.length)) →
      call.userMemory[i]? = some 0 := by
    intro i hi hwords hfields' hregion'
    refine hzero i (by rw [← hlen]; exact hi) (fun w hw => ?_)
    simp only [orderWrites, List.cons_append, List.nil_append, List.mem_cons, List.mem_append,
      List.mem_map, List.not_mem_nil, or_false] at hw
    rcases hw with rfl | rfl | rfl | ⟨f, hf, rfl⟩ | rfl
    · simpa only [length_beBytes] using hwords _ (by simp)
    · simpa only [length_beBytes] using hwords _ (by simp)
    · simpa only [length_beBytes] using hwords _ (by simp)
    · simpa only [FieldValue.length_bytes] using hfields' f hf
    · simpa only [List.length_append] using hregion'
  have hlayoutfields : layout.fields = fields := by rw [hlayouteq]
  have hexecutes : Executes crates layout expiry call := by
    refine ⟨hword _ _ (by simp [orderWrites]), hword _ _ (by simp [orderWrites]), hexpiryWord, hfield,
      ?_, ?_, ?_, hout, ?_⟩
    · have := hread (layout.regionOff.val, call.publicKey ++ call.signature ++ call.message)
        (by simp [orderWrites])
      simpa only [List.length_append] using this
    · rw [hlisted, List.flatMap_map, hlayoutfields]
      exact List.flatMap_congr (fun f hf => hfield f (by rw [hlayoutfields]; exact hf))
    · rw [hexpiryWord, hexpirySigned]
    · intro i hi
      refine hout i (by omega) ?_ ?_ (by omega)
      · intro s hs
        simp only [List.mem_cons, List.not_mem_nil, or_false] at hs
        rcases hs with rfl | rfl | rfl <;> omega
      · intro f hf
        have := hfields f hf
        omega
  refine ⟨?_, hargs, ?_⟩
  · rw [hlayouteq] at hexecutes
    exact hexecutes
  · intro layout' pk sig msg memLen' hok
    obtain ⟨memory, hmem, -⟩ := writeMemory_ok crates expiry hok
    exact ⟨memory, hmem⟩

/-- Crates in which every string is the address of one account, and a signature
    is one byte. -/
def oneByteCrates : Crates where
  parseAddress _ := some (List.replicate 32 1)
  chainIdFromName name := if name = "Q-local" then 9 else 7
  mainnetChainId := 8
  sha3_256 _ := ⟨List.replicate 32 2, by decide⟩
  accountSeed seed _ _ := seed
  schemeLattice := 1
  keygenInto _ := ([3], [4])
  sign _ _ _ _ := some [5]
  vmVerifyContext := []

/-- A layout whose spans are packed from the end of the context. -/
def packed : Layout := ⟨152, 160, 168, 184, [⟨176, .word 77⟩]⟩

/-- What the owner of the packed order signs. -/
def packedMessage : List UInt8 :=
  canonicalOrderMessageTyped 9 ⟨List.replicate 32 0, by decide⟩ ⟨List.replicate 32 1, by decide⟩
    ⟨[1, 2, 3, 4], by decide⟩ ⟨List.replicate 32 2, by decide⟩ 3 1000
    ⟨List.replicate 32 6, by decide⟩ [.word 77]

/-- The packed layout passes its check. -/
theorem checkLayout_packed : checkLayout packed
    ([(3 : UInt8)].length + [(5 : UInt8)].length + packedMessage.length) = .ok 362 := by
  have hlen : packedMessage.length = 176 := by
    simp [packedMessage, canonicalOrderMessageTyped, signedMsgTag, FieldValue.bytes]
  rw [hlen]
  rfl

/-- A call of that layout is built, and its field reads back. -/
theorem order_call_executes_packed : ∃ call,
    buildTypedOrderCall oneByteCrates 9 ⟨List.replicate 32 0, by decide⟩ "c"
      ⟨[1, 2, 3, 4], by decide⟩ ⟨List.replicate 32 6, by decide⟩ 152 160 168 184
      [⟨176, .word 77⟩] ⟨List.replicate 32 0, by decide⟩ 0 3 1000
      (.ok ⟨List.replicate 32 0, by decide⟩) = .ok call ∧
    slice call.userMemory 176 8 = beBytes 8 77 := by
  obtain ⟨memory, hmemory, -⟩ := writeMemory_ok oneByteCrates 1000 checkLayout_packed
  have hmessage : canonicalOrderMessageTyped 9 ⟨List.replicate 32 0, by decide⟩
      ⟨List.replicate 32 1, by decide⟩ ⟨[1, 2, 3, 4], by decide⟩
      (signerAddress oneByteCrates oneByteCrates.schemeLattice [3]) 3 1000
      ⟨List.replicate 32 6, by decide⟩ (packed.fields.map FieldArg.value) = packedMessage := rfl
  have hid : contractId oneByteCrates "c" = .ok ⟨List.replicate 32 1, by decide⟩ := rfl
  have hkeys : oneByteCrates.keygenInto (oneByteCrates.accountSeed
      ⟨List.replicate 32 0, by decide⟩ oneByteCrates.schemeLattice 0) = ([3], [4]) := rfl
  have hsign : oneByteCrates.sign [4] packedMessage oneByteCrates.vmVerifyContext
      ⟨List.replicate 32 0, by decide⟩ = some [5] := rfl
  have hcall := buildTypedOrderCall_eq oneByteCrates hid (by decide) (by decide) rfl rfl hkeys
    hmessage hsign checkLayout_packed hmemory
  obtain ⟨hexecutes, -, -⟩ := order_call_executes_what_is_signed oneByteCrates hcall
  exact ⟨_, hcall, hexecutes.fields ⟨176, .word 77⟩ (by simp [packed])⟩

end QCoreContract
