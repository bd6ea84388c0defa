import Mathlib

/-! # Byte strings, slices and disjoint writes

    A memory is a list of bytes.  A write replaces the bytes from an offset on
    and fails when it runs off the end; a slice reads bytes back.  A sequence of
    writes whose spans are pairwise apart is where this file leads: all of them
    succeed when each fits, each reads back as written, whatever the order, and
    a byte outside every span keeps its value.

    The usual way to check that spans are apart is to sort them by offset and
    compare neighbours; `pairwise_apart_of_perm` says that is enough. -/

namespace QCoreByteMemory

/-! ## Fixed-length byte strings -/

/-- A byte string of a fixed length. -/
abbrev Bytes (n : Nat) := { l : List UInt8 // l.length = n }

/-- What holds of every number below a bound holds of the bytes below it. -/
@[elab_as_elim]
theorem byte_below {n : Nat} {P : UInt8 → Prop} (b : UInt8) (hb : b.toNat < n)
    (h : ∀ k : Fin n, P (UInt8.ofNat k)) : P b := by
  have hk := h ⟨b.toNat, hb⟩
  rwa [UInt8.ofNat_toNat] at hk

/-- The bytes of a number, most significant first. -/
def beBytes : Nat → Nat → List UInt8
  | 0, _ => []
  | width + 1, v => beBytes width (v / 256) ++ [UInt8.ofNat v]

@[simp, grind =] theorem length_beBytes (width v : Nat) : (beBytes width v).length = width := by
  induction width generalizing v with
  | zero => rfl
  | succ width ih => rw [beBytes, List.length_append, ih, List.length_singleton]

/-- The number some bytes are, most significant first. -/
def ofBeBytes (bytes : List UInt8) : Nat := bytes.foldl (fun v b => v * 256 + b.toNat) 0

/-- What is written in some bytes is read back, as far as it fits them. -/
theorem ofBeBytes_beBytes (width v : Nat) : ofBeBytes (beBytes width v) = v % 256 ^ width := by
  induction width generalizing v with
  | zero => exact (Nat.mod_one v).symm
  | succ width ih =>
      have hlast : (UInt8.ofNat v).toNat = v % 256 := UInt8.toNat_ofNat'
      rw [beBytes, ofBeBytes, List.foldl_append, ← ofBeBytes, ih, List.foldl_cons, List.foldl_nil,
        hlast, Nat.pow_succ', Nat.mod_mul]
      omega

/-- A number as that many bytes, least significant first. -/
def leBytes : Nat → Nat → List UInt8
  | 0, _ => []
  | width + 1, v => UInt8.ofNat v :: leBytes width (v / 256)

@[simp] theorem length_leBytes (width v : Nat) : (leBytes width v).length = width := by
  induction width generalizing v with
  | zero => rfl
  | succ width ih => rw [leBytes, List.length_cons, ih]

/-- The number some bytes are, least significant first. -/
def ofLeBytes : List UInt8 → Nat
  | [] => 0
  | b :: bytes => b.toNat + 256 * ofLeBytes bytes

/-- Bytes make a number that they suffice for. -/
theorem ofLeBytes_lt (bytes : List UInt8) : ofLeBytes bytes < 256 ^ bytes.length := by
  induction bytes with
  | nil => exact Nat.one_pos
  | cons b bytes ih =>
      have hb : b.toNat < 256 := b.toNat_lt
      rw [ofLeBytes, List.length_cons, Nat.pow_succ']
      omega

/-- What is written low byte first is read back, as far as it fits. -/
theorem ofLeBytes_leBytes (width v : Nat) : ofLeBytes (leBytes width v) = v % 256 ^ width := by
  induction width generalizing v with
  | zero => exact (Nat.mod_one v).symm
  | succ width ih =>
      have hfirst : (UInt8.ofNat v).toNat = v % 256 := UInt8.toNat_ofNat'
      rw [leBytes, ofLeBytes, ih, hfirst, Nat.pow_succ', Nat.mod_mul]

/-- Bytes are what their number is written as. -/
theorem leBytes_ofLeBytes (bytes : List UInt8) :
    leBytes bytes.length (ofLeBytes bytes) = bytes := by
  induction bytes with
  | nil => rfl
  | cons b bytes ih =>
      have hb : b.toNat < 256 := b.toNat_lt
      have hfirst : UInt8.ofNat (b.toNat + 256 * ofLeBytes bytes) = b := by
        refine UInt8.toNat_inj.mp ?_
        rw [UInt8.toNat_ofNat']
        omega
      have hrest : (b.toNat + 256 * ofLeBytes bytes) / 256 = ofLeBytes bytes := by omega
      rw [ofLeBytes, List.length_cons, leBytes, hfirst, hrest, ih]

/-! ## Slices and writes -/

/-- The bytes from an offset on, as many as asked for while there are any. -/
def slice (memory : List UInt8) (offset len : Nat) : List UInt8 :=
  (memory.drop offset).take len

/-- The bytes of a memory with those from an offset on replaced. -/
def splice (memory : List UInt8) (offset : Nat) (bytes : List UInt8) : List UInt8 :=
  memory.take offset ++ bytes ++ memory.drop (offset + bytes.length)

/-- Replace the bytes from an offset on, if they lie in the memory. -/
def write (memory : List UInt8) (offset : Nat) (bytes : List UInt8) : Option (List UInt8) :=
  if offset + bytes.length ≤ memory.length then some (splice memory offset bytes) else none

/-- One write after another, each at its offset. -/
def writeAll (memory : List UInt8) (writes : List (Nat × List UInt8)) :
    Option (List UInt8) :=
  writes.foldlM (fun memory w => write memory w.1 w.2) memory

variable {memory memory' bytes : List UInt8} {offset : Nat}

theorem length_splice (h : offset + bytes.length ≤ memory.length) :
    (splice memory offset bytes).length = memory.length := by
  simp only [splice, List.length_append, List.length_take, List.length_drop]
  omega

/-- A splice changes the bytes that it covers and no others. -/
theorem getElem?_splice (h : offset + bytes.length ≤ memory.length) (i : Nat) :
    (splice memory offset bytes)[i]?
      = if offset ≤ i ∧ i < offset + bytes.length then bytes[i - offset]? else memory[i]? := by
  rw [splice, List.append_assoc, List.getElem?_append, List.getElem?_append,
    List.length_take, Nat.min_eq_left (by omega)]
  by_cases hlow : i < offset
  · rw [if_pos hlow, if_neg (by omega), List.getElem?_take_of_lt hlow]
  · rw [if_neg hlow]
    by_cases hhigh : i - offset < bytes.length
    · rw [if_pos hhigh, if_pos (by omega)]
    · rw [if_neg hhigh, if_neg (by omega), List.getElem?_drop]
      congr 1
      omega

theorem getElem?_slice (memory : List UInt8) (offset len i : Nat) :
    (slice memory offset len)[i]? = if i < len then memory[offset + i]? else none := by
  rw [slice, List.getElem?_take, List.getElem?_drop]

/-- A slice is determined by the bytes of the memory it covers. -/
theorem slice_eq_iff {len : Nat} (hlen : bytes.length = len) :
    slice memory offset len = bytes ↔ ∀ i < len, memory[offset + i]? = bytes[i]? := by
  constructor
  · intro h i hi
    rw [← h, getElem?_slice, if_pos hi]
  · intro h
    refine List.ext_getElem? (fun i => ?_)
    rw [getElem?_slice]
    split
    · next hi => exact h i hi
    · next hi => exact (List.getElem?_eq_none (by omega)).symm

/-- The middle of three byte strings is the slice they put there. -/
theorem slice_middle (a b c : List UInt8) : slice (a ++ b ++ c) a.length b.length = b := by
  rw [slice, List.append_assoc, List.drop_left, List.take_left]

/-- Bytes are written where they fit the memory, and then they are spliced in. -/
theorem write_eq_some {m : List UInt8} :
    write memory offset bytes = some m ↔
      offset + bytes.length ≤ memory.length ∧ splice memory offset bytes = m := by
  rw [write]
  split
  · next h => simp [h]
  · next h => simp [h]

/-- Two writes next to each other are one. -/
theorem splice_splice {a b : List UInt8} (h : offset + (a ++ b).length ≤ memory.length) :
    splice (splice memory offset a) (offset + a.length) b = splice memory offset (a ++ b) := by
  rw [List.length_append] at h
  have ha : offset + a.length ≤ memory.length := by omega
  have hb : offset + a.length + b.length ≤ (splice memory offset a).length := by
    rw [length_splice ha]
    omega
  refine List.ext_getElem? (fun i => ?_)
  rw [getElem?_splice hb, getElem?_splice ha,
    getElem?_splice (by rw [List.length_append]; omega), List.length_append]
  by_cases hlow : offset ≤ i ∧ i < offset + a.length
  · rw [if_neg (by omega), if_pos hlow, if_pos (by omega),
      List.getElem?_append_left (by omega)]
  · by_cases hhigh : offset + a.length ≤ i ∧ i < offset + a.length + b.length
    · rw [if_pos hhigh, if_pos (by omega), List.getElem?_append_right (by omega)]
      congr 1
      omega
    · rw [if_neg hhigh, if_neg hlow, if_neg (by omega)]

/-! ## Writes apart from each other -/

/-- Two spans, each an offset and a length, that share no byte. -/
def Apart (a b : Nat × Nat) : Prop := a.1 + a.2 ≤ b.1 ∨ b.1 + b.2 ≤ a.1

/-- The span a write covers. -/
def span (w : Nat × List UInt8) : Nat × Nat := (w.1, w.2.length)

/-- **Writes apart from each other** all succeed when each fits, and then each
    reads back and every other byte is as before. -/
theorem writeAll_apart (writes : List (Nat × List UInt8))
    (hfit : ∀ w ∈ writes, w.1 + w.2.length ≤ memory.length)
    (hapart : writes.Pairwise (fun a b => Apart (span a) (span b))) :
    ∃ memory', writeAll memory writes = some memory' ∧ memory'.length = memory.length ∧
      (∀ w ∈ writes, slice memory' w.1 w.2.length = w.2) ∧
      ∀ i, (∀ w ∈ writes, ¬ (w.1 ≤ i ∧ i < w.1 + w.2.length)) → memory'[i]? = memory[i]? := by
  induction writes generalizing memory with
  | nil =>
      refine ⟨memory, rfl, rfl, ?_, fun _ _ => rfl⟩
      intro w hw
      exact absurd hw List.not_mem_nil
  | cons w rest ih =>
      rw [List.pairwise_cons] at hapart
      have hw : w.1 + w.2.length ≤ memory.length := hfit w List.mem_cons_self
      have hlen := length_splice hw
      -- the rest is written over the memory this write leaves
      obtain ⟨memory', hall, hlen', hread, hkeep⟩ := @ih (splice memory w.1 w.2)
        (fun v hv => by rw [hlen]; exact hfit v (List.mem_cons_of_mem _ hv)) hapart.2
      refine ⟨memory', ?_, by rw [hlen', hlen], ?_, ?_⟩
      · rw [writeAll, List.foldlM_cons, write, if_pos hw]
        exact hall
      · intro v hv
        rcases List.mem_cons.mp hv with rfl | hv
        · -- the later writes are apart from this one
          rw [slice_eq_iff rfl]
          intro i hi
          rw [hkeep, getElem?_splice hw, if_pos (by omega), Nat.add_sub_cancel_left]
          intro u hu
          have := hapart.1 u hu
          simp only [Apart, span] at this
          omega
        · exact hread v hv
      · intro i hi
        rw [hkeep i (fun v hv => hi v (List.mem_cons_of_mem _ hv)), getElem?_splice hw,
          if_neg (hi w List.mem_cons_self)]

/-! ## Sorting finds every overlap -/

/-- Each span ends where its neighbour starts, or before. -/
def Separated : List (Nat × Nat) → Prop
  | a :: b :: rest => a.1 + a.2 ≤ b.1 ∧ Separated (b :: rest)
  | _ => True

/-- The first of separate ranges ends before each of the rest. -/
theorem separated_cons {a : Nat × Nat} {rest : List (Nat × Nat)} (h : Separated (a :: rest)) :
    Separated rest ∧ ∀ b ∈ rest, a.1 + a.2 ≤ b.1 := by
  induction rest generalizing a with
  | nil => exact ⟨trivial, fun b hb => absurd hb List.not_mem_nil⟩
  | cons b rest ih =>
      obtain ⟨hab, hrest⟩ := h
      refine ⟨hrest, ?_⟩
      intro c hc
      rcases List.mem_cons.mp hc with rfl | hc
      · exact hab
      · have := (ih hrest).2 c hc
        omega

/-- Neighbours that do not overlap leave no two spans overlapping. -/
theorem pairwise_apart_of_separated {spans : List (Nat × Nat)} (h : Separated spans) :
    spans.Pairwise Apart := by
  induction spans with
  | nil => exact List.Pairwise.nil
  | cons a rest ih =>
      obtain ⟨hrest, hafter⟩ := separated_cons h
      exact List.pairwise_cons.mpr ⟨fun b hb => Or.inl (hafter b hb), ih hrest⟩

theorem apart_symm {a b : Nat × Nat} (h : Apart a b) : Apart b a := Or.symm h

/-- **Spans that some order of them separates are pairwise apart**, in whatever
    order they are listed. -/
theorem pairwise_apart_of_perm {spans sorted : List (Nat × Nat)} (hperm : sorted.Perm spans)
    (h : Separated sorted) : spans.Pairwise Apart :=
  (hperm.pairwise_iff apart_symm).mp (pairwise_apart_of_separated h)

/-- Spans in order of offset that are pairwise apart are separated, if none of
    them is empty. -/
theorem separated_of_apart {spans : List (Nat × Nat)}
    (hsorted : spans.Pairwise (fun a b => a.1 ≤ b.1)) (hpos : ∀ s ∈ spans, 0 < s.2)
    (hapart : spans.Pairwise Apart) : Separated spans := by
  induction spans with
  | nil => trivial
  | cons a rest ih =>
      cases rest with
      | nil => trivial
      | cons b rest =>
          obtain ⟨hle, hsorted⟩ := List.pairwise_cons.mp hsorted
          obtain ⟨haparts, hapart⟩ := List.pairwise_cons.mp hapart
          refine ⟨?_, ih hsorted (fun s hs => hpos s (List.mem_cons_of_mem _ hs)) hapart⟩
          have hb : b ∈ b :: rest := List.mem_cons_self
          have hbpos := hpos b (List.mem_cons_of_mem _ hb)
          have hab := hle b hb
          rcases haparts b hb with h | h
          · exact h
          · -- the later one would have to end before it starts
            omega

end QCoreByteMemory
