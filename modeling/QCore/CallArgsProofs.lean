import Mathlib
import QCore.MachineIntProofs
import QCore.ByteMemoryProofs
import QCore.FallibleProofs
import QCore.ContractProofs
import QCore.OrderBindingProofs

/-! # The argument memory of a plain call

    A call's arguments are laid out where the caller puts them, in a memory that
    starts with the host's context and is as long as the arguments reach.  The
    builder refuses an argument in the context, one that reaches past the memory a
    contract has, and two that overlap, which it finds by sorting the spans and
    comparing neighbours.

    `Placed` is what it accepts and `LaidOut` what it then builds; neither knows
    the order the arguments are listed in. -/

namespace QCoreCallArgs

open QCoreMachineInt QCoreByteMemory QCoreFallible QCoreContract QCoreOrderBinding

/-! ## The builder -/

/-- Check an argument, and see how far the arguments reach with it. -/
def argEnd (memLen : U64) (field : FieldArg) : Except String U64 := do
  field.value.ensureFits
  refuseIf (field.offset < contractContextBytes)
    "an argument offset falls inside the host call context"
  let fieldEnd ← okOr (checkedAdd field.offset field.value.width) "an argument offset is too large"
  return max memLen fieldEnd

/-- Neighbouring arguments, in order of offset, do not overlap. -/
def checkArgSpans : List (U64 × U64) → Except String Unit
  | a :: b :: rest => do
      let aEnd ← okOr (checkedAdd a.1 a.2) "an argument offset is too large"
      refuseIf (b.1 < aEnd) "two call arguments overlap in the argument memory"
      checkArgSpans (b :: rest)
  | _ => .ok ()

/-- The places that arguments take. -/
def argSpans (args : List FieldArg) : List (U64 × U64) :=
  args.map (fun field => (field.offset, field.value.width))

/-- The arguments of a call, each at its place. -/
def buildCallArgs (selector : Bytes 4) (args : List FieldArg) : Except String (List UInt8) := do
  let memLen ← args.foldlM argEnd contractContextBytes
  refuseIf (maxUserMemory < memLen.val) "the call arguments do not fit the contract memory"
  checkArgSpans ((argSpans args).insertionSort (fun a b => a.1 ≤ b.1))
  let userMemory ← args.foldlM
    (fun memory field => putBytes memory field.offset field.value.bytes)
    (List.replicate memLen.val 0)
  return selector.val ++ userMemory

/-! ## What is accepted and what is built -/

/-- Where an argument ends. -/
def endOf (f : FieldArg) : ℕ := f.offset.val + f.value.width.val

/-- Two arguments share no byte. -/
def FieldsApart (a b : FieldArg) : Prop :=
  Apart (a.offset.val, a.value.width.val) (b.offset.val, b.value.width.val)

/-- Arguments that can be laid out. -/
structure Placed (args : List FieldArg) : Prop where
  fits : ∀ f ∈ args, Fits f.value
  context : ∀ f ∈ args, 152 ≤ f.offset.val
  room : ∀ f ∈ args, endOf f ≤ 65536
  apart : args.Pairwise FieldsApart

/-- A memory that holds the arguments and zeros, as long as they reach. -/
structure LaidOut (args : List FieldArg) (memory : List UInt8) : Prop where
  context : 152 ≤ memory.length
  covers : ∀ f ∈ args, endOf f ≤ memory.length
  least : args = [] ∧ memory.length = 152 ∨ ∃ f ∈ args, memory.length = endOf f
  holds : ∀ f ∈ args, slice memory f.offset.val f.value.width.val = f.value.bytes
  zero : ∀ i < memory.length, (∀ f ∈ args, ¬ (f.offset.val ≤ i ∧ i < endOf f)) → memory[i]? = some 0

/-! ## How far the arguments reach -/

section

variable {args args' : List FieldArg} {start last : U64} {f : FieldArg}

/-- The farthest end of some arguments, a start at least. -/
def reach (start : ℕ) (args : List FieldArg) : ℕ := args.foldl (fun m f => max m (endOf f)) start

@[simp] theorem reach_cons (start : ℕ) (f : FieldArg) (args : List FieldArg) :
    reach start (f :: args) = reach (max start (endOf f)) args := rfl

theorem reach_le_iff {start bound : ℕ} :
    reach start args ≤ bound ↔ start ≤ bound ∧ ∀ f ∈ args, endOf f ≤ bound := by
  induction args generalizing start with
  | nil => simp [reach]
  | cons f rest ih => rw [reach_cons, ih, max_le_iff, List.forall_mem_cons, and_assoc]

/-- The end of some fields is that of one of them, or the start. -/
theorem reach_mem (start : ℕ) (args : List FieldArg) :
    reach start args = start ∨ ∃ f ∈ args, reach start args = endOf f := by
  induction args generalizing start with
  | nil => exact Or.inl rfl
  | cons f rest ih =>
      rw [reach_cons]
      rcases ih (max start (endOf f)) with h | ⟨g, hg, h⟩
      · rcases max_choice start (endOf f) with hmax | hmax
        · exact Or.inl (h.trans hmax)
        · exact Or.inr ⟨f, List.mem_cons_self, h.trans hmax⟩
      · exact Or.inr ⟨g, List.mem_cons_of_mem _ hg, h⟩

/-- A value passes its check where it fits. -/
theorem ensureFits_iff {v : FieldValue} : v.ensureFits = .ok () ↔ Fits v := by
  cases v with
  | name label => simp [FieldValue.ensureFits, Fits, refuseIf_iff]
  | word w => simp [FieldValue.ensureFits, Fits]
  | wide w => simp [FieldValue.ensureFits, Fits]
  | address a => simp [FieldValue.ensureFits, Fits]

/-- A field is placed where it fits and lies behind the context, and the end moves to
    its own or stays. -/
theorem argEnd_iff :
    argEnd start f = .ok last ↔
      (Fits f.value ∧ 152 ≤ f.offset.val) ∧ last.val = max start.val (endOf f) := by
  rw [argEnd, bind_iff]
  simp only [guard_iff, value_iff, checkedAdd_eq_some]
  constructor
  · rintro ⟨_, hfits, hcontext, fieldEnd, hend, h⟩
    cases h
    refine ⟨⟨ensureFits_iff.mp hfits, not_lt.mp hcontext⟩, ?_⟩
    rw [endOf, ← hend]
    exact Fin.coe_max ..
  · rintro ⟨⟨hfits, hcontext⟩, hlast⟩
    have hend : endOf f < 18446744073709551616 := by
      have := last.isLt
      omega
    refine ⟨(), ensureFits_iff.mpr hfits, not_lt.mpr hcontext, ⟨endOf f, hend⟩, rfl, ?_⟩
    refine congrArg Except.ok (Fin.ext ?_)
    rw [hlast]
    exact Fin.coe_max ..

/-- **Every argument is checked**, and the memory is as long as they reach. -/
theorem foldlM_argEnd_iff :
    args.foldlM argEnd start = .ok last ↔
      (∀ f ∈ args, Fits f.value ∧ 152 ≤ f.offset.val) ∧ last.val = reach start.val args := by
  induction args generalizing start with
  | nil =>
      rw [List.foldlM_nil]
      simp [reach, Fin.ext_iff, eq_comm, pure, Except.pure]
  | cons f rest ih =>
      rw [List.foldlM_cons, bind_iff, List.forall_mem_cons, reach_cons]
      simp only [argEnd_iff, ih]
      constructor
      · rintro ⟨next, ⟨hf, hnext⟩, hrest, hlast⟩
        exact ⟨⟨hf, hrest⟩, hnext ▸ hlast⟩
      · rintro ⟨⟨hf, hrest⟩, hlast⟩
        -- nothing on the way is past the last word
        have hle : max start.val (endOf f) ≤ last.val := (reach_le_iff.mp (le_of_eq hlast.symm)).1
        exact ⟨⟨max start.val (endOf f), lt_of_le_of_lt hle last.isLt⟩, ⟨hf, rfl⟩, hrest, hlast⟩

/-! ## Which spans pass -/

/-- **Neighbours pass** exactly when they are separated, if no span runs past the
    last word. -/
theorem checkArgSpans_iff {spans : List (U64 × U64)}
    (hbound : ∀ s ∈ spans, s.1.val + s.2.val < 18446744073709551616) :
    checkArgSpans spans = .ok () ↔ Separated (spans.map spanVal) := by
  induction spans with
  | nil => exact iff_of_true rfl trivial
  | cons a rest ih =>
      cases rest with
      | nil => exact iff_of_true rfl trivial
      | cons b rest =>
          have hend : checkedAdd a.1 a.2 = some ⟨a.1.val + a.2.val, hbound a List.mem_cons_self⟩ :=
            checkedAdd_eq_some.mpr rfl
          rw [checkArgSpans, hend, okOr_some, ok_bind, guard_iff,
            ih (fun s hs => hbound s (List.mem_cons_of_mem _ hs)), not_lt]
          exact Iff.rfl

/-- No field is empty. -/
theorem width_pos (v : FieldValue) : 0 < v.width.val := by
  cases v <;> exact Nat.succ_pos _

/-- Sorting finds every overlap, and nothing but overlaps. -/
theorem checkArgSpans_sorted_iff (hroom : ∀ f ∈ args, endOf f ≤ 65536) :
    checkArgSpans ((argSpans args).insertionSort (fun a b => a.1 ≤ b.1)) = .ok () ↔
      args.Pairwise FieldsApart := by
  have hperm := List.perm_insertionSort (fun a b : U64 × U64 => a.1 ≤ b.1) (argSpans args)
  have hmem : ∀ {P : U64 × U64 → Prop}, (∀ f ∈ args, P (f.offset, f.value.width)) →
      ∀ s ∈ (argSpans args).insertionSort (fun a b => a.1 ≤ b.1), P s := by
    intro P h s hs
    obtain ⟨f, hf, rfl⟩ := List.mem_map.mp (hperm.mem_iff.mp hs)
    exact h f hf
  have hapart : args.Pairwise FieldsApart ↔
      (((argSpans args).insertionSort (fun a b => a.1 ≤ b.1)).map spanVal).Pairwise Apart := by
    rw [(hperm.map spanVal).pairwise_iff apart_symm, argSpans, List.map_map, List.pairwise_map]
    exact Iff.rfl
  rw [checkArgSpans_iff, hapart]
  · constructor
    · exact pairwise_apart_of_separated
    · have htotal : Std.Total (fun a b : U64 × U64 => a.1 ≤ b.1) := ⟨fun a b => le_total a.1 b.1⟩
      have htrans : IsTrans (U64 × U64) (fun a b => a.1 ≤ b.1) := ⟨fun _ _ _ => le_trans⟩
      refine separated_of_apart ?_ ?_
      · exact List.pairwise_map.mpr (List.pairwise_insertionSort _ _)
      · intro s hs
        obtain ⟨t, ht, rfl⟩ := List.mem_map.mp hs
        exact hmem (P := fun t => 0 < (spanVal t).2) (fun f _ => width_pos f.value) t ht
  · refine hmem (P := fun s => s.1.val + s.2.val < _) ?_
    intro f hf
    exact lt_of_le_of_lt (hroom f hf) (by decide)

/-! ## What is built -/

/-- The checks pass for exactly the arguments that can be laid out. -/
theorem placed_iff :
    Placed args ↔ (∀ f ∈ args, Fits f.value ∧ 152 ≤ f.offset.val) ∧ reach 152 args ≤ 65536
      ∧ checkArgSpans ((argSpans args).insertionSort (fun a b => a.1 ≤ b.1)) = .ok () := by
  rw [reach_le_iff]
  constructor
  · rintro ⟨hfits, hcontext, hroom, hapart⟩
    refine ⟨fun f hf => ⟨hfits f hf, hcontext f hf⟩, ⟨by decide, hroom⟩, ?_⟩
    exact (checkArgSpans_sorted_iff hroom).mpr hapart
  · rintro ⟨hchecked, ⟨-, hroom⟩, hspans⟩
    exact ⟨fun f hf => (hchecked f hf).1, fun f hf => (hchecked f hf).2, hroom,
      (checkArgSpans_sorted_iff hroom).mp hspans⟩

/-- Arguments reach past the context if there are any. -/
theorem reach_of_placed (h : Placed args) :
    args = [] ∧ reach 152 args = 152 ∨ ∃ f ∈ args, reach 152 args = endOf f := by
  rcases reach_mem 152 args with hcontext | hlast
  · left
    refine ⟨List.eq_nil_iff_forall_not_mem.mpr (fun f hf => ?_), hcontext⟩
    have hend := (reach_le_iff.mp (le_of_eq hcontext)).2 f hf
    have hpos := width_pos f.value
    have hstart := h.context f hf
    rw [endOf] at hend
    omega
  · exact Or.inr hlast

/-- Arguments that can be laid out are, one write after another. -/
theorem laidOut_of_placed (h : Placed args) : ∃ memory,
    args.foldlM (fun memory field => putBytes memory field.offset field.value.bytes)
        (List.replicate (reach 152 args) 0) = .ok memory
      ∧ LaidOut args memory := by
  have hbound := reach_le_iff.mp (le_refl (reach 152 args))
  have hsmall : reach 152 args ≤ 65536 := (placed_iff.mp h).2.1
  have hwidth : ∀ f : FieldArg, f.value.bytes.length = f.value.width.val :=
    fun f => FieldValue.length_bytes f.value
  have hinside : ∀ w ∈ args.map (fun f => (f.offset.val, f.value.bytes)),
      w.1 + w.2.length ≤ (List.replicate (reach 152 args) (0 : UInt8)).length := by
    intro w hw
    obtain ⟨f, hf, rfl⟩ := List.mem_map.mp hw
    rw [hwidth, List.length_replicate]
    exact hbound.2 f hf
  have hapart : (args.map (fun f => (f.offset.val, f.value.bytes))).Pairwise
      (fun a b => Apart (span a) (span b)) := by
    refine List.pairwise_map.mpr (h.apart.imp ?_)
    intro a b hab
    rw [span, span, hwidth, hwidth]
    exact hab
  obtain ⟨memory, hwrite, hlen, hread, hkeep⟩ := writeAll_apart _ hinside hapart
  rw [List.length_replicate] at hlen
  refine ⟨memory, (foldlM_putBytes hwrite (by rw [List.length_replicate]; exact hsmall)).1, ?_⟩
  refine ⟨hlen ▸ hbound.1, fun f hf => hlen ▸ hbound.2 f hf, hlen ▸ reach_of_placed h, ?_, ?_⟩
  · intro f hf
    have := hread _ (List.mem_map_of_mem hf)
    rwa [hwidth] at this
  · intro i hi hfree
    rw [hkeep i, List.getElem?_replicate, if_pos (hlen ▸ hi)]
    intro w hw
    obtain ⟨f, hf, rfl⟩ := List.mem_map.mp hw
    rw [hwidth]
    exact hfree f hf

/-- **What a call's arguments are built into.** -/
theorem buildCallArgs_iff {selector : Bytes 4} {bytes : List UInt8} :
    buildCallArgs selector args = .ok bytes ↔
      Placed args ∧ ∃ memory, args.foldlM
          (fun memory field => putBytes memory field.offset field.value.bytes)
          (List.replicate (reach 152 args) 0) = .ok memory
        ∧ bytes = selector.val ++ memory := by
  rw [placed_iff]
  constructor
  · intro h
    obtain ⟨memLen, hends, h⟩ := bind_ok h
    obtain ⟨hroom, h⟩ := guard_ok h
    obtain ⟨_, hspans, h⟩ := bind_ok h
    obtain ⟨memory, hmemory, h⟩ := bind_ok h
    cases h
    obtain ⟨hchecked, hlen⟩ := foldlM_argEnd_iff.mp hends
    rw [hlen] at hroom hmemory
    exact ⟨⟨hchecked, not_lt.mp hroom, hspans⟩, memory, hmemory, rfl⟩
  · rintro ⟨⟨hchecked, hroom, hspans⟩, memory, hmemory, rfl⟩
    have hword : reach 152 args < 18446744073709551616 := lt_of_le_of_lt hroom (by decide)
    have hends : args.foldlM argEnd contractContextBytes = .ok ⟨reach 152 args, hword⟩ :=
      foldlM_argEnd_iff.mpr ⟨hchecked, rfl⟩
    refine bind_pass hends (guard_pass (not_lt.mpr hroom) (bind_pass hspans ?_))
    exact bind_pass hmemory rfl

/-- There is one memory that holds some arguments, in whatever order they are
    listed. -/
theorem LaidOut.unique {memory memory' : List UInt8} (hperm : args.Perm args')
    (h : LaidOut args memory) (h' : LaidOut args' memory') : memory = memory' := by
  have hends : ∀ {as bs : List FieldArg} {m n : List UInt8}, as.Perm bs → LaidOut as m →
      LaidOut bs n → m.length ≤ n.length := by
    intro as bs m n hp hm hn
    rcases hm.least with ⟨-, hm⟩ | ⟨f, hf, hm⟩
    · exact hm ▸ hn.context
    · exact hm ▸ hn.covers f (hp.mem_iff.mp hf)
  have hlen := le_antisymm (hends hperm h h') (hends hperm.symm h' h)
  refine List.ext_getElem? (fun i => ?_)
  by_cases hi : i < memory.length
  · by_cases hin : ∃ f ∈ args, f.offset.val ≤ i ∧ i < endOf f
    · -- the byte is one of an argument that both hold
      obtain ⟨f, hf, hlow, hhigh⟩ := hin
      have hslice := (h.holds f hf).trans (h'.holds f (hperm.mem_iff.mp hf)).symm
      have hbyte := congrArg (·[i - f.offset.val]?) hslice
      have hinside : i - f.offset.val < f.value.width.val := by
        rw [endOf] at hhigh
        omega
      simp only [getElem?_slice, if_pos hinside] at hbyte
      rwa [show f.offset.val + (i - f.offset.val) = i by omega] at hbyte
    · push Not at hin
      rw [h.zero i hi (fun f hf hboth => absurd hboth.2 (not_lt.mpr (hin f hf hboth.1))),
        h'.zero i (hlen ▸ hi) (fun f hf hboth =>
          absurd hboth.2 (not_lt.mpr (hin f (hperm.mem_iff.mpr hf) hboth.1)))]
  · rw [List.getElem?_eq_none (not_lt.mp hi), List.getElem?_eq_none (hlen ▸ not_lt.mp hi)]

theorem Placed.perm (hperm : args.Perm args') (h : Placed args) : Placed args' where
  fits := fun f hf => h.fits f (hperm.mem_iff.mpr hf)
  context := fun f hf => h.context f (hperm.mem_iff.mpr hf)
  room := fun f hf => h.room f (hperm.mem_iff.mpr hf)
  apart := (hperm.pairwise_iff (fun hab => apart_symm hab)).mp h.apart

/-- **A call's arguments are built exactly when they can be laid out**, into the
    selector and the one memory that holds them, whatever order they are listed
    in. -/
theorem call_args_lay_out (selector : Bytes 4) (args : List FieldArg) :
    ((∃ bytes, buildCallArgs selector args = .ok bytes) ↔ Placed args)
      ∧ (∀ bytes, buildCallArgs selector args = .ok bytes →
        ∃ memory, bytes = selector.val ++ memory ∧ LaidOut args memory)
      ∧ ∀ args', args.Perm args' → ∀ bytes, buildCallArgs selector args = .ok bytes →
        buildCallArgs selector args' = .ok bytes := by
  refine ⟨?_, ?_, ?_⟩
  · constructor
    · rintro ⟨bytes, h⟩
      exact (buildCallArgs_iff.mp h).1
    · intro h
      obtain ⟨memory, hmemory, -⟩ := laidOut_of_placed h
      exact ⟨_, buildCallArgs_iff.mpr ⟨h, memory, hmemory, rfl⟩⟩
  · intro bytes h
    obtain ⟨hplaced, memory, hmemory, rfl⟩ := buildCallArgs_iff.mp h
    obtain ⟨built, hbuilt, hlaid⟩ := laidOut_of_placed hplaced
    cases hbuilt.symm.trans hmemory
    exact ⟨_, rfl, hlaid⟩
  · intro args' hperm bytes h
    obtain ⟨hplaced, memory, hmemory, rfl⟩ := buildCallArgs_iff.mp h
    obtain ⟨built, hbuilt, hlaid⟩ := laidOut_of_placed hplaced
    cases hbuilt.symm.trans hmemory
    obtain ⟨memory', hmemory', hlaid'⟩ := laidOut_of_placed (hplaced.perm hperm)
    rw [hlaid.unique hperm hlaid']
    exact buildCallArgs_iff.mpr ⟨hplaced.perm hperm, memory', hmemory', rfl⟩

end

end QCoreCallArgs
