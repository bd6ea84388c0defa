import Mathlib
import QCore.MachineIntProofs
import QCore.FallibleProofs
import QCore.ClientProofs
import QCore.SigningProofs

/-! # Exactly which heads a deadline is set from

    A deadline is set from a head the gateway reports, bounded by the chain's
    clock, by an earlier head and by how fast blocks are made.  Each bound is
    computed in clamped words from values the gateway or the caller chose.
    `Admitted` is the same decision in whole numbers, and the two agree: a head is
    itself a word, so where a bound is clamped it does not bind. -/

namespace QCoreDeadlineExact

open QCoreMachineInt QCoreFallible QCoreClient QCoreSigning

/-- What a clock allows of a head, in whole numbers. -/
structure WithinClock (clock : ChainClock) (head wallSecs : ℤ) (floor : Option U64)
    (floorAgeSecs : ℤ) : Prop where
  ceiling : head ≤ max 0 (wallSecs - clock.genesisSecs.val) * clock.blocksPerSec.val + 240
  leap : ∀ f, floor = some f → head ≤ f.val + floorAgeSecs * clock.blocksPerSec.val + 240

/-- A head a deadline may be set from. -/
structure Admitted (clock : Option ChainClock) (verified : Bool) (head wallSecs : ℤ)
    (floor : Option U64) (floorAgeSecs : ℤ) : Prop where
  reachable : head ≤ 2 ^ 40
  notBelow : ∀ f, floor = some f → (f.val : ℤ) ≤ head
  bounded : verified = true ∨ ∃ c, clock = some c ∧ WithinClock c head wallSecs floor floorAgeSecs

section

variable {clock : Option ChainClock} {verified : Bool} {head wallSecs floorAgeSecs : U64}
  {floor : Option U64}

/-- The clamped ceiling refuses the heads the true one does. -/
theorem le_headCeiling_iff {c : ChainClock} (head wallSecs : U64) :
    head ≤ c.headCeiling wallSecs ↔
      (head.val : ℤ) ≤ max 0 ((wallSecs.val : ℤ) - c.genesisSecs.val) * c.blocksPerSec.val + 240 := by
  have hword := head.isLt
  have hslack : headSlackBlocks.val = 240 := rfl
  have helapsed : max 0 ((wallSecs.val : ℤ) - c.genesisSecs.val)
      = ((wallSecs.val - c.genesisSecs.val : ℕ) : ℤ) := by omega
  rw [helapsed, ← Nat.cast_mul, Fin.le_def, ChainClock.headCeiling, saturatingAdd_val,
    saturatingMul_val, hslack]
  show head.val ≤ min (min ((wallSecs.val - c.genesisSecs.val) * c.blocksPerSec.val) _ + 240) _ ↔ _
  omega

/-- So does the clamped bound on how far a head leapt. -/
theorem le_leapCeiling_iff {c : ChainClock} (head floor floorAgeSecs : U64) :
    head ≤ leapCeiling c floor floorAgeSecs ↔
      (head.val : ℤ) ≤ floor.val + floorAgeSecs.val * c.blocksPerSec.val + 240 := by
  have hword := head.isLt
  have hslack : headSlackBlocks.val = 240 := rfl
  rw [← Nat.cast_mul, Fin.le_def, leapCeiling, saturatingAdd_val, saturatingAdd_val,
    saturatingMul_val, hslack]
  omega

/-- A clock, if there is one, passes a check. -/
theorem any_clock_iff {bound : Option ChainClock} {p : ChainClock → Prop} [DecidablePred p] :
    ¬ bound.any (fun c => decide (p c)) = true ↔ ∀ c, bound = some c → ¬ p c := by
  cases bound with
  | none => simp
  | some c => simp

/-- A head that is not verified is bounded by a clock, and one that is needs none. -/
theorem boundingClock_iff {bound : Option ChainClock} :
    boundingClock clock verified = .ok bound ↔
      verified = true ∧ bound = none ∨ verified = false ∧ ∃ c, clock = some c ∧ bound = some c := by
  cases verified with
  | true =>
      rw [boundingClock, Except.ok.injEq]
      simp [eq_comm]
  | false =>
      cases clock with
      | none => simp [boundingClock]
      | some c =>
          rw [boundingClock, Except.ok.injEq]
          simp [eq_comm]

/-- A head is accepted that is not below the floor nor further above it than its age
    allows. -/
theorem checkFloor_iff :
    checkFloor clock head floor floorAgeSecs = .ok () ↔
      ∀ f, floor = some f →
        f ≤ head ∧ ∀ c, clock = some c → head ≤ leapCeiling c f floorAgeSecs := by
  cases floor with
  | none => simp [checkFloor]
  | some f =>
      rw [checkFloor, guard_iff, refuseIf_iff, any_clock_iff]
      simp only [not_lt, Option.some.injEq, forall_eq']

/-- The deadline of such a head is far from the largest word. -/
theorem deadline_val (h : head ≤ maxPlausibleHead) :
    (saturatingAdd head defaultValidityBlocks).val = head.val + 300 := by
  have hhead : head.val ≤ 1099511627776 := h
  have hblocks : defaultValidityBlocks.val = 300 := rfl
  rw [saturatingAdd_val, hblocks]
  omega

/-- **The closing check never refuses** a deadline three hundred blocks past a
    head the chain can have reached. -/
theorem checkValidUntil_default (h : head ≤ maxPlausibleHead) :
    checkValidUntil (saturatingAdd head defaultValidityBlocks) head = .ok () := by
  have hhead : head.val ≤ 1099511627776 := h
  have hsum := deadline_val h
  have hdeadline : checkDeadline (saturatingAdd head defaultValidityBlocks) = .ok () := by
    refine guard_pass ?_ (if_neg ?_)
    · intro hzero
      rw [hzero] at hsum
      have : (0 : U64).val = 0 := rfl
      omega
    · have hreach : (saturatingAdd maxPlausibleHead maxValidityBlocks).val = 1099511631376 := rfl
      rw [Fin.lt_def, hreach]
      omega
  refine bind_pass hdeadline (guard_pass ?_ (if_neg ?_))
  · rw [Fin.le_def]
    omega
  · have hblocks : maxValidityBlocks.val = 3600 := rfl
    rw [Fin.lt_def, hblocks]
    show ¬ 3600 < (saturatingAdd head defaultValidityBlocks).val - head.val
    omega

/-- The bounds on a head, one for each check. -/
theorem admitted_iff :
    Admitted clock verified head.val wallSecs.val floor floorAgeSecs.val ↔
      head ≤ maxPlausibleHead ∧ ∃ bound, boundingClock clock verified = .ok bound
        ∧ (∀ c, bound = some c → head ≤ c.headCeiling wallSecs)
        ∧ checkFloor bound head floor floorAgeSecs = .ok () := by
  have hreach : ((head.val : ℤ) ≤ 2 ^ 40) ↔ head ≤ maxPlausibleHead := by
    rw [Fin.le_def, show maxPlausibleHead.val = 1099511627776 from rfl]
    omega
  simp only [boundingClock_iff, checkFloor_iff]
  constructor
  · rintro ⟨hhead, hfloor, hbounded⟩
    refine ⟨hreach.mp hhead, ?_⟩
    have hbelow : ∀ f, floor = some f → f ≤ head := fun f hf => by
      have := hfloor f hf
      exact Fin.le_def.mpr (by omega)
    cases verified with
    | true =>
        have hnone : ∀ {c : ChainClock} {P : Prop}, none = some c → P :=
          fun hc => absurd hc.symm (Option.some_ne_none _)
        refine ⟨none, Or.inl ⟨rfl, rfl⟩, fun c hc => hnone hc, ?_⟩
        exact fun f hf => ⟨hbelow f hf, fun c hc => hnone hc⟩
    | false =>
        obtain ⟨c, hc, hwithin⟩ := hbounded.resolve_left Bool.false_ne_true
        refine ⟨some c, Or.inr ⟨rfl, c, hc, rfl⟩, ?_, ?_⟩
        · rintro _ ⟨⟩
          exact (le_headCeiling_iff _ _).mpr hwithin.ceiling
        · refine fun f hf => ⟨hbelow f hf, ?_⟩
          rintro _ ⟨⟩
          exact (le_leapCeiling_iff _ _ _).mpr (hwithin.leap f hf)
  · rintro ⟨hhead, bound, hbound, hceiling, hfloor⟩
    refine ⟨hreach.mpr hhead, ?_, ?_⟩
    · intro f hf
      have := Fin.le_def.mp (hfloor f hf).1
      omega
    · rcases hbound with ⟨hverified, -⟩ | ⟨-, c, hclock, hc⟩
      · exact Or.inl hverified
      · refine Or.inr ⟨c, hclock, ?_, ?_⟩
        · exact (le_headCeiling_iff _ _).mp (hceiling c hc)
        · exact fun f hf => (le_leapCeiling_iff _ _ _).mp ((hfloor f hf).2 c hc)

/-- **A deadline is set from exactly the heads that are admitted**, decided in
    whole numbers: no clamped word changes the decision, and the check of the
    deadline that was just chosen never refuses it. -/
theorem bounded_valid_until_iff (clock : Option ChainClock) (verified : Bool)
    (head wallSecs : U64) (floor : Option U64) (floorAgeSecs : U64) :
    (∀ v, boundedValidUntilFor clock verified head wallSecs floor floorAgeSecs = .ok v ↔
        Admitted clock verified head.val wallSecs.val floor floorAgeSecs.val
          ∧ v.val = head.val + 300)
      ∧ (head ≤ maxPlausibleHead →
        checkValidUntil (saturatingAdd head defaultValidityBlocks) head = .ok ()) := by
  refine ⟨fun v => ?_, checkValidUntil_default⟩
  rw [boundedValidUntilFor, guard_iff, admitted_iff, not_lt]
  constructor
  · rintro ⟨hhead, h⟩
    obtain ⟨bound, hbound, h⟩ := bind_ok h
    obtain ⟨hceiling, h⟩ := guard_ok h
    obtain ⟨_, hfloor, h⟩ := bind_ok h
    obtain ⟨_, -, h⟩ := bind_ok h
    cases h
    refine ⟨⟨hhead, bound, hbound, ?_, hfloor⟩, deadline_val hhead⟩
    exact fun c hc => not_lt.mp (any_clock_iff.mp hceiling c hc)
  · rintro ⟨⟨hhead, bound, hbound, hceiling, hfloor⟩, hv⟩
    refine ⟨hhead, bind_pass hbound (guard_pass ?_ (bind_pass hfloor ?_))⟩
    · exact any_clock_iff.mpr (fun c hc => not_lt.mpr (hceiling c hc))
    · refine bind_pass (checkValidUntil_default hhead) ?_
      exact congrArg Except.ok (Fin.ext ((deadline_val hhead).trans hv.symm))

end

end QCoreDeadlineExact
