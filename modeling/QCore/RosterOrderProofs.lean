import Mathlib
import QCore.FinalityExactProofs

/-! # The order a roster is listed in

    A roster reaches a client as a list, and two clients may hold one roster in
    different orders.  The check looks validators up by id, adds their stakes and
    cuts the active set off in an order of its own, so nothing of its answer
    depends on the list's: the active sets are permutations of each other
    (`activeSet_perm`), and the rest of the check sees an active set only through
    its total and its lookups. -/

namespace QCoreRosterOrder

open QCoreMachineInt QCoreByteMemory QCoreFallible QCoreQuorum QCoreCertificate QCoreFinality
open QCoreFinalityExact

variable {chain : Chain}

/-- A member with stake enough to be active. -/
def Eligible (chain : Chain) (m : RosterMember) : Prop := chain.minSelfStake ≤ m.stake

instance : DecidablePred (Eligible chain) := fun m =>
  inferInstanceAs (Decidable (chain.minSelfStake ≤ m.stake))

/-- The members with stake enough. -/
def eligible (chain : Chain) (roster : List RosterMember) : List RosterMember :=
  roster.filter (fun m => Eligible chain m)

/-- A member comes later in the order the active set is cut in. -/
def RanksAfter (m kept : RosterMember) : Prop :=
  m.stake < kept.stake ∨ m.stake = kept.stake ∧ kept.id < m.id

/-! ## The order of the cut -/

instance totalRank : Std.Total ranksBefore := ⟨fun a b => by
  rcases lt_trichotomy a.stake b.stake with h | h | h
  · exact Or.inr (Or.inl h)
  · rcases le_total a.id b.id with hid | hid
    · exact Or.inl (Or.inr ⟨h.symm, hid⟩)
    · exact Or.inr (Or.inr ⟨h, hid⟩)
  · exact Or.inl (Or.inl h)⟩

instance transRank : IsTrans RosterMember ranksBefore := ⟨by
  rintro a b c (hab | ⟨hab, hid⟩) (hbc | ⟨hbc, hid'⟩)
  · exact Or.inl (hbc.trans hab)
  · exact Or.inl (hbc ▸ hab)
  · exact Or.inl (hab ▸ hbc)
  · exact Or.inr ⟨hbc.trans hab, hid.trans hid'⟩⟩

/-- Members that rank before each other have one id. -/
theorem id_eq_of_ranks {a b : RosterMember} (hab : ranksBefore a b) (hba : ranksBefore b a) :
    a.id = b.id := by
  rcases hab with hlt | ⟨heq, hle⟩
  · rcases hba with hlt' | ⟨heq', -⟩
    · exact absurd (hlt.trans hlt') (lt_irrefl _)
    · exact absurd (heq' ▸ hlt) (lt_irrefl _)
  · rcases hba with hlt' | ⟨-, hle'⟩
    · exact absurd (heq ▸ hlt') (lt_irrefl _)
    · exact le_antisymm hle hle'

section

variable {roster roster' : List RosterMember}

/-- All that are eligible are active, or the best ranked of them. -/
theorem activeSet_cases (chain : Chain) (roster : List RosterMember) :
    (eligible chain roster).length ≤ chain.maxActiveValidators
        ∧ activeSet chain roster = eligible chain roster
      ∨ chain.maxActiveValidators < (eligible chain roster).length
        ∧ activeSet chain roster = ((eligible chain roster).insertionSort ranksBefore).take
          chain.maxActiveValidators := by
  by_cases h : chain.maxActiveValidators < (eligible chain roster).length
  · exact Or.inr ⟨h, if_pos h⟩
  · exact Or.inl ⟨not_lt.mp h, if_neg h⟩

/-- Whoever is left out ranks after whoever is kept. -/
theorem leftOut_ranksAfter (hids : (roster.map (·.id)).Nodup) {m kept : RosterMember}
    (hm : m ∈ eligible chain roster) (hout : m ∉ activeSet chain roster)
    (hkept : kept ∈ activeSet chain roster) : RanksAfter m kept := by
  rcases activeSet_cases chain roster with ⟨-, hall⟩ | ⟨-, hcut⟩
  · rw [hall] at hout
    exact absurd hm hout
  · rw [hcut] at hout hkept
    have hsorted := List.pairwise_insertionSort ranksBefore (eligible chain roster)
    rw [← List.take_append_drop chain.maxActiveValidators
      ((eligible chain roster).insertionSort ranksBefore)] at hsorted
    have hmem : m ∈ (eligible chain roster).insertionSort ranksBefore :=
      (List.mem_insertionSort _).mpr hm
    rw [← List.take_append_drop chain.maxActiveValidators
      ((eligible chain roster).insertionSort ranksBefore), List.mem_append] at hmem
    have hrank := (List.pairwise_append.mp hsorted).2.2 kept hkept m (hmem.resolve_left hout)
    rcases hrank with hlt | ⟨heq, hle⟩
    · exact Or.inl hlt
    · refine Or.inr ⟨heq, lt_of_le_of_ne hle ?_⟩
      -- one id would make them one member, and one is kept and the other is not
      intro hid
      have hroster : ∀ {x}, x ∈ eligible chain roster → x ∈ roster :=
        fun hx => (List.mem_filter.mp hx).1
      have hkeptMem : kept ∈ eligible chain roster :=
        (List.mem_insertionSort _).mp (List.mem_of_mem_take hkept)
      have hsame := List.inj_on_of_nodup_map hids (hroster hkeptMem) (hroster hm) hid
      exact hout (hsame ▸ hkept)

/-- **The active set of a roster listed in another order** is the same set. -/
theorem activeSet_perm (hids : (roster.map (·.id)).Nodup) (hperm : roster.Perm roster') :
    (activeSet chain roster).Perm (activeSet chain roster') := by
  have heligible : (eligible chain roster).Perm (eligible chain roster') := hperm.filter _
  rcases activeSet_cases chain roster with ⟨hfew, hall⟩ | ⟨hmany, hcut⟩
  · rcases activeSet_cases chain roster' with ⟨-, hall'⟩ | ⟨hmany', -⟩
    · rw [hall, hall']
      exact heligible
    · exact absurd (heligible.length_eq ▸ hmany') (not_lt.mpr hfew)
  · rcases activeSet_cases chain roster' with ⟨hfew', -⟩ | ⟨-, hcut'⟩
    · exact absurd (heligible.length_eq ▸ hmany) (not_lt.mpr hfew')
    · -- sorting leaves one list, as no two members rank alike
      have hsorted : (eligible chain roster).insertionSort ranksBefore
          = (eligible chain roster').insertionSort ranksBefore := by
        refine List.Perm.eq_of_pairwise ?_ (List.pairwise_insertionSort _ _)
          (List.pairwise_insertionSort _ _) ((List.perm_insertionSort _ _).trans
            (heligible.trans (List.perm_insertionSort _ _).symm))
        intro a b ha hb hab hba
        have hmem := (List.mem_filter.mp ((List.mem_insertionSort _).mp ha)).1
        have hmem' := heligible.mem_iff.mpr ((List.mem_insertionSort _).mp hb)
        exact List.inj_on_of_nodup_map hids hmem (List.mem_filter.mp hmem').1
          (id_eq_of_ranks hab hba)
      rw [hcut, hcut', hsorted]

/-! ## What the check sees of an active set -/

theorem totalStake_perm {active active' : List RosterMember} (h : active.Perm active')
    (hsize : active.length ≤ maxRoster) : totalStake active = totalStake active' := by
  refine Fin.ext ?_
  rw [totalStake_val hsize, totalStake_val (h.length_eq ▸ hsize)]
  exact weight_perm h

theorem memberOf_perm {active active' : List RosterMember} (h : active.Perm active')
    (hids : (active.map (·.id)).Nodup) (id : U64) : memberOf active id = memberOf active' id := by
  have hids' : (active'.map (·.id)).Nodup := (h.map _).nodup_iff.mp hids
  refine Option.ext (fun m => ?_)
  rw [memberOf_iff hids, memberOf_iff hids', h.mem_iff]

/-- A roster stays well formed in any order. -/
theorem wellFormed_perm (hperm : roster.Perm roster') (h : WellFormed chain roster) :
    WellFormed chain roster' where
  nonempty := hperm.length_eq ▸ h.nonempty
  size := hperm.length_eq ▸ h.size
  ids := (hperm.map _).nodup_iff.mp h.ids
  keys := (hperm.map _).nodup_iff.mp h.keys
  keyLength := fun m hm => h.keyLength m (hperm.mem_iff.mpr hm)

/-- A header that is final under a roster is final under it in another order. -/
theorem verifyFinality_perm {chainId : U64} {genesisHash : Bytes 32}
    {headerBytes certificateBytes : List UInt8} {finalized : FinalizedHeader}
    (hperm : roster.Perm roster')
    (h : verifyFinality chain chainId genesisHash headerBytes certificateBytes roster
      = .ok finalized) :
    verifyFinality chain chainId genesisHash headerBytes certificateBytes roster'
      = .ok finalized := by
  obtain ⟨hsize, h⟩ := guard_ok h
  obtain ⟨named, hnamed, h⟩ := bind_ok h
  have hroster := wellFormed_iff.mp ⟨hsize, named, hnamed⟩
  obtain ⟨hsize', named', hnamed'⟩ := wellFormed_iff.mpr (wellFormed_perm hperm hroster)
  have hactive : (activeSet chain roster).Perm (activeSet chain roster') :=
    activeSet_perm hroster.ids hperm
  have htotal := totalStake_perm hactive ((length_activeSet_le roster).trans hroster.size)
  have hmember := memberOf_perm hactive (activeSet_distinct hroster.ids)
  have hcount : ∀ envelope view, countAttestation chain chainId genesisHash
      (activeSet chain roster) envelope view
        = countAttestation chain chainId genesisHash (activeSet chain roster') envelope view := by
    intro envelope view
    funext tally attestation
    simp only [countAttestation, hmember]
  have hreveal : ∀ slot, checkReveal chain (activeSet chain roster) slot
      = checkReveal chain (activeSet chain roster') slot := by
    intro slot
    funext reveal
    simp only [checkReveal, hmember]
  refine guard_pass hsize' (bind_pass hnamed' ?_)
  simp only [htotal, hcount, hreveal] at h
  exact h

end

/-- **The active set is the eligible members, or the first of them by rank**, and
    the check of a certificate does not depend on the order its roster is listed
    in. -/
theorem roster_order_is_free (chain : Chain) :
    (∀ roster : List RosterMember, (roster.map (·.id)).Nodup →
        (activeSet chain roster).Nodup
        ∧ (∀ m ∈ activeSet chain roster, m ∈ roster ∧ Eligible chain m)
        ∧ ((eligible chain roster).length ≤ chain.maxActiveValidators →
          ∀ m ∈ roster, Eligible chain m → m ∈ activeSet chain roster)
        ∧ (chain.maxActiveValidators < (eligible chain roster).length →
          (activeSet chain roster).length = chain.maxActiveValidators
          ∧ ∀ m ∈ roster, Eligible chain m → m ∉ activeSet chain roster →
            ∀ kept ∈ activeSet chain roster, RanksAfter m kept))
      ∧ ∀ roster roster' : List RosterMember, roster.Perm roster' →
        ∀ chainId genesisHash headerBytes certificateBytes finalized,
          verifyFinality chain chainId genesisHash headerBytes certificateBytes roster
              = .ok finalized ↔
            verifyFinality chain chainId genesisHash headerBytes certificateBytes roster'
              = .ok finalized := by
  refine ⟨?_, ?_⟩
  · intro roster hids
    have hmem : ∀ {m}, m ∈ roster → Eligible chain m → m ∈ eligible chain roster :=
      fun hm heligible => List.mem_filter.mpr ⟨hm, decide_eq_true heligible⟩
    refine ⟨(activeSet_distinct hids).of_map _, fun m hm => mem_activeSet hm, ?_, ?_⟩
    · intro hfew m hm heligible
      rcases activeSet_cases chain roster with ⟨-, hall⟩ | ⟨hmany, -⟩
      · rw [hall]
        exact hmem hm heligible
      · exact absurd hmany (not_lt.mpr hfew)
    · intro hmany
      refine ⟨?_, fun m hm heligible hout kept hkept =>
        leftOut_ranksAfter hids (hmem hm heligible) hout hkept⟩
      rcases activeSet_cases chain roster with ⟨hfew, -⟩ | ⟨-, hcut⟩
      · exact absurd hmany (not_lt.mpr hfew)
      · rw [hcut, List.length_take, List.length_insertionSort]
        exact min_eq_left hmany.le
  · intro roster roster' hperm chainId genesisHash headerBytes certificateBytes finalized
    exact ⟨verifyFinality_perm hperm, verifyFinality_perm hperm.symm⟩

end QCoreRosterOrder
