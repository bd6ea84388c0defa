import Mathlib
import QCore.MachineIntProofs
import QCore.FallibleProofs
import QCore.TransitionProofs
import QCore.TraceProofs
import QCore.WireProofs
import QCore.SessionProofs
import QCore.SessionStateProofs
import QCore.SessionImportProofs
import QCore.ClientProofs
import QCore.TrustProofs
import QCore.RosterRunProofs
import QCore.HeadProofs
import QCore.SigningProofs
import QCore.DeadlineExactProofs
import QCore.EntryPointProofs
import QCore.SubmissionProofs

/-! # The heads a process accepts

    Every client of a process bounds a deadline by the head its gateway reports,
    and notes the head in the session they share.  The highest head noted for a
    chain is its floor, which a later head of the chain may not be below.  A saved
    session carries its floors, and restoring one notes them.

    `accepted_heads_never_decrease` is about any order of such calls: the floor is
    the greatest of what was accepted and restored for the chain, whatever the
    clocks of the clients say. -/

namespace QCoreHeadFloor

open QCoreMachineInt QCoreFallible QCoreTransition QCoreTrace QCoreTrace.Traced QCoreJson QCoreWire
  QCoreSession QCoreSession.SigningSession QCoreClient QCoreClient.Client QCoreTrust QCoreHead
  QCoreSigning QCoreDeadlineExact QCoreEntryPoint QCoreSubmission QCoreRosterRun

/-! ## Floors -/

/-- The height of the floor of a chain. -/
def floorHeight (s : SigningSession) (chain : String) : Option U64 :=
  (s.headFloor chain).map Prod.fst

/-- The heads a saved session names, none when it cannot be read. -/
def savedHeads (text : String) : List (String × U64 × U64) :=
  match readSaved text with
  | .ok (parsed, _) =>
      match readHeads parsed with
      | .ok heads => heads
      | .error _ => []
  | .error _ => []

/-- The heights of one chain among some heads, the last first. -/
def heightsOf (chain : String) (heads : List (String × U64 × U64)) : List U64 :=
  ((heads.filter (fun e => e.1 = chain)).map (fun e => e.2.1)).reverse

section

variable {s s' : SigningSession} {chain : String} {l : List U64}

/-- A floor rises to the higher of itself and the head. -/
theorem risen_height (floor : Option (U64 × U64)) (head : U64 × U64) :
    (risen floor head).1 = (floor.map Prod.fst).elim head.1 (max head.1) := by
  cases floor with
  | none => rfl
  | some old =>
      rw [risen, Option.map_some, Option.elim_some]
      split
      · next hlt => exact (max_eq_left hlt.le).symm
      · next hle => exact (max_eq_right (not_lt.mp hle)).symm

/-- **Noting a head** adds it to what the floor is the greatest of. -/
theorem floorHeight_noteHead (h : floorHeight s chain = l.max?) (height wall : U64) :
    floorHeight (s.noteHead chain height wall) chain = (height :: l).max? := by
  rw [floorHeight, headFloor_noteHead, if_pos rfl, Option.map_some, risen_height, List.max?_cons,
    ← h, floorHeight]

theorem floorHeight_other {other : String} (hne : chain ≠ other) (height wall : U64) :
    floorHeight (s.noteHead other height wall) chain = floorHeight s chain := by
  rw [floorHeight, headFloor_noteHead, if_neg hne, floorHeight]

/-- After some heads the floor is the highest of them and of what it was. -/
theorem floorHeight_foldl (heads : List (String × U64 × U64)) (h : floorHeight s chain = l.max?) :
    floorHeight (heads.foldl (fun s e => s.noteHead e.1 e.2.1 e.2.2) s) chain
      = (heightsOf chain heads ++ l).max? := by
  induction heads generalizing s l with
  | nil => exact h
  | cons e rest ih =>
      rw [List.foldl_cons]
      by_cases hc : e.1 = chain
      · have hstep : floorHeight (s.noteHead e.1 e.2.1 e.2.2) chain = (e.2.1 :: l).max? := by
          rw [hc]
          exact floorHeight_noteHead h _ _
        rw [ih hstep, heightsOf, heightsOf, List.filter_cons_of_pos (by simpa using hc),
          List.map_cons, List.reverse_cons, List.append_assoc]
        rfl
      · have hstep : floorHeight (s.noteHead e.1 e.2.1 e.2.2) chain = l.max? := by
          rw [floorHeight_other (Ne.symm hc), h]
        rw [ih hstep, heightsOf, heightsOf, List.filter_cons_of_neg (by simpa using hc)]

/-- A text that is restored notes the heads it names. -/
theorem floorHeight_restored {text : String} (hok : s.importState text = (.ok (), s'))
    (h : floorHeight s chain = l.max?) :
    floorHeight s' chain = (heightsOf chain (savedHeads text) ++ l).max? := by
  rw [importState] at hok
  rw [savedHeads]
  split at hok
  · cases (Prod.mk.inj hok).1
  · next parsed next held hread =>
      rw [hread]
      dsimp only at hok ⊢
      split at hok
      · cases (Prod.mk.inj hok).1
      · next heads hheads =>
          rw [hheads]
          obtain ⟨-, rfl⟩ := Prod.mk.inj hok
          exact floorHeight_foldl heads h

/-- A text that is refused leaves every floor. -/
theorem headFloor_notRestored {text e : String} (herror : s.importState text = (.error e, s')) :
    s'.headFloor chain = s.headFloor chain := by
  rw [importState] at herror
  split at herror
  · obtain ⟨-, rfl⟩ := Prod.mk.inj herror
    rfl
  · dsimp only at herror
    split at herror
    · obtain ⟨-, rfl⟩ := Prod.mk.inj herror
      rfl
    · cases (Prod.mk.inj herror).1

end

/-! ## Choosing a deadline -/

section

variable {self : Client} {info : NodeInfo} {t t' : ClientState}

/-- **A head that is accepted** is not below the floor of its chain, and is noted. -/
theorem validity_accepts {validUntil : U64} (h : Gives (validity self info) t validUntil t') :
    (∀ floor, floorHeight t.shared info.chainId = some floor → floor ≤ info.headHeight)
      ∧ ∃ wall, t'.shared = t.shared.noteHead info.chainId info.headHeight wall := by
  obtain ⟨genesis, u, hgenesis, h⟩ := gives_bind h
  obtain ⟨turn, rfl⟩ := signingGenesis_asks.gives hgenesis
  obtain ⟨verified, u', hverified, h⟩ := gives_bind h
  obtain ⟨turn', trusted, rfl⟩ := (verifyHead_follows info).gives hverified
  obtain ⟨-, h⟩ := gives_guard h
  obtain ⟨clock, -, h⟩ := gives_value h
  obtain ⟨wall, u'', ⟨-, rfl⟩, h⟩ := gives_bind h
  obtain ⟨deadline, hdeadline, h⟩ := gives_value (gives_read_bind h)
  obtain ⟨_, u₃, hnoted, h⟩ := gives_bind h
  obtain ⟨-, rfl⟩ := gives_pure h
  obtain rfl := gives_modify hnoted
  refine ⟨?_, wall, rfl⟩
  intro floor hfloor
  obtain ⟨-, hdeadline⟩ := guard_ok hdeadline
  obtain ⟨bound, -, hdeadline⟩ := bind_ok hdeadline
  obtain ⟨-, hdeadline⟩ := guard_ok hdeadline
  obtain ⟨_, hchecked, -⟩ := bind_ok hdeadline
  exact (checkFloor_iff.mp hchecked floor hfloor).1

/-- **A head that is refused** leaves the session of the process as it was. -/
theorem validity_refuses {e : String} (h : Refuses (validity self info) t e t') :
    t'.shared = t.shared := by
  rcases refuses_bind h with hgenesis | ⟨genesis, u, hgenesis, h⟩
  · obtain ⟨turn, rfl⟩ := signingGenesis_asks.refuses hgenesis
    rfl
  obtain ⟨turn, rfl⟩ := signingGenesis_asks.gives hgenesis
  rcases refuses_bind h with hverified | ⟨verified, u', hverified, h⟩
  · obtain ⟨turn', trusted, rfl⟩ := (verifyHead_follows info).refuses hverified
    rfl
  obtain ⟨turn', trusted, rfl⟩ := (verifyHead_follows info).gives hverified
  rcases refuses_value h with rfl | ⟨_, -, h⟩
  · rfl
  rcases refuses_value h with rfl | ⟨clock, -, h⟩
  · rfl
  rcases refuses_bind h with ⟨hreach, -⟩ | ⟨wall, u'', ⟨-, rfl⟩, h⟩
  · cases hreach
  rcases refuses_bind h with ⟨hread, -⟩ | ⟨u₃, _, ⟨hread, rfl⟩, h⟩
  · cases hread
  rcases refuses_value h with rfl | ⟨deadline, -, h⟩
  · rfl
  -- nothing refuses once the head is noted
  rcases refuses_bind h with ⟨hnoted, -⟩ | ⟨_, u₄, -, hdone, -⟩
  · cases hnoted
  · cases hdone

end

/-! ## Runs of a process -/

/-- What happens to the floors of a process. -/
inductive Event
  | accepted (chain : String) (head : U64)
  | refused (chain : String)
  | saved (text : String)
  | restored (text : String)
  | notRestored (text : String)

/-- One call of any client of the process, with any answers and any clock, or a
    session saved or restored between two calls. -/
inductive Step : SigningSession → Event → SigningSession → Prop
  | accepted {self : Client} {info : NodeInfo} {t t' : ClientState} {validUntil : U64}
      (h : Gives (validity self info) t validUntil t') :
      Step t.shared (.accepted info.chainId info.headHeight) t'.shared
  | refused {self : Client} {info : NodeInfo} {t t' : ClientState} {e : String}
      (h : Refuses (validity self info) t e t') :
      Step t.shared (.refused info.chainId) t'.shared
  | saved {s : SigningSession} : Step s (.saved s.exportState) s
  | restored {s s' : SigningSession} {text : String} (h : s.importState text = (.ok (), s')) :
      Step s (.restored text) s'
  | notRestored {s s' : SigningSession} {text e : String}
      (h : s.importState text = (.error e, s')) : Step s (.notRestored text) s'

/-- The heights an event adds for a chain, the last first. -/
def noted (chain : String) : Event → List U64
  | .accepted accepted head => if accepted = chain then [head] else []
  | .restored text => heightsOf chain (savedHeads text)
  | _ => []

/-- **One step** keeps the floor the greatest of the heights noted. -/
theorem step_tracks {s s' : SigningSession} {event : Event} {chain : String} {l : List U64}
    (hstep : Step s event s') (h : floorHeight s chain = l.max?) :
    floorHeight s' chain = (noted chain event ++ l).max? := by
  cases hstep with
  | @accepted self info t t' validUntil hgives =>
      obtain ⟨-, wall, hshared⟩ := validity_accepts hgives
      rw [hshared, noted]
      by_cases hc : info.chainId = chain
      · rw [if_pos hc, ← hc]
        exact floorHeight_noteHead (hc ▸ h) _ _
      · rw [if_neg hc, floorHeight_other (Ne.symm hc)]
        exact h
  | refused hrefuses =>
      rw [validity_refuses hrefuses]
      exact h
  | saved => exact h
  | restored hok => exact floorHeight_restored hok h
  | notRestored herror =>
      rw [floorHeight, headFloor_notRestored herror]
      exact h

/-- **A whole run** does. -/
theorem run_tracks {events : List Event} {s : SigningSession} (hrun : Run Step .new events s)
    (chain : String) : floorHeight s chain = (events.flatMap (noted chain)).max? := by
  induction hrun with
  | nil => rfl
  | cons _ hlast ih =>
      rw [List.flatMap_cons]
      exact step_tracks hlast ih

/-- A head that is accepted is not below any noted for its chain before. -/
theorem accepted_above {events : List Event} {s s' : SigningSession} {chain : String} {head : U64}
    (hrun : Run Step .new events s) (hstep : Step s (.accepted chain head) s') :
    ∀ height ∈ events.flatMap (noted chain), height ≤ head := by
  intro height hmem
  have hfloor := run_tracks hrun chain
  cases hmax : (events.flatMap (noted chain)).max? with
  | none =>
      rw [List.max?_eq_none_iff.mp hmax] at hmem
      exact absurd hmem List.not_mem_nil
  | some floor =>
      rw [hmax] at hfloor
      refine le_trans ((List.max?_eq_some_iff.mp hmax).2 height hmem) ?_
      cases hstep with
      | accepted hgives => exact (validity_accepts hgives).1 floor hfloor

/-- **The heads a process accepts for a chain never decrease.**  In every run of
    the calls that choose a deadline, by any clients and for any chains, with
    sessions saved and restored between them: a head that is accepted is at least
    every head accepted for its chain before and every head restored for it; the
    floor of a chain is the greatest of these; and a call for one chain leaves the
    floor of every other. -/
theorem accepted_heads_never_decrease {events : List Event} {s : SigningSession}
    (hrun : Run Step .new events s) :
    (∀ later earlier chain head, events = later ++ .accepted chain head :: earlier →
        (∀ old, .accepted chain old ∈ earlier → old ≤ head)
          ∧ ∀ text, .restored text ∈ earlier → ∀ e ∈ savedHeads text, e.1 = chain → e.2.1 ≤ head)
      ∧ (∀ chain, floorHeight s chain = (events.flatMap (noted chain)).max?)
      ∧ ∀ (self : Client) (info : NodeInfo) (t : ClientState) (chain : String),
        chain ≠ info.chainId →
        (validity self info t).state.shared.headFloor chain = t.shared.headFloor chain := by
  refine ⟨?_, run_tracks hrun, ?_⟩
  · rintro later earlier chain head rfl
    obtain ⟨s', hsplit, -⟩ := hrun.split
    cases hsplit with
    | cons hbefore hlast =>
        have habove := accepted_above hbefore hlast
        constructor
        · intro old hmem
          refine habove old (List.mem_flatMap.mpr ⟨_, hmem, ?_⟩)
          rw [noted, if_pos rfl]
          exact List.mem_singleton.mpr rfl
        · intro text hmem e he hchain
          refine habove e.2.1 (List.mem_flatMap.mpr ⟨_, hmem, ?_⟩)
          refine List.mem_reverse.mpr (List.mem_map.mpr ⟨e, List.mem_filter.mpr ⟨he, ?_⟩, rfl⟩)
          exact decide_eq_true hchain
  · intro self info t chain hne
    cases hresult : (validity self info t).result with
    | error e => rw [validity_refuses ⟨hresult, rfl⟩]
    | ok validUntil =>
        obtain ⟨-, wall, hshared⟩ := validity_accepts ⟨hresult, rfl⟩
        rw [hshared, headFloor_noteHead, if_neg hne]

/-! ## Two heads and a restore between them -/

/-- An exported text names the floors of its session. -/
theorem savedHeads_exportState (s : SigningSession) :
    savedHeads s.exportState = s.exportHeads := by
  rw [savedHeads, readSaved_exportState]
  dsimp only
  rw [readHeads_exportJson]

/-- A session of another process, which accepted a head of 6. -/
def otherSession : SigningSession := SigningSession.new.noteHead "Q-local" 6 0

/-- A head of 7 is accepted above a floor of 6. -/
theorem later_validity {s : SigningSession} (h : s.headFloor "Q-local" = some (6, 0)) :
    ∃ t, Gives (validity localClient { localNode with headHeight := 7 })
      { freshState with turn := 1, shared := s } 307 t := by
  have hclock : clockFor localClient { localNode with headHeight := 7 } = .ok (some ⟨0, 1⟩) := rfl
  refine ⟨_, validity_of_clock (local_genesis rfl) ⟨rfl, rfl⟩ rfl hclock ?_⟩
  show boundedValidUntilFor _ _ _ _ ((s.headFloor "Q-local").map (·.1))
    (((s.headFloor "Q-local").map _).getD 0) = _
  rw [h]
  rfl

/-- A head of 5 and then one of 7 are accepted for a local chain, with a session restored
    between them that accepted one of 6. -/
theorem accepted_heads_never_decrease_at_local : ∃ s, Run Step .new
      [.accepted "Q-local" 7, .restored otherSession.exportState, .accepted "Q-local" 5] s
    ∧ (5 : U64) ≤ 7
    ∧ (∀ e ∈ savedHeads otherSession.exportState, e.1 = "Q-local" → e.2.1 ≤ 7)
    ∧ floorHeight s "Q-local" = some 7 := by
  obtain ⟨t, -, -, hshared, hvalid⟩ := local_validity .new
  obtain ⟨s, himport, hrestored⟩ := importState_exportState t.shared otherSession
  have hfloor : s.headFloor "Q-local" = some (6, 0) := by
    rw [hrestored.heads, hshared]
    rfl
  obtain ⟨t', hvalid'⟩ := later_validity hfloor
  have hrun : Run Step .new
      [.accepted "Q-local" 7, .restored otherSession.exportState, .accepted "Q-local" 5] t'.shared :=
    ((Run.single (.accepted hvalid)).cons (.restored himport)).cons (.accepted hvalid')
  obtain ⟨hordered, htracks, -⟩ := accepted_heads_never_decrease hrun
  obtain ⟨habove, hsaved⟩ := hordered [] _ "Q-local" 7 rfl
  refine ⟨_, hrun, habove 5 (by simp), hsaved _ (by simp), ?_⟩
  rw [htracks]
  show ([7] ++ (heightsOf "Q-local" (savedHeads otherSession.exportState) ++ [5])).max? = some 7
  rw [savedHeads_exportState]
  rfl

end QCoreHeadFloor
