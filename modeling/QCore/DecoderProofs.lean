import Mathlib.Control.Monad.Basic
import Mathlib.Tactic.Common
import QCore.FallibleProofs

/-! # Decoders

    A decoder reads from the front of the unread bytes and may refuse.  `Reads d
    bytes a` says that `d` reads `a` off `bytes` whatever follows them, so what
    two decoders read one after the other is read off the two strings put
    together (`Reads.bind`).  A round trip of a format is proved field by field
    with these rules.

    `Takes d P write` is the converse: whatever `d` reads was written in front of
    what it leaves.  Where each field of a format takes what it writes, no two
    strings decode to one value.

    `Stable d refusal` says that more bytes do not change what is read, and that
    there is one way to refuse.  A string that a stable decoder accepts whole is
    refused when it is cut short or made longer. -/

namespace QCoreDecoder

open QCoreFallible

variable {ε α β : Type}

/-- A decoder over the unread bytes. -/
abbrev Decode (ε : Type) := StateT (List UInt8) (Except ε)

/-- Read one field, or refuse. -/
def field (read : List UInt8 → Option (α × List UInt8)) (refusal : ε) : Decode ε α :=
  fun unread => okOr (read unread) refusal

/-- Refuse inside a decoder. -/
def refuse (p : Prop) [Decidable p] (refusal : ε) : Decode ε Unit :=
  fun unread => do
    refuseIf p refusal
    return ((), unread)

/-- Read the same thing a number of times. -/
def times (read : Decode ε α) : (n : Nat) → Decode ε { l : List α // l.length = n }
  | 0 => return ⟨[], rfl⟩
  | n + 1 => do
      let a ← read
      let rest ← times read n
      return ⟨a :: rest.val, by rw [List.length_cons, rest.property]⟩

/-- Decode a whole string: a byte left unread is refused. -/
def decodeAll (d : Decode ε α) (refusal : ε) (bytes : List UInt8) : Except ε α := do
  let (a, unread) ← d.run bytes
  refuseIf (unread ≠ []) refusal
  return a

/-- What a decoder reads off a string of bytes, whatever follows it. -/
def Reads (d : Decode ε α) (bytes : List UInt8) (a : α) : Prop :=
  ∀ rest, d (bytes ++ rest) = .ok (a, rest)

namespace Reads

variable {d : Decode ε α} {f : α → Decode ε β} {bytes bytes' : List UInt8} {a : α} {b : β}

theorem pure : Reads (pure a : Decode ε α) [] a := fun _ => rfl

/-- What one decoder reads and then the next, both read together. -/
theorem bind (hd : Reads d bytes a) (hf : Reads (f a) bytes' b) :
    Reads (d >>= f) (bytes ++ bytes') b := by
  intro rest
  show (d (bytes ++ bytes' ++ rest) >>= fun r => f r.1 r.2) = _
  rw [List.append_assoc, hd, ok_bind]
  exact hf rest

/-- A step that reads nothing. -/
theorem bind_nil (hd : Reads d [] a) (hf : Reads (f a) bytes b) : Reads (d >>= f) bytes b :=
  hd.bind hf

/-- The last step of a decoder, which only builds the result. -/
theorem bind_pure {g : α → β} (hd : Reads d bytes a) :
    Reads (d >>= fun a => (Pure.pure (g a) : Decode ε β)) bytes (g a) := by
  have h := hd.bind (f := fun a => (Pure.pure (g a) : Decode ε β)) (pure (a := g a))
  rwa [List.append_nil] at h

/-- A check that does not refuse reads nothing. -/
theorem refuse {p : Prop} [Decidable p] {refusal : ε} (h : ¬ p) :
    Reads (refuse p refusal) [] () := by
  intro rest
  show (refuseIf p refusal >>= fun _ => Pure.pure ((), rest)) = _
  rw [refuseIf, if_neg h]
  rfl

/-- A field reads what its reader does. -/
theorem field {read : List UInt8 → Option (α × List UInt8)} {refusal : ε}
    (h : ∀ rest, read (bytes ++ rest) = some (a, rest)) :
    Reads (field read refusal) bytes a := by
  intro rest
  rw [QCoreDecoder.field, h, okOr_some]

/-- Reading a list, one element after another. -/
theorem times {write : α → List UInt8} {l : List α} {n : Nat} (hlen : l.length = n)
    (h : ∀ a ∈ l, Reads d (write a) a) : Reads (times d n) (l.flatMap write) ⟨l, hlen⟩ := by
  induction l generalizing n with
  | nil =>
      subst hlen
      exact pure
  | cons a rest ih =>
      subst hlen
      rw [List.flatMap_cons]
      refine (h a List.mem_cons_self).bind ?_
      exact (ih rfl (fun b hb => h b (List.mem_cons_of_mem _ hb))).bind_pure

end Reads

/-- A string read to its end is accepted. -/
theorem decodeAll_ok {d : Decode ε α} {bytes : List UInt8} {a : α} {refusal : ε}
    (h : Reads d bytes a) : decodeAll d refusal bytes = .ok a := by
  have hd := h []
  rw [List.append_nil] at hd
  show (d bytes >>= fun r => refuseIf (r.2 ≠ []) refusal >>= fun _ => pure r.1) = _
  rw [hd, ok_bind]
  rfl

/-! ## What a decoder takes -/

/-- Whatever a decoder reads is written in front of what it leaves. -/
def Takes (d : Decode ε α) (P : α → Prop) (write : α → List UInt8) : Prop :=
  ∀ ⦃bytes a rest⦄, d bytes = .ok (a, rest) → P a ∧ bytes = write a ++ rest

namespace Takes

variable {d : Decode ε α} {f : α → Decode ε β} {P : α → Prop} {write : α → List UInt8}
  {bytes rest : List UInt8} {b : β}

theorem field {read : List UInt8 → Option (α × List UInt8)} {refusal : ε}
    (h : ∀ bytes a rest, read bytes = some (a, rest) → P a ∧ bytes = write a ++ rest) :
    Takes (field read refusal) P write := by
  intro bytes a rest hread
  exact h bytes a rest (okOr_ok hread)

/-- A step that takes something before the rest. -/
theorem bind_ok (hd : Takes d P write) (h : (d >>= f) bytes = .ok (b, rest)) :
    ∃ a mid, P a ∧ bytes = write a ++ mid ∧ f a mid = .ok (b, rest) := by
  obtain ⟨⟨a, mid⟩, hread, h⟩ := QCoreFallible.bind_ok h
  obtain ⟨hp, hbytes⟩ := hd hread
  exact ⟨a, mid, hp, hbytes, h⟩

/-- Reading a list, one element after another. -/
theorem times (hd : Takes d P write) (n : Nat) :
    Takes (times d n) (fun l => ∀ a ∈ l.val, P a) (fun l => l.val.flatMap write) := by
  induction n with
  | zero =>
      intro bytes l rest h
      cases h
      exact ⟨fun a ha => absurd ha List.not_mem_nil, rfl⟩
  | succ n ih =>
      intro bytes l rest h
      obtain ⟨a, mid, hp, hbytes, htail⟩ := hd.bind_ok h
      obtain ⟨tail, mid', hall, hmid, hlast⟩ := ih.bind_ok htail
      cases hlast
      refine ⟨?_, ?_⟩
      · intro b hb
        rcases List.mem_cons.mp hb with rfl | hb
        · exact hp
        · exact hall b hb
      · show bytes = (a :: tail.val).flatMap write ++ rest
        rw [hbytes, hmid, List.flatMap_cons, List.append_assoc]

end Takes

/-- A check made inside a decoder reads nothing. -/
theorem refuse_bind_ok {p : Prop} [Decidable p] {refusal : ε} {f : Unit → Decode ε β}
    {bytes rest : List UInt8} {b : β} (h : (refuse p refusal >>= f) bytes = .ok (b, rest)) :
    ¬ p ∧ f () bytes = .ok (b, rest) := by
  obtain ⟨⟨u, mid⟩, hcheck, h⟩ := bind_ok h
  obtain ⟨hp, hmid⟩ := guard_ok hcheck
  cases hmid
  exact ⟨hp, h⟩

/-- A computation made inside a decoder reads nothing. -/
theorem lift_bind_ok {x : Except ε α} {f : α → Decode ε β} {bytes rest : List UInt8} {b : β}
    (h : ((liftM x : Decode ε α) >>= f) bytes = .ok (b, rest)) :
    ∃ a, x = .ok a ∧ f a bytes = .ok (b, rest) := by
  obtain ⟨⟨a, mid⟩, hx, h⟩ := bind_ok h
  cases x with
  | error e => cases hx
  | ok a' =>
      cases hx
      exact ⟨_, rfl, h⟩

/-- A whole string that is accepted is what its value is written as. -/
theorem decodeAll_takes {d : Decode ε α} {P : α → Prop} {write : α → List UInt8} {refusal : ε}
    {bytes : List UInt8} {a : α} (hd : Takes d P write) (h : decodeAll d refusal bytes = .ok a) :
    P a ∧ bytes = write a := by
  obtain ⟨⟨a', unread⟩, hread, h⟩ := bind_ok h
  obtain ⟨hall, h⟩ := guard_ok h
  cases h
  obtain ⟨hp, hbytes⟩ := hd hread
  rw [not_not.mp hall, List.append_nil] at hbytes
  exact ⟨hp, hbytes⟩

/-! ## Strings that are cut short or made longer -/

/-- More bytes after those that are read are left, and every refusal is the same. -/
structure Stable (d : Decode ε α) (refusal : ε) : Prop where
  more : ∀ ⦃bytes a rest⦄ (extra : List UInt8), d bytes = .ok (a, rest) →
    d (bytes ++ extra) = .ok (a, rest ++ extra)
  refuses : ∀ ⦃bytes e⦄, d bytes = .error e → e = refusal

namespace Stable

variable {d : Decode ε α} {f : α → Decode ε β} {refusal : ε}

theorem pure (a : α) : Stable (Pure.pure a : Decode ε α) refusal where
  more bytes b rest extra h := by
    cases h
    rfl
  refuses bytes e h := by cases h

/-- One stable decoder after another is stable. -/
theorem bind (hd : Stable d refusal) (hf : ∀ a, Stable (f a) refusal) :
    Stable (d >>= f) refusal where
  more bytes b rest extra h := by
    obtain ⟨⟨a, mid⟩, hread, h⟩ := bind_ok h
    exact bind_pass (hd.more extra hread) ((hf a).more extra h)
  refuses bytes e h := by
    cases hread : d bytes with
    | error e' =>
        have h' : Except.error e' = (Except.error e : Except ε (β × List UInt8)) := by
          rw [← h]
          show _ = (d bytes >>= fun r => f r.1 r.2)
          rw [hread]
          rfl
        cases h'
        exact hd.refuses hread
    | ok r =>
        have hrest : f r.1 r.2 = .error e := by
          rw [← h]
          show _ = (d bytes >>= fun r => f r.1 r.2)
          rw [hread, ok_bind]
        exact (hf r.1).refuses hrest

/-- A field is stable where its reader is. -/
theorem field {read : List UInt8 → Option (α × List UInt8)}
    (h : ∀ bytes a rest extra, read bytes = some (a, rest) →
      read (bytes ++ extra) = some (a, rest ++ extra)) :
    Stable (field read refusal) refusal where
  more bytes a rest extra hread := by
    rw [QCoreDecoder.field, h bytes a rest extra (okOr_ok hread), okOr_some]
  refuses bytes e hread := by
    rw [QCoreDecoder.field] at hread
    cases hvalue : read bytes with
    | none =>
        rw [hvalue] at hread
        cases hread
        rfl
    | some r =>
        rw [hvalue] at hread
        cases hread

end Stable

section

variable {d : Decode ε α} {refusal : ε} {bytes extra : List UInt8} {a : α}

/-- A byte more than what is read is refused. -/
theorem decodeAll_longer (h : Reads d bytes a) (hextra : extra ≠ []) :
    decodeAll d refusal (bytes ++ extra) = .error refusal := by
  show (d (bytes ++ extra) >>= fun r => refuseIf (r.2 ≠ []) refusal >>= fun _ => pure r.1) = _
  rw [h extra, ok_bind, refuseIf, if_pos hextra]
  rfl

/-- **A string that is cut short is refused.** -/
theorem decodeAll_shorter (hd : Stable d refusal) (h : Reads d (bytes ++ extra) a)
    (hextra : extra ≠ []) : decodeAll d refusal bytes = .error refusal := by
  show (d bytes >>= fun r => refuseIf (r.2 ≠ []) refusal >>= fun _ => pure r.1) = _
  cases hread : d bytes with
  | error e =>
      rw [hd.refuses hread]
      rfl
  | ok r =>
      -- what is left of the shorter string is left of the longer one too, which leaves nothing
      have hwhole := h []
      have hmore : d (bytes ++ extra) = .ok (r.1, r.2 ++ extra) := hd.more extra hread
      rw [List.append_nil, hmore] at hwhole
      have hnil := (List.append_eq_nil_iff.mp (Prod.mk.inj (Except.ok.inj hwhole)).2).2
      exact absurd hnil hextra

end

end QCoreDecoder
