import Mathlib.Data.List.Basic
import Mathlib.Logic.Function.Basic

/-! # Files and their names

    A name stands for a file for as long as nothing else is given the name, and a
    process that has opened a file writes to that file, whatever its name has come
    to be.  Reading a name and renaming are one step each.  Replacing a file is not:
    it is opened and emptied, written piece by piece, and renamed.

    A process that is the only one to have opened the file has written what it meant
    to when it renames it (`Writing`). -/

namespace QCoreDisk

variable {Name : Type} [DecidableEq Name]

/-- Files by number, and the names of some: two names stand for two files. -/
structure Disk (Name : Type) where
  names : Name → Option ℕ
  contents : ℕ → List UInt8
  next : ℕ
  below : ∀ {name file}, names name = some file → file < next
  apart : ∀ {name name' file}, names name = some file → names name' = some file → name = name'

/-- A file that was opened, how far it was written, and what is left to write. -/
structure Handle where
  file : ℕ
  offset : ℕ
  rest : List UInt8

/-- Bytes put at an offset into others, with zeros in a gap before them. -/
def splice (old : List UInt8) (offset : ℕ) (bytes : List UInt8) : List UInt8 :=
  old.take offset ++ List.replicate (offset - old.length) 0 ++ bytes
    ++ old.drop (offset + bytes.length)

/-- Bytes put at the end are appended. -/
theorem splice_end (old bytes : List UInt8) : splice old old.length bytes = old ++ bytes := by
  rw [splice, List.take_length, Nat.sub_self, List.replicate_zero, List.append_nil,
    List.drop_eq_nil_of_le (Nat.le_add_right _ _), List.append_nil]

namespace Disk

/-- No file has a name. -/
def empty : Disk Name := ⟨fun _ => none, fun _ => [], 0, nofun, nofun⟩

/-- What a name stands for holds. -/
def read (disk : Disk Name) (name : Name) : Option (List UInt8) :=
  (disk.names name).map disk.contents

/-- Open a file and empty it, or make one. -/
def openEmpty (disk : Disk Name) (name : Name) : Disk Name × ℕ :=
  match h : disk.names name with
  | some file => ({ disk with contents := Function.update disk.contents file [] }, file)
  | none =>
      ({ names := Function.update disk.names name (some disk.next)
         contents := Function.update disk.contents disk.next []
         next := disk.next + 1
         below := by
           intro name' file hfile
           rw [Function.update_apply] at hfile
           split at hfile
           · cases hfile
             exact Nat.lt_succ_self _
           · exact Nat.lt_succ_of_lt (disk.below hfile)
         apart := by
           intro name' name'' file hfile hfile'
           rw [Function.update_apply] at hfile hfile'
           split at hfile <;> split at hfile'
           · next h' h'' => exact h'.trans h''.symm
           · cases hfile
             exact absurd (disk.below hfile') (Nat.lt_irrefl _)
           · cases hfile'
             exact absurd (disk.below hfile) (Nat.lt_irrefl _)
           · exact disk.apart hfile hfile' }, disk.next)

/-- Write bytes to a file that was opened. -/
def put (disk : Disk Name) (file offset : ℕ) (bytes : List UInt8) : Disk Name :=
  { disk with
    contents := Function.update disk.contents file (splice (disk.contents file) offset bytes) }

/-- Give a file another name, in the place of what had it. -/
def rename (disk : Disk Name) (source target : Name) : Option (Disk Name) :=
  match h : disk.names source with
  | none => none
  | some file =>
      some { disk with
        names := fun name =>
          if name = target then some file else if name = source then none else disk.names name
        below := by
          intro name file' hfile
          split at hfile
          · cases hfile
            exact disk.below h
          · split at hfile
            · exact nomatch hfile
            · exact disk.below hfile
        apart := by
          intro name name' file' hfile hfile'
          split at hfile <;> split at hfile'
          · next h' h'' => exact h'.trans h''.symm
          · next hne =>
              split at hfile'
              · exact nomatch hfile'
              · next hsource =>
                  cases hfile
                  exact absurd (disk.apart hfile' h) hsource
          · next hne _ =>
              split at hfile
              · exact nomatch hfile
              · next hsource =>
                  cases hfile'
                  exact absurd (disk.apart hfile h) hsource
          · split at hfile <;> split at hfile'
            · exact nomatch hfile
            · exact nomatch hfile
            · exact nomatch hfile'
            · exact disk.apart hfile hfile' }

section

variable {disk disk' : Disk Name} {name source target : Name} {file offset : ℕ}
  {bytes : List UInt8}

/-- Opening a file makes it the one of its name, and it is empty. -/
theorem openEmpty_opened (disk : Disk Name) (name : Name) :
    (disk.openEmpty name).1.names name = some (disk.openEmpty name).2
      ∧ (disk.openEmpty name).1.contents (disk.openEmpty name).2 = [] := by
  unfold openEmpty
  split
  · next file hfile => exact ⟨hfile, Function.update_self ..⟩
  · exact ⟨Function.update_self .., Function.update_self ..⟩

/-- And no other name reads another thing. -/
theorem read_openEmpty (disk : Disk Name) {name other : Name} (hne : other ≠ name) :
    (disk.openEmpty name).1.read other = disk.read other := by
  unfold openEmpty read
  split
  · next file hfile =>
      cases hother : disk.names other with
      | none => rfl
      | some file' =>
          have hapart : file' ≠ file := fun heq => hne (disk.apart hother (heq ▸ hfile))
          simp only [Option.map_some, Function.update_of_ne hapart]
  · simp only [Function.update_of_ne hne]
    cases hother : disk.names other with
    | none => rfl
    | some file' =>
        have hapart : file' ≠ disk.next := Nat.ne_of_lt (disk.below hother)
        simp only [Option.map_some, Function.update_of_ne hapart]

omit [DecidableEq Name] in
/-- A write changes nothing that the name of another file reads. -/
theorem read_put (hne : disk.names name ≠ some file) :
    (disk.put file offset bytes).read name = disk.read name := by
  unfold put read
  cases hname : disk.names name with
  | none => rfl
  | some file' =>
      have hapart : file' ≠ file := fun heq => hne (hname.trans (congrArg some heq))
      simp only [Option.map_some, Function.update_of_ne hapart]

/-- A name that stands for a file can be given up for another. -/
theorem rename_isSome (target : Name) (hsource : disk.names source = some file) :
    ∃ disk', disk.rename source target = some disk' := by
  unfold rename
  split
  · next hnone => exact nomatch hnone.symm.trans hsource
  · exact ⟨_, rfl⟩

/-- The name that it is given up for then reads what it did. -/
theorem read_rename (h : disk.rename source target = some disk') :
    disk'.read target = disk.read source := by
  unfold rename at h
  split at h
  · exact nomatch h
  · next file hfile =>
      cases h
      simp only [read, hfile, Option.map_some, if_true]

end

end Disk

/-! ## Writing a whole file -/

/-- A process writes a text to the file of a name: what it holds and what is left to
    write are the text. -/
structure Writing (disk : Disk Name) (name : Name) (handle : Handle) (text : List UInt8) : Prop where
  named : disk.names name = some handle.file
  offset : handle.offset = (disk.contents handle.file).length
  whole : disk.contents handle.file ++ handle.rest = text

section

variable {disk disk' : Disk Name} {name target : Name} {handle : Handle} {text : List UInt8}

/-- A file that was just opened is still to be written. -/
theorem writing_openEmpty (disk : Disk Name) (name : Name) (text : List UInt8) :
    Writing (disk.openEmpty name).1 name ⟨(disk.openEmpty name).2, 0, text⟩ text := by
  obtain ⟨hnamed, hempty⟩ := disk.openEmpty_opened name
  refine ⟨hnamed, ?_, ?_⟩
  · rw [hempty]
    rfl
  · rw [hempty]
    rfl

omit [DecidableEq Name] in
/-- **A piece that is written** is one less to write. -/
theorem Writing.put {piece rest : List UInt8} (h : Writing disk name handle text)
    (hrest : handle.rest = piece ++ rest) :
    Writing (disk.put handle.file handle.offset piece) name
      ⟨handle.file, handle.offset + piece.length, rest⟩ text := by
  have hcontents : (disk.put handle.file handle.offset piece).contents handle.file
      = disk.contents handle.file ++ piece := by
    rw [Disk.put, h.offset, splice_end]
    exact Function.update_self ..
  refine ⟨h.named, ?_, ?_⟩
  · rw [hcontents, List.length_append, h.offset]
  · rw [hcontents, List.append_assoc, ← hrest]
    exact h.whole

omit [DecidableEq Name] in
/-- Another name reads what it did while the file is written. -/
theorem Writing.read_put {other : Name} {piece : List UInt8} (h : Writing disk name handle text)
    (hne : other ≠ name) :
    (disk.put handle.file handle.offset piece).read other = disk.read other :=
  Disk.read_put (fun hother => hne (disk.apart hother h.named))

/-- **What was written whole** is what the name it is renamed to reads. -/
theorem Writing.read_rename (h : Writing disk name handle text) (hdone : handle.rest = [])
    (hrename : disk.rename name target = some disk') : disk'.read target = some text := by
  rw [Disk.read_rename hrename, Disk.read, h.named, Option.map_some, ← h.whole, hdone,
    List.append_nil]

/-- It can be renamed. -/
theorem Writing.rename_ne_none (h : Writing disk name handle text) :
    disk.rename name target ≠ none := by
  obtain ⟨_, hrename⟩ := Disk.rename_isSome target h.named
  rw [hrename]
  exact Option.some_ne_none _

end

end QCoreDisk
