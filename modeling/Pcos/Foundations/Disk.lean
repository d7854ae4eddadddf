import Mathlib.Logic.Function.Basic
import Pcos.Foundations.Digest
import Pcos.Foundations.Wp

/-!
# Foundations/Disk — files that are created, written, renamed and removed

A disk has files by path; each operation is one step.  A program on it is a handler whose state is
the disk, so that what it has written stays when it fails.
-/

namespace Foundations

/-- A path, by its components. -/
abbrev DiskPath := List String

abbrev Disk := DiskPath → Option Bytes

inductive DiskError
  | notFound
  deriving DecidableEq, Repr

abbrev OnDisk := EStateM DiskError Disk

namespace Disk

/-- Create a file, or truncate it. -/
def create (path : DiskPath) : OnDisk Unit := modify fun d => Function.update d path (some [])

/-- Write at the end of a file. -/
def append (path : DiskPath) (data : Bytes) : OnDisk Unit :=
  modify fun d => Function.update d path ((d path).map (· ++ data))

def read (path : DiskPath) : OnDisk Bytes := do
  let d ← get
  okOr (d path) .notFound

/-- Rename a file, over the one there is. -/
def rename (source target : DiskPath) : OnDisk Unit := do
  let data ← read source
  modify fun d => Function.update (Function.update d source none) target (some data)

/-- Remove the files that are chosen. -/
def remove (chosen : DiskPath → Bool) : OnDisk Unit :=
  modify fun d path => if chosen path then none else d path

variable {Q : Unit → Disk → Prop} {E : DiskError → Disk → Prop} {d : Disk}

@[simp] theorem wp_create (path : DiskPath) :
    wp (create path) Q E d ↔ Q () (Function.update d path (some [])) := Iff.rfl

@[simp] theorem wp_append (path : DiskPath) (data : Bytes) : wp (append path data) Q E d
    ↔ Q () (Function.update d path ((d path).map (· ++ data))) := Iff.rfl

@[simp] theorem wp_read (path : DiskPath) {Q : Bytes → Disk → Prop} : wp (read path) Q E d
    ↔ (∀ data, d path = some data → Q data d) ∧ (d path = none → E .notFound d) := by
  simp only [read, wp_bind, wp_get, wp_okOr]

@[simp] theorem wp_rename (source target : DiskPath) : wp (rename source target) Q E d
    ↔ (∀ data, d source = some data →
        Q () (Function.update (Function.update d source none) target (some data)))
      ∧ (d source = none → E .notFound d) := by
  simp only [rename, wp_bind, wp_read, wp_modify]

@[simp] theorem wp_remove (chosen : DiskPath → Bool) :
    wp (remove chosen) Q E d ↔ Q () fun path => if chosen path then none else d path := Iff.rfl

end Disk

end Foundations
