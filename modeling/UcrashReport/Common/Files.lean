import UcrashReport.Rust.Text
import Mathlib.Logic.Function.Basic

/-! # Payload files

The files of one directory by their names, as the raw and the decoded payloads are kept. A write
that fails may have created the file and written a part of it.
-/

namespace UcrashReport

open Rust

abbrev Files := Text → Option Bytes

/-- How far a write gets. -/
inductive Written
  | whole
  | cut (length : ℕ)
  | unopened
deriving DecidableEq, Repr

/-- What a write leaves in the file that it opened. -/
def Written.part (data : Bytes) : Written → Option Bytes
  | whole => some data
  | cut length => some (data.take length)
  | unopened => none

namespace Files

/-- `fs::write`, and whether it succeeds. -/
def write (files : Files) (name : Text) (data : Bytes) : Written → Files × Bool
  | .whole => (Function.update files name (some data), true)
  | .cut length => (Function.update files name (some (data.take length)), false)
  | .unopened => (files, false)

def remove (files : Files) (name : Text) : Files := Function.update files name none

variable {files : Files} {name other : Text}

theorem remove_of_ne (different : other ≠ name) : files.remove name other = files other := by
  simp [remove, different]

@[simp] theorem remove_self : files.remove name name = none := by simp [remove]

end Files

end UcrashReport
