import UcrashReport.Common.BuildId

/-! # The debuginfod endpoints

Debuggers ask for the debug file of a build-id. The server finds its link in the symbol pool and opens
it, while the decoder fetches and collects there.
-/

namespace UcrashReport.Api

open Rust Rust.Text BuildId

/-- A stream, which fails when a directory was opened, or a refusal. -/
inductive DebugAnswer
  | octetStream (content : Option Bytes)
  | notFound (message : Text)
deriving DecidableEq, Repr

/-- The pool has no executables. -/
def debuginfodExecutable : DebugAnswer := .notFound "only debuginfo available".toList

end UcrashReport.Api
