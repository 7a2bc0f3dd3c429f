import UcrashReport.Decoder.Decode

/-! # The decoder process

The process takes job after job. When no job is pending it returns if it was started for one pass, and
asks again after a while otherwise; it asks again as well when the statement that claims fails.
-/

namespace UcrashReport.Decode

open Rust

/-- What the command line says; of several paths the last one counts. -/
structure Options where
  configPath : Text := "config.toml".toList
  once : Bool := false
deriving DecidableEq, Repr

def Options.ofArgs (args : List Text) : Options :=
  args.foldl (fun options arg =>
    if arg = "--once".toList then { options with once := true }
    else { options with configPath := arg }) {}

/-- One step of the loop of `main`, of `claim_job` or of `process_job`; there is no worker when the
process has returned. -/
def main (libs : Libraries) (once : Bool) (draw : Draw) (db : Database) (raw decoded : Files) :
    Worker → Database × Files × Files × Option Worker
  | .idle =>
    match if draw.success then some db.claimJob else none with
    | some (db, some row) =>
      (db, raw, decoded, some (.load ⟨row.id, row.reportId, row.attempts⟩))
    | some (db, none) => (db, raw, decoded, if once then none else some .idle)
    | none => (db, raw, decoded, some .idle)
  | pc =>
    match work libs draw db raw decoded pc with
    | (db, raw, decoded, next) => (db, raw, decoded, some next)

end UcrashReport.Decode
