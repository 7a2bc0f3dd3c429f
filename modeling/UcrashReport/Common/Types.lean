import UcrashReport.Rust.Text

/-! # Report metadata

The metadata document of an upload, as the server reads it from its JSON form. Integers that no
check bounds are unbounded here; strings are arbitrary.
-/

namespace UcrashReport.Types

open Rust Rust.Text

def formatVersion : ℕ := 1

def maxMetadataSize : ℕ := 4 * 1024

def maxPayloadSize : ℕ := 256 * 1024

inductive ReportKind
  | kernelOops
  | pstore
deriving DecidableEq, Repr

namespace ReportKind

def asStr : ReportKind → Text
  | kernelOops => "kernel_oops".toList
  | pstore => "pstore".toList

end ReportKind

inductive PayloadEncoding
  | none
  | gzip
  | zstd
  | zlib
deriving DecidableEq, Repr

namespace PayloadEncoding

def asStr : PayloadEncoding → Text
  | none => "none".toList
  | gzip => "gzip".toList
  | zstd => "zstd".toList
  | zlib => "zlib".toList

def fromStr (s : Text) : Except Text PayloadEncoding :=
  if s = "none".toList then .ok none
  else if s = "gzip".toList then .ok gzip
  else if s = "zstd".toList then .ok zstd
  else if s = "zlib".toList then .ok zlib
  else .error ("unknown payload encoding ".toList ++ s)

/-- The stored name of an encoding is read back as that encoding. -/
theorem fromStr_asStr (encoding : PayloadEncoding) : fromStr encoding.asStr = .ok encoding := by
  cases encoding <;> rfl

end PayloadEncoding

structure OpenwrtInfo where
  version : Text
  revision : Text
  target : Text
  arch : Text
deriving DecidableEq, Repr

structure ReportMetadata where
  format : ℕ
  kind : ReportKind
  uuid : Text
  capturedAt : ℤ
  openwrt : OpenwrtInfo
  board : Text
  kernel : Text
  kernelBuildid : Option Text
  payloadSha256 : Text
  payloadEncoding : PayloadEncoding
deriving DecidableEq, Repr

end UcrashReport.Types
