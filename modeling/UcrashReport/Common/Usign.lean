import UcrashReport.Rust.Text

/-! # usign blobs

Public keys and signatures as `usign` frames them: an algorithm tag, a key number and the raw key or
signature. The reader of base64 and the Ed25519 primitives are parameters.
-/

namespace UcrashReport.Usign

open Rust Rust.Text

/-- The tag `Ed`. -/
def pkalg : Bytes := [0x45, 0x64]

def pubkeyLen : ℕ := 2 + 8 + 32

def sigLen : ℕ := 2 + 8 + 64

inductive UsignError
  | base64
  | length
  | algorithm
  | keyNum
  | key
  | verification
deriving DecidableEq, Repr

/-- The base64 reader, the check of a point of the curve, and `verify_strict` of a key, a message and
a signature. -/
structure Primitives where
  decode : Text → Option Bytes
  isKey : Bytes → Bool
  verifyStrict : Bytes → Bytes → Bytes → Bool

structure PublicKey where
  keynum : Bytes
  key : Bytes
  keynum_length : keynum.length = 8
  key_length : key.length = 32

namespace PublicKey

variable (primitives : Primitives)

def fromBase64 (blob : Text) : Except UsignError PublicKey :=
  match primitives.decode (trim blob) with
  | none => .error .base64
  | some raw =>
    if length : raw.length = pubkeyLen then
      if raw.take 2 ≠ pkalg then .error .algorithm
      else if !primitives.isKey (raw.drop 10) then .error .key
      else
        .ok
          { keynum := (raw.drop 2).take 8
            key := raw.drop 10
            keynum_length := by
              rw [List.length_take, List.length_drop, length, pubkeyLen]
              rfl
            key_length := by rw [List.length_drop, length, pubkeyLen] }
    else .error .length

/-- Verify a signature blob over a message. -/
def verify (key : PublicKey) (sigBlob : Text) (msg : Bytes) : Except UsignError Unit :=
  match primitives.decode (trim sigBlob) with
  | none => .error .base64
  | some raw =>
    if raw.length ≠ sigLen then .error .length
    else if raw.take 2 ≠ pkalg then .error .algorithm
    else if (raw.drop 2).take 8 ≠ key.keynum then .error .keyNum
    else if primitives.verifyStrict key.key msg (raw.drop 10) then .ok ()
    else .error .verification

variable {primitives}

/-- A signature blob verifies when tag and key number agree and the signature is one of the message. -/
theorem verify_eq_ok_iff {key : PublicKey} {sigBlob : Text} {msg : Bytes} :
    key.verify primitives sigBlob msg = .ok () ↔
      ∃ signature, signature.length = 64 ∧
        primitives.decode (trim sigBlob) = some (pkalg ++ key.keynum ++ signature) ∧
        primitives.verifyStrict key.key msg signature = true := by
  rw [verify]
  cases decoded : primitives.decode (trim sigBlob) with
  | none => simp
  | some raw =>
    dsimp only
    constructor
    · intro verified
      split_ifs at verified with length tag keynum strict
      push Not at length tag keynum
      refine ⟨raw.drop 10, ?_, ?_, strict⟩
      · rw [List.length_drop, length, sigLen]
      · rw [← tag, ← keynum, ← List.take_add, List.take_append_drop]
    · rintro ⟨signature, length, same, strict⟩
      rw [Option.some.injEq] at same
      have tagLength : pkalg.length = 2 := rfl
      have whole : raw.length = sigLen := by
        rw [same, List.length_append, List.length_append, tagLength, key.keynum_length, length,
          sigLen]
      have tag : raw.take 2 = pkalg := by
        rw [same, List.append_assoc, List.take_left' tagLength]
      have number : (raw.drop 2).take 8 = key.keynum := by
        rw [same, List.append_assoc, List.drop_left' tagLength, List.take_left' key.keynum_length]
      have rest : raw.drop 10 = signature := by
        rw [same, List.drop_left' (by rw [List.length_append, tagLength, key.keynum_length])]
      rw [if_neg (not_not.mpr whole), if_neg (not_not.mpr tag), if_neg (not_not.mpr number), rest,
        if_pos strict]

end PublicKey

end UcrashReport.Usign
