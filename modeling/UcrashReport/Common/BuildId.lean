import UcrashReport.Rust.FileSystem

/-! # The build-id index

Debug files are found through links `.build-id/xx/yyyy.debug` in the symbol pool. The decoder
writes the links and the server resolves a build-id from a request to one of them. Both spell the
place of a link the same way, from the lower-case hex form of the id.
-/

namespace UcrashReport.BuildId

open Rust Rust.Text

def hexDigit (n : ℕ) : Char := "0123456789abcdef".toList.getD n '0'

/-- `hex::encode`. -/
def hexEncode (data : Bytes) : Text :=
  data.flatMap fun byte => [hexDigit (byte.toNat / 16), hexDigit (byte.toNat % 16)]

/-- The link of a build-id of at least two digits. -/
def debugLink (poolRoot : Location) (buildId : Text) : Location :=
  poolRoot ++ [".build-id".toList, buildId.take 2, buildId.drop 2 ++ ".debug".toList]

/-- Resolve a build-id to an indexed debug file; anything but hex is rejected. -/
def resolve {γ : Type*} (tree : FileTree γ) (poolRoot : Location) (buildId : Text) :
    Option Location :=
  if byteLen buildId < 4 || !buildId.all isAsciiHexdigit then none
  else
    let link := debugLink poolRoot (toAsciiLowercase buildId)
    if tree.pathExists link then some link else none

theorem hexDigit_spec : ∀ n < 16, isAsciiHexdigit (hexDigit n) = true ∧
    (hexDigit n).toLower = hexDigit n := by decide

theorem mem_hexEncode {data : Bytes} {c : Char} (member : c ∈ hexEncode data) :
    ∃ n < 16, c = hexDigit n := by
  obtain ⟨byte, -, isDigit⟩ := List.mem_flatMap.mp member
  have small := byte.toNat_lt
  rcases List.mem_cons.mp isDigit with rfl | isDigit
  · exact ⟨byte.toNat / 16, by omega, rfl⟩
  · rw [List.mem_singleton] at isDigit
    exact ⟨byte.toNat % 16, by omega, isDigit⟩

theorem toAsciiLowercase_hexEncode (data : Bytes) :
    toAsciiLowercase (hexEncode data) = hexEncode data := by
  unfold toAsciiLowercase
  refine (List.map_congr_left fun c member => ?_).trans (List.map_id _)
  obtain ⟨n, small, rfl⟩ := mem_hexEncode member
  exact (hexDigit_spec n small).2

/-- Every hex digit is written by some value, up to its case. -/
theorem exists_hexDigit {c : Char} (digit : isAsciiHexdigit c = true) :
    ∃ n < 16, hexDigit n = c.toLower := by
  have all : ∀ m < 128, isAsciiHexdigit (Char.ofNat m) = true →
      ∃ n < 16, hexDigit n = (Char.ofNat m).toLower := by decide
  have small : c.toNat < 128 := by
    simp only [isAsciiHexdigit, isAsciiDigit, Bool.or_eq_true, Bool.and_eq_true,
      decide_eq_true_eq] at digit
    omega
  have same : Char.ofNat c.toNat = c := Char.ofNat_toNat c
  exact same ▸ all c.toNat small (same.symm ▸ digit)

/-- Hex digits in pairs are the encoding of some bytes. -/
theorem exists_hexEncode {n : ℕ} {s : Text} (even : s.length = 2 * n)
    (digits : ∀ c ∈ s, isAsciiHexdigit c = true) : ∃ data, hexEncode data = toAsciiLowercase s := by
  induction n generalizing s with
  | zero =>
    obtain rfl := List.length_eq_zero_iff.mp even
    exact ⟨[], rfl⟩
  | succ n ih =>
    match s, even with
    | high :: low :: rest, even =>
      have shorter : rest.length = 2 * n := by
        simp only [List.length_cons] at even
        omega
      obtain ⟨data, encoded⟩ := ih shorter fun c member => digits c (by simp [member])
      obtain ⟨h, smallHigh, isHigh⟩ := exists_hexDigit (digits high (by simp))
      obtain ⟨l, smallLow, isLow⟩ := exists_hexDigit (digits low (by simp))
      refine ⟨UInt8.ofNat (16 * h + l) :: data, ?_⟩
      have value : (UInt8.ofNat (16 * h + l)).toNat = 16 * h + l := by
        rw [UInt8.toNat_ofNat']
        omega
      have quotient : (16 * h + l) / 16 = h := by omega
      have remainder : (16 * h + l) % 16 = l := by omega
      rw [hexEncode, List.flatMap_cons, ← hexEncode, encoded, value, quotient, remainder, isHigh,
        isLow]
      rfl

theorem debugLink_injective {poolRoot : Location} {left right : Text}
    (same : debugLink poolRoot left = debugLink poolRoot right) : left = right := by
  simp only [debugLink, List.append_cancel_left_eq, List.cons.injEq, true_and, and_true,
    List.append_cancel_right_eq] at same
  rw [← List.take_append_drop 2 left, same.1, same.2, List.take_append_drop]

end UcrashReport.BuildId
