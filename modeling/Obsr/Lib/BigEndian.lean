/-
# Big-endian numbers

Network byte order for numbers of any width: `toBytes width n` writes the low
`width` bytes of `n`, most significant byte first, and `ofBytes` reads a list of
bytes of any length back.
-/

import Mathlib

namespace Obsr.Lib.BigEndian

/-- The low `width` bytes of a number, most significant first. -/
def toBytes : ℕ → ℕ → List UInt8
  | 0, _ => []
  | width + 1, n => toBytes width (n / 256) ++ [UInt8.ofNat n]

/-- The number a list of bytes stands for. -/
def ofBytes (bytes : List UInt8) : ℕ :=
  bytes.foldl (fun n byte => n * 256 + byte.toNat) 0

@[simp]
theorem length_toBytes (width n : ℕ) : (toBytes width n).length = width := by
  induction width generalizing n with
  | zero => rfl
  | succ width ih => simp [toBytes, ih]

@[simp]
theorem ofBytes_append_singleton (bytes : List UInt8) (byte : UInt8) :
    ofBytes (bytes ++ [byte]) = ofBytes bytes * 256 + byte.toNat := by
  simp [ofBytes]

theorem ofBytes_lt (bytes : List UInt8) : ofBytes bytes < 256 ^ bytes.length := by
  induction bytes using List.reverseRecOn with
  | nil => simp [ofBytes]
  | append_singleton bytes byte ih =>
      have hbyte : byte.toNat < 256 := byte.toNat_lt
      rw [ofBytes_append_singleton, List.length_append, List.length_singleton, pow_succ]
      omega

/-- Reading back what was written gives the number, if the width holds it. -/
theorem ofBytes_toBytes {width n : ℕ} (h : n < 256 ^ width) :
    ofBytes (toBytes width n) = n := by
  induction width generalizing n with
  | zero =>
      rw [pow_zero] at h
      simp [toBytes, ofBytes]
      omega
  | succ width ih =>
      have hdiv : n / 256 < 256 ^ width := by
        rw [pow_succ] at h
        omega
      rw [toBytes, ofBytes_append_singleton, ih hdiv, UInt8.toNat_ofNat']
      omega

/-- Writing back what was read gives the bytes. -/
theorem toBytes_ofBytes (bytes : List UInt8) :
    toBytes bytes.length (ofBytes bytes) = bytes := by
  induction bytes using List.reverseRecOn with
  | nil => rfl
  | append_singleton bytes byte ih =>
      have hbyte : byte.toNat < 256 := byte.toNat_lt
      have hdiv : (ofBytes bytes * 256 + byte.toNat) / 256 = ofBytes bytes := by omega
      have hlow : UInt8.ofNat (ofBytes bytes * 256 + byte.toNat) = byte := by
        apply UInt8.toNat_inj.mp
        rw [UInt8.toNat_ofNat']
        omega
      rw [List.length_append, List.length_singleton, toBytes, ofBytes_append_singleton,
        hdiv, ih, hlow]

end Obsr.Lib.BigEndian
