import Mathlib.Tactic.NormNum

/-!
# Big-endian 32-bit integers

The network byte order of a 32-bit length, as `binary.BigEndian.PutUint32` and
`DataView.setUint32` write it and `DataView.getUint32` reads it. A length that does not fit wraps
around when it is converted to `UInt32`, before it is written.
-/

namespace GrpcWeb

/-- A string of bytes: a slice or an array of bytes in memory, or what is sent of one. -/
abbrev Bytes := List UInt8

/-- The bytes of an ASCII text. -/
def ascii (s : String) : Bytes := s.toList.map fun c => c.val.toUInt8

/-- What holds of all bytes, checked one after the other. -/
theorem forall_byte {p : UInt8 → Prop} (h : ∀ n : Fin 256, p (UInt8.ofNat n)) (c : UInt8) :
    p c := by
  simpa using h ⟨c.toNat, c.toNat_lt⟩

/-- The four bytes of `v`, the most significant first. -/
def putUint32 (v : UInt32) : Bytes :=
  [(v >>> 24).toUInt8, (v >>> 16).toUInt8, (v >>> 8).toUInt8, v.toUInt8]

/-- The number whose bytes, the most significant first, are the first four of `b`. -/
def getUint32 (b : Bytes) : ℕ :=
  (b.getD 0 0).toNat * 2 ^ 24 + (b.getD 1 0).toNat * 2 ^ 16 + (b.getD 2 0).toNat * 2 ^ 8 +
    (b.getD 3 0).toNat

@[simp] theorem length_putUint32 (v : UInt32) : (putUint32 v).length = 4 := rfl

/-- **Reading what was written**, whatever follows. -/
theorem getUint32_putUint32 (v : UInt32) (t : Bytes) : getUint32 (putUint32 v ++ t) = v.toNat := by
  have hv := v.toNat_lt
  simp only [getUint32, putUint32, List.cons_append, List.nil_append, List.getD_cons_zero,
    List.getD_cons_succ, UInt32.toNat_toUInt8, UInt32.toNat_shiftRight, UInt32.toNat_ofNat,
    Nat.shiftRight_eq_div_pow]
  norm_num
  omega

/-- A length that fits is what its conversion to `UInt32` holds. -/
theorem toNat_ofNat_of_lt {n : ℕ} (h : n < 2 ^ 32) : (UInt32.ofNat n).toNat = n := by
  rw [UInt32.toNat_ofNat']
  exact Nat.mod_eq_of_lt h

end GrpcWeb
