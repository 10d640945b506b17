/-! Bytes and words: a word is read and written through its two bytes, and both print
as fixed-width hexadecimal. -/

namespace Intel8080

abbrev Byte := UInt8

abbrev Word := UInt16

/-- Behind the numerals `0` to `7` of type `Fin 8`, as in the tables of the three-bit fields. -/
instance octalDigits : @NeZero Nat Zero.ofOfNat0 8 := ⟨Nat.succ_ne_zero 7⟩

/-- A three-bit field as a byte. -/
instance fieldByte : Coe (Fin 8) Byte := ⟨fun field => UInt8.ofNat field.val⟩

/-- An upper-case hexadecimal digit. -/
def hexDigit (n : Nat) : Char :=
  if n % 16 < 10 then Char.ofNat (48 + n % 16) else Char.ofNat (55 + n % 16)

namespace Word

/-- The word with the given high and low byte. -/
def ofBytes (high low : Byte) : Word := UInt16.ofNat (256 * high.toNat + low.toNat)

/-- The more significant byte. -/
def high (w : Word) : Byte := UInt8.ofNat (w.toNat / 256)

/-- The less significant byte. -/
def low (w : Word) : Byte := UInt8.ofNat w.toNat

theorem toNat_ofBytes (h l : Byte) : (ofBytes h l).toNat = 256 * h.toNat + l.toNat := by
  have := h.toNat_lt
  have := l.toNat_lt
  simp only [ofBytes, UInt16.toNat_ofNat']
  omega

theorem toNat_high (w : Word) : (high w).toNat = w.toNat / 256 := by
  have := w.toNat_lt
  simp only [high, UInt8.toNat_ofNat']
  omega

theorem toNat_low (w : Word) : (low w).toNat = w.toNat % 256 := by
  simp [low]

@[simp] theorem high_ofBytes (h l : Byte) : high (ofBytes h l) = h := by
  apply UInt8.toNat_inj.mp
  have := l.toNat_lt
  rw [toNat_high, toNat_ofBytes]
  omega

@[simp] theorem low_ofBytes (h l : Byte) : low (ofBytes h l) = l := by
  apply UInt8.toNat_inj.mp
  have := l.toNat_lt
  rw [toNat_low, toNat_ofBytes]
  omega

@[simp] theorem ofBytes_high_low (w : Word) : ofBytes (high w) (low w) = w := by
  apply UInt16.toNat_inj.mp
  rw [toNat_ofBytes, toNat_high, toNat_low]
  omega

@[simp] theorem low_toUInt16 (v : Byte) : low v.toUInt16 = v := by
  have := v.toNat_lt
  apply UInt8.toNat_inj.mp
  rw [toNat_low, UInt8.toNat_toUInt16]
  omega

/-- Four hexadecimal digits. -/
def hex (w : Word) : String :=
  String.ofList [hexDigit (w.toNat / 4096), hexDigit (w.toNat / 256), hexDigit (w.toNat / 16),
    hexDigit w.toNat]

end Word

/-- Two hexadecimal digits. -/
def Byte.hex (b : Byte) : String :=
  String.ofList [hexDigit (b.toNat / 16), hexDigit b.toNat]

end Intel8080
