namespace ScriptLexer

/-! Source texts are sequences of bytes.  Nothing is assumed about an encoding:
the bytes that a script gives a meaning to are all ASCII, and any other byte is
carried along or refused one at a time.
-/

abbrev Bytes := List UInt8

/-- The bytes of a text of ASCII characters, one byte for each character. -/
def ascii (text : String) : Bytes :=
  text.toList.map Char.toUInt8

namespace Byte

abbrev tab : UInt8 := 0x09
abbrev newline : UInt8 := 0x0A
abbrev carriageReturn : UInt8 := 0x0D
abbrev space : UInt8 := 0x20
abbrev quote : UInt8 := 0x22
abbrev star : UInt8 := 0x2A
abbrev point : UInt8 := 0x2E
abbrev slash : UInt8 := 0x2F
abbrev zero : UInt8 := 0x30
abbrev equals : UInt8 := 0x3D
abbrev underscore : UInt8 := 0x5F

def isBlank (byte : UInt8) : Bool :=
  byte == space || byte == tab || byte == carriageReturn || byte == newline

def isDigit (byte : UInt8) : Bool :=
  0x30 ≤ byte && byte ≤ 0x39

/-- The bytes a word may begin with: ASCII letters and the underscore. -/
def isWordStart (byte : UInt8) : Bool :=
  (0x41 ≤ byte && byte ≤ 0x5A) || (0x61 ≤ byte && byte ≤ 0x7A) || byte == underscore

def isWordByte (byte : UInt8) : Bool :=
  isWordStart byte || isDigit byte

theorem isDigit_iff {byte : UInt8} :
    isDigit byte = true ↔ 48 ≤ byte.toNat ∧ byte.toNat ≤ 57 := by
  simp [isDigit, UInt8.le_iff_toNat_le]

theorem isWordStart_iff {byte : UInt8} :
    isWordStart byte = true ↔
      (65 ≤ byte.toNat ∧ byte.toNat ≤ 90) ∨ (97 ≤ byte.toNat ∧ byte.toNat ≤ 122) ∨
        byte.toNat = 95 := by
  have final : byte = underscore ↔ byte.toNat = 95 := UInt8.toNat_inj.symm
  simp [isWordStart, UInt8.le_iff_toNat_le, final, or_assoc]

theorem isWordByte_of_isDigit {byte : UInt8} (digit : isDigit byte = true) :
    isWordByte byte = true := by
  simp [isWordByte, digit]

end Byte

end ScriptLexer
