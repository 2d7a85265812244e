import Mathlib
import ScriptLexer.Text.Byte

namespace ScriptLexer

open Byte

/-! The front of a text: which class its first byte belongs to, and where a run of
bytes of one class ends.
-/

/-- Whether the first byte of a text, if it has one, belongs to a class. -/
def startsWith (inClass : UInt8 → Bool) (text : Bytes) : Bool :=
  text.head?.any inClass

@[simp] theorem startsWith_nil (inClass : UInt8 → Bool) : startsWith inClass [] = false := rfl

@[simp] theorem startsWith_cons (inClass : UInt8 → Bool) (byte : UInt8) (rest : Bytes) :
    startsWith inClass (byte :: rest) = inClass byte := rfl

theorem startsWith_dropWhile (inClass : UInt8 → Bool) (text : Bytes) :
    startsWith inClass (text.dropWhile inClass) = false := by
  have head := List.head?_dropWhile_not inClass text
  cases behind : text.dropWhile inClass with
  | nil => rfl
  | cons byte after =>
      rw [behind] at head
      exact head

theorem takeWhile_eq_nil_iff_startsWith {inClass : UInt8 → Bool} {text : Bytes} :
    text.takeWhile inClass = [] ↔ startsWith inClass text = false := by
  cases text with
  | nil => simp
  | cons byte rest => by_cases holds : inClass byte = true <;> simp [holds]

theorem takeWhile_append_of_stops {inClass : UInt8 → Bool} {front back : Bytes}
    (inside : ∀ byte ∈ front, inClass byte = true) (stops : startsWith inClass back = false) :
    (front ++ back).takeWhile inClass = front := by
  rw [List.takeWhile_append_of_pos inside, takeWhile_eq_nil_iff_startsWith.mpr stops,
    List.append_nil]

theorem dropWhile_append_of_stops {inClass : UInt8 → Bool} {front back : Bytes}
    (inside : ∀ byte ∈ front, inClass byte = true) (stops : startsWith inClass back = false) :
    (front ++ back).dropWhile inClass = back := by
  rw [List.dropWhile_append_of_pos inside]
  cases back with
  | nil => rfl
  | cons byte rest =>
      rw [startsWith_cons] at stops
      simp [stops]

/-- A run of bytes of one class is told apart from what stands behind it. -/
theorem append_inj_of_stops {inClass : UInt8 → Bool} {front other back behind : Bytes}
    (insideFront : ∀ byte ∈ front, inClass byte = true)
    (insideOther : ∀ byte ∈ other, inClass byte = true)
    (stopsFront : startsWith inClass back = false) (stopsOther : startsWith inClass behind = false)
    (same : front ++ back = other ++ behind) : front = other ∧ back = behind := by
  have sameFront : front = other := by
    rw [← takeWhile_append_of_stops insideFront stopsFront, same,
      takeWhile_append_of_stops insideOther stopsOther]
  subst sameFront
  exact ⟨rfl, List.append_cancel_left same⟩

theorem notMem_takeWhile_ne (byte : UInt8) (text : Bytes) :
    byte ∉ text.takeWhile (decide <| · ≠ byte) := by
  intro member
  have different := List.mem_takeWhile_imp member
  simp at different

theorem all_ne_of_notMem {byte : UInt8} {text : Bytes} (absent : byte ∉ text) :
    ∀ other ∈ text, decide (other ≠ byte) = true := by
  intro other member
  rw [decide_eq_true_eq]
  intro same
  subst same
  exact absent member

/-! Texts that begin with the same bytes. -/

theorem startsWith_eq_of_take {inClass : UInt8 → Bool} {rest other : Bytes} {count : Nat}
    (positive : 0 < count) (same : rest.take count = other.take count) :
    startsWith inClass rest = startsWith inClass other := by
  have heads := congrArg List.head? same
  rw [List.head?_take, List.head?_take, if_neg (by omega), if_neg (by omega)] at heads
  rw [startsWith, heads, startsWith]

theorem eq_nil_of_take {rest other : Bytes} {count : Nat} (positive : 0 < count)
    (ended : rest = []) (same : rest.take count = other.take count) : other = [] := by
  rw [ended, List.take_nil, eq_comm, List.take_eq_nil_iff] at same
  exact same.resolve_left (by omega)

/-- A text is at its end or goes on with a blank. -/
def Breaks (text : Bytes) : Prop :=
  text = [] ∨ startsWith isBlank text = true

namespace Byte

/-- The bytes that make a comment of the slash before them. -/
def isCommentMark (byte : UInt8) : Bool :=
  byte == slash || byte == star

theorem isBlank_iff {byte : UInt8} :
    isBlank byte = true ↔
      byte.toNat = 32 ∨ byte.toNat = 9 ∨ byte.toNat = 13 ∨ byte.toNat = 10 := by
  simp only [isBlank, Bool.or_eq_true, beq_iff_eq, ← UInt8.toNat_inj, or_assoc]
  exact Iff.rfl

theorem isBlank_cases {byte : UInt8} (blank : isBlank byte = true) :
    byte = space ∨ byte = tab ∨ byte = carriageReturn ∨ byte = newline := by
  simpa [isBlank, or_assoc] using blank

theorem not_isBlank_of_isDigit {byte : UInt8} (digit : isDigit byte = true) :
    isBlank byte = false := by
  rw [isDigit_iff] at digit
  rw [← Bool.not_eq_true, isBlank_iff]
  omega

theorem not_isBlank_of_isWordStart {byte : UInt8} (letter : isWordStart byte = true) :
    isBlank byte = false := by
  rw [isWordStart_iff] at letter
  rw [← Bool.not_eq_true, isBlank_iff]
  omega

theorem not_isBlank_of_isWordByte {byte : UInt8} (wordByte : isWordByte byte = true) :
    isBlank byte = false := by
  rcases Bool.or_eq_true_iff.mp wordByte with letter | digit
  · exact not_isBlank_of_isWordStart letter
  · exact not_isBlank_of_isDigit digit

theorem not_isDigit_of_isWordStart {byte : UInt8} (letter : isWordStart byte = true) :
    isDigit byte = false := by
  rw [isWordStart_iff] at letter
  rw [← Bool.not_eq_true, isDigit_iff]
  omega

end Byte

theorem Breaks.startsWith_eq_false {text : Bytes} (breaks : Breaks text) {inClass : UInt8 → Bool}
    (atSpace : inClass space = false) (atTab : inClass tab = false)
    (atReturn : inClass carriageReturn = false) (atNewline : inClass newline = false) :
    startsWith inClass text = false := by
  rcases breaks with ended | blank
  · rw [ended, startsWith_nil]
  · cases text with
    | nil => rfl
    | cons byte rest =>
        rw [startsWith_cons]
        rcases isBlank_cases blank with rfl | rfl | rfl | rfl
        · exact atSpace
        · exact atTab
        · exact atReturn
        · exact atNewline

end ScriptLexer
