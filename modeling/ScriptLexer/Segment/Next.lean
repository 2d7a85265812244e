import ScriptLexer.Segment

namespace ScriptLexer.Segment

/-! The first segment of a text.  Each of the functions below begins behind the
bytes that have already decided what the segment is, and returns it together
with the text that it leaves.
-/

open Byte

/-- Splits a text around the first mark that closes a block comment. -/
def splitAtClose? : Bytes → Option (Bytes × Bytes)
  | [] => none
  | byte :: rest =>
      if byte = star ∧ rest.head? = some slash then some ([], rest.tail)
      else (splitAtClose? rest).map fun (body, after) => (byte :: body, after)

/-- A number takes all digits, and a point with the digits behind it if there
are any. -/
def nextNumber (first : UInt8) (rest : Bytes) : Segment × Bytes :=
  let whole := first :: rest.takeWhile isDigit
  match rest.dropWhile isDigit with
  | [] => (.lexeme (.number whole []), [])
  | byte :: after =>
      let fraction := after.takeWhile isDigit
      if byte = point ∧ fraction ≠ [] then
        (.lexeme (.number whole fraction), after.dropWhile isDigit)
      else (.lexeme (.number whole []), byte :: after)

def nextWord (first : UInt8) (rest : Bytes) : Segment × Bytes :=
  (.lexeme (.word (first :: rest.takeWhile isWordByte)), rest.dropWhile isWordByte)

/-- What a quote begins.  Strings may span lines and know no escapes. -/
def nextString (rest : Bytes) : Segment × Bytes :=
  let body := rest.takeWhile (· ≠ quote)
  match rest.dropWhile (· ≠ quote) with
  | [] => (.openString body, [])
  | _ :: after => (.lexeme (.string body), after)

def nextLineComment (rest : Bytes) : Segment × Bytes :=
  (.lineComment (rest.takeWhile (· ≠ newline)), rest.dropWhile (· ≠ newline))

/-- Block comments do not nest. -/
def nextBlockComment (rest : Bytes) : Segment × Bytes :=
  match splitAtClose? rest with
  | none => (.openComment rest, [])
  | some (body, after) => (.blockComment body, after)

/-- The longest symbol, or a stray byte where there is none. -/
def nextSymbol (first : UInt8) (rest : Bytes) : Segment × Bytes :=
  match Symbol.ofText? (first :: rest.take 1) with
  | some symbol => (.lexeme (.symbol symbol), rest.drop 1)
  | none =>
      match Symbol.ofText? [first] with
      | some symbol => (.lexeme (.symbol symbol), rest)
      | none => (.stray first, rest)

/-- The segment at the start of a text that is not empty, and the rest of it. -/
def next (first : UInt8) (rest : Bytes) : Segment × Bytes :=
  if isBlank first then (.blank first, rest)
  else if isDigit first then nextNumber first rest
  else if isWordStart first then nextWord first rest
  else if first = quote then nextString rest
  else if first = slash ∧ rest.head? = some slash then nextLineComment rest.tail
  else if first = slash ∧ rest.head? = some star then nextBlockComment rest.tail
  else nextSymbol first rest

/-- A cut leaves a first segment that begins with the first byte, and together
with the rest makes up the text. -/
def Cuts (cut : Segment × Bytes) (first : UInt8) (rest : Bytes) : Prop :=
  ∃ tail, cut.1.text = first :: tail ∧ tail ++ cut.2 = rest

theorem splitAtClose?_eq_some {text body after : Bytes}
    (closed : splitAtClose? text = some (body, after)) :
    body ++ [star, slash] ++ after = text := by
  induction text generalizing body with
  | nil => simp [splitAtClose?] at closed
  | cons byte rest ih =>
      rw [splitAtClose?] at closed
      split at closed
      · rename_i mark
        obtain ⟨rfl, rfl⟩ := Prod.mk.inj (Option.some.inj closed)
        obtain ⟨rfl, head⟩ := mark
        cases rest with
        | nil => simp at head
        | cons second after => simp_all
      · obtain ⟨⟨inner, outer⟩, found, same⟩ := Option.map_eq_some_iff.mp closed
        obtain ⟨rfl, rfl⟩ := Prod.mk.inj same
        simp [← ih found]

theorem nextNumber_cuts (first : UInt8) (rest : Bytes) :
    Cuts (nextNumber first rest) first rest := by
  have split := List.takeWhile_append_dropWhile (p := isDigit) (l := rest)
  unfold nextNumber
  cases behind : rest.dropWhile isDigit with
  | nil =>
      refine ⟨rest.takeWhile isDigit, by simp [text, Lexeme.text, Numeral.pointed], ?_⟩
      simpa only [behind] using split
  | cons byte after =>
      simp only
      by_cases decimal : byte = point ∧ after.takeWhile isDigit ≠ []
      · rw [if_pos decimal]
        refine ⟨rest.takeWhile isDigit ++ point :: after.takeWhile isDigit,
          by simp [text, Lexeme.text, Numeral.pointed, decimal.2], ?_⟩
        rw [List.append_assoc, List.cons_append, List.takeWhile_append_dropWhile, ← decimal.1,
          ← behind, split]
      · rw [if_neg decimal]
        refine ⟨rest.takeWhile isDigit, by simp [text, Lexeme.text, Numeral.pointed], ?_⟩
        simpa only [behind] using split

theorem nextWord_cuts (first : UInt8) (rest : Bytes) : Cuts (nextWord first rest) first rest :=
  ⟨rest.takeWhile isWordByte, rfl, List.takeWhile_append_dropWhile⟩

theorem nextString_cuts (rest : Bytes) : Cuts (nextString rest) quote rest := by
  have split := List.takeWhile_append_dropWhile (p := (decide <| · ≠ quote)) (l := rest)
  unfold nextString
  cases behind : rest.dropWhile (decide <| · ≠ quote) with
  | nil => exact ⟨_, rfl, by simpa only [behind] using split⟩
  | cons byte after =>
      have closing : byte = quote := by
        have head := List.head?_dropWhile_not (decide <| · ≠ quote) rest
        rw [behind] at head
        simpa using head
      refine ⟨rest.takeWhile (decide <| · ≠ quote) ++ [quote], by simp [text, Lexeme.text], ?_⟩
      rw [behind, closing] at split
      simpa using split

theorem nextLineComment_cuts (rest : Bytes) :
    Cuts (nextLineComment rest) slash (slash :: rest) :=
  ⟨slash :: rest.takeWhile (decide <| · ≠ newline), rfl, by
    simp only [nextLineComment, List.cons_append, List.takeWhile_append_dropWhile]⟩

theorem nextBlockComment_cuts (rest : Bytes) :
    Cuts (nextBlockComment rest) slash (star :: rest) := by
  unfold nextBlockComment
  cases closed : splitAtClose? rest with
  | none => exact ⟨star :: rest, rfl, by simp⟩
  | some parts =>
      obtain ⟨body, after⟩ := parts
      refine ⟨star :: (body ++ [star, slash]), rfl, ?_⟩
      simpa using splitAtClose?_eq_some closed

theorem nextSymbol_cuts (first : UInt8) (rest : Bytes) :
    Cuts (nextSymbol first rest) first rest := by
  unfold nextSymbol
  cases pair : Symbol.ofText? (first :: rest.take 1) with
  | some symbol =>
      exact ⟨rest.take 1, Symbol.ofText?_eq_some_iff.mp pair, List.take_append_drop 1 rest⟩
  | none =>
      cases alone : Symbol.ofText? [first] with
      | some symbol => exact ⟨[], Symbol.ofText?_eq_some_iff.mp alone, rfl⟩
      | none => exact ⟨[], rfl, rfl⟩

theorem next_cuts (first : UInt8) (rest : Bytes) : Cuts (next first rest) first rest := by
  unfold next
  split
  · exact ⟨[], rfl, rfl⟩
  split
  · exact nextNumber_cuts first rest
  split
  · exact nextWord_cuts first rest
  split
  · rename_i opening
    exact opening ▸ nextString_cuts rest
  split
  · rename_i opening
    obtain ⟨rfl, head⟩ := opening
    cases rest with
    | nil => simp at head
    | cons second after => simpa [Option.some.inj head] using nextLineComment_cuts after
  split
  · rename_i opening
    obtain ⟨rfl, head⟩ := opening
    cases rest with
    | nil => simp at head
    | cons second after => simpa [Option.some.inj head] using nextBlockComment_cuts after
  · exact nextSymbol_cuts first rest

theorem length_next_lt (first : UInt8) (rest : Bytes) :
    (next first rest).2.length < (first :: rest).length := by
  obtain ⟨tail, _, split⟩ := next_cuts first rest
  have lengths := congrArg List.length split
  rw [List.length_append] at lengths
  rw [List.length_cons]
  omega

end ScriptLexer.Segment
