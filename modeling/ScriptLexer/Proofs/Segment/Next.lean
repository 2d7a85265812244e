import Mathlib
import ScriptLexer.Proofs.Segment.Stands
import ScriptLexer.Segment.Next

namespace ScriptLexer.Segment

open Byte

/-! The first segment of a text is the only one at its front that stands before
the rest.  `next_stands` and `next_of_stands` are the two directions, and every law
about whole scripts is drawn from them.
-/

/-! The closing mark of a block comment. -/

theorem mark_infix_cons_iff {byte : UInt8} {rest : Bytes} :
    [star, slash] <:+: byte :: rest ↔
      (byte = star ∧ rest.head? = some slash) ∨ [star, slash] <:+: rest := by
  have front : [star, slash] <+: byte :: rest ↔ byte = star ∧ rest.head? = some slash := by
    rw [List.cons_prefix_cons, eq_comm]
    cases rest <;> simp [eq_comm]
  rw [List.infix_cons_iff, front]

theorem splitAtClose?_eq_none_iff {text : Bytes} :
    splitAtClose? text = none ↔ ¬ [star, slash] <:+: text := by
  induction text with
  | nil => simp [splitAtClose?]
  | cons byte rest ih =>
      rw [splitAtClose?, mark_infix_cons_iff, not_or, ← ih]
      split
      · rename_i closes
        simp [closes]
      · rename_i open'
        simp [open']

theorem splitAtClose?_first {text body after : Bytes}
    (closed : splitAtClose? text = some (body, after)) : ¬ [star, slash] <:+: body := by
  induction text generalizing body with
  | nil => simp [splitAtClose?] at closed
  | cons byte rest ih =>
      rw [splitAtClose?] at closed
      split at closed
      · obtain ⟨rfl, rfl⟩ := Prod.mk.inj (Option.some.inj closed)
        simp
      · rename_i notHere
        obtain ⟨⟨inner, outer⟩, found, same⟩ := Option.map_eq_some_iff.mp closed
        obtain ⟨rfl, rfl⟩ := Prod.mk.inj same
        rw [mark_infix_cons_iff, not_or]
        refine ⟨?_, ih found⟩
        intro closes
        obtain ⟨isStar, head⟩ := closes
        -- The byte behind it is part of the body or the star of the closing mark.
        have split := splitAtClose?_eq_some found
        cases inner with
        | nil => simp at head
        | cons second inner =>
            apply notHere
            rw [← split]
            exact ⟨isStar, by simpa using head⟩

theorem splitAtClose?_append {body after : Bytes} (first : ¬ [star, slash] <:+: body) :
    splitAtClose? (body ++ star :: slash :: after) = some (body, after) := by
  induction body with
  | nil => simp [splitAtClose?]
  | cons byte body ih =>
      rw [mark_infix_cons_iff, not_or] at first
      have notHere : ¬ (byte = star ∧ (body ++ star :: slash :: after).head? = some slash) := by
        intro closes
        obtain ⟨isStar, head⟩ := closes
        apply first.1
        cases body with
        | nil => exact absurd (Option.some.inj head) (by decide)
        | cons second body => exact ⟨isStar, by simpa using head⟩
      rw [List.cons_append, splitAtClose?, if_neg notHere, ih first.2]
      rfl

/-! The cut of a text stands before the rest. -/

theorem nextNumber_stands {first : UInt8} (digit : isDigit first = true) (rest : Bytes) :
    (nextNumber first rest).1.Stands (nextNumber first rest).2 := by
  have whole : ∀ byte ∈ first :: rest.takeWhile isDigit, isDigit byte = true := by
    intro byte member
    rcases List.mem_cons.mp member with rfl | member
    · exact digit
    · exact List.mem_takeWhile_imp member
  have stops := startsWith_dropWhile isDigit rest
  unfold nextNumber
  cases behind : rest.dropWhile isDigit with
  | nil => exact ⟨⟨by simp, whole, by simp⟩, by simp [Admits, Lexeme.Admits]⟩
  | cons byte after =>
      rw [behind] at stops
      simp only
      by_cases decimal : byte = point ∧ after.takeWhile isDigit ≠ []
      · rw [if_pos decimal]
        refine ⟨⟨by simp, whole, ?_⟩, startsWith_dropWhile isDigit after, ?_⟩
        · intro byte member
          exact List.mem_takeWhile_imp member
        · intro none
          exact absurd none decimal.2
      · rw [if_neg decimal]
        refine ⟨⟨by simp, whole, by simp⟩, stops, ?_⟩
        intro _ isPoint
        rw [not_and, not_not] at decimal
        exact takeWhile_eq_nil_iff_startsWith.mp (decimal (eq_of_beq isPoint))

theorem nextWord_stands {first : UInt8} (letter : isWordStart first = true) (rest : Bytes) :
    (nextWord first rest).1.Stands (nextWord first rest).2 := by
  refine ⟨⟨first, rest.takeWhile isWordByte, rfl, letter, ?_⟩, startsWith_dropWhile _ _⟩
  intro byte member
  exact List.mem_takeWhile_imp member

theorem nextString_stands (rest : Bytes) : (nextString rest).1.Stands (nextString rest).2 := by
  have unclosed := notMem_takeWhile_ne quote rest
  unfold nextString
  cases rest.dropWhile (decide <| · ≠ quote) with
  | nil => exact ⟨unclosed, rfl⟩
  | cons byte after => exact ⟨unclosed, trivial⟩

theorem nextLineComment_stands (rest : Bytes) :
    (nextLineComment rest).1.Stands (nextLineComment rest).2 := by
  refine ⟨notMem_takeWhile_ne newline rest, ?_⟩
  have stops := startsWith_dropWhile (decide <| · ≠ newline) rest
  simp only [nextLineComment, Admits]
  cases behind : rest.dropWhile (decide <| · ≠ newline) with
  | nil => exact .inl rfl
  | cons byte after =>
      rw [behind] at stops
      right
      simpa using stops

theorem nextBlockComment_stands (rest : Bytes) :
    (nextBlockComment rest).1.Stands (nextBlockComment rest).2 := by
  unfold nextBlockComment
  cases closed : splitAtClose? rest with
  | none => exact ⟨splitAtClose?_eq_none_iff.mp closed, rfl⟩
  | some parts => exact ⟨splitAtClose?_first closed, trivial⟩

theorem nextSymbol_stands {first : UInt8} {rest : Bytes} (notBlank : isBlank first = false)
    (notDigit : isDigit first = false) (notLetter : isWordStart first = false)
    (notQuote : first ≠ quote)
    (noComment : first = slash → startsWith isCommentMark rest = false) :
    (nextSymbol first rest).1.Stands (nextSymbol first rest).2 := by
  unfold nextSymbol
  cases longest : Symbol.ofText? (first :: rest.take 1) with
  | some mark =>
      refine ⟨trivial, Symbol.admits_iff.mpr ?_⟩
      have spelled := Symbol.ofText?_eq_some_iff.mp longest
      cases rest with
      | nil => simp
      | cons second after =>
          have two : mark.text.length = 2 := by rw [spelled]; rfl
          refine ⟨?_, ?_⟩
          · intro third _
            cases found : Symbol.ofText? (mark.text ++ [third]) with
            | none => rfl
            | some longer =>
                have short := (Symbol.lengthened_cases (Symbol.ofText?_eq_some_iff.mp found)).2
                rcases short with rfl | rfl | rfl | rfl <;> exact absurd two (by decide)
          · intro isSlash
            subst isSlash
            exact absurd two (by decide)
  | none =>
      cases alone : Symbol.ofText? [first] with
      | none => exact ⟨⟨notBlank, notDigit, notLetter, notQuote, alone⟩, trivial⟩
      | some mark =>
          refine ⟨trivial, Symbol.admits_iff.mpr ?_⟩
          have spelled := Symbol.ofText?_eq_some_iff.mp alone
          refine ⟨?_, ?_⟩
          · intro second head
            cases rest with
            | nil => cases head
            | cons next after =>
                rw [← Option.some.inj head, spelled]
                exact longest
          · intro isSlash
            subst isSlash
            exact noComment (List.singleton_inj.mp spelled).symm

theorem next_stands (first : UInt8) (rest : Bytes) :
    (next first rest).1.Stands (next first rest).2 := by
  unfold next
  split
  · rename_i blank
    exact ⟨blank, trivial⟩
  rename_i notBlank
  split
  · rename_i digit
    exact nextNumber_stands digit rest
  rename_i notDigit
  split
  · rename_i letter
    exact nextWord_stands letter rest
  rename_i notLetter
  split
  · exact nextString_stands rest
  rename_i notQuote
  split
  · exact nextLineComment_stands rest.tail
  rename_i notLineComment
  split
  · exact nextBlockComment_stands rest.tail
  rename_i notBlockComment
  apply nextSymbol_stands (Bool.eq_false_of_not_eq_true notBlank)
    (Bool.eq_false_of_not_eq_true notDigit) (Bool.eq_false_of_not_eq_true notLetter) notQuote
  intro isSlash
  cases rest with
  | nil => rfl
  | cons second after =>
      have notSlash : second ≠ slash := by simpa [isSlash] using notLineComment
      have notStar : second ≠ star := by simpa [isSlash] using notBlockComment
      simp [isCommentMark, notSlash, notStar]

/-! A segment that stands before a text is cut off by it. -/

theorem nextNumber_of_stands {first : UInt8} {tail fraction rest : Bytes}
    (stands : (Segment.lexeme (.number (first :: tail) fraction)).Stands rest) :
    nextNumber first (tail ++ Numeral.pointed fraction ++ rest) =
      (.lexeme (.number (first :: tail) fraction), rest) := by
  obtain ⟨⟨_, whole, behindPoint⟩, stops, noPoint⟩ := stands
  have digits : ∀ byte ∈ tail, isDigit byte = true := fun byte member =>
    whole byte (List.mem_cons_of_mem first member)
  cases fraction with
  | nil =>
      have append : tail ++ Numeral.pointed [] ++ rest = tail ++ rest := by
        simp [Numeral.pointed]
      unfold nextNumber
      rw [append, takeWhile_append_of_stops digits stops, dropWhile_append_of_stops digits stops]
      cases rest with
      | nil => rfl
      | cons byte after =>
          have undivided : ¬ (byte = point ∧ after.takeWhile isDigit ≠ []) := by
            intro divided
            obtain ⟨isPoint, more⟩ := divided
            apply more
            exact takeWhile_eq_nil_iff_startsWith.mpr (noPoint rfl (by simp [isPoint]))
          simp only
          rw [if_neg undivided]
  | cons digit fraction =>
      have append : tail ++ Numeral.pointed (digit :: fraction) ++ rest =
          tail ++ point :: ((digit :: fraction) ++ rest) := by
        simp [Numeral.pointed]
      have atPoint : startsWith isDigit (point :: ((digit :: fraction) ++ rest)) = false := rfl
      unfold nextNumber
      rw [append, takeWhile_append_of_stops digits atPoint,
        dropWhile_append_of_stops digits atPoint]
      simp only
      rw [takeWhile_append_of_stops behindPoint stops,
        dropWhile_append_of_stops behindPoint stops, if_pos ⟨trivial, List.cons_ne_nil _ _⟩]

theorem nextWord_of_stands (first : UInt8) {tail rest : Bytes}
    (wordBytes : ∀ byte ∈ tail, isWordByte byte = true)
    (stops : startsWith isWordByte rest = false) :
    nextWord first (tail ++ rest) = (.lexeme (.word (first :: tail)), rest) := by
  unfold nextWord
  rw [takeWhile_append_of_stops wordBytes stops, dropWhile_append_of_stops wordBytes stops]

theorem nextString_of_closed {body : Bytes} (unquoted : quote ∉ body) (rest : Bytes) :
    nextString (body ++ quote :: rest) = (.lexeme (.string body), rest) := by
  have stops : startsWith (decide <| · ≠ quote) (quote :: rest) = false := by simp
  unfold nextString
  rw [takeWhile_append_of_stops (all_ne_of_notMem unquoted) stops,
    dropWhile_append_of_stops (all_ne_of_notMem unquoted) stops]

theorem nextString_of_open {body : Bytes} (unquoted : quote ∉ body) :
    nextString body = (.openString body, []) := by
  have inside := all_ne_of_notMem unquoted
  unfold nextString
  rw [List.takeWhile_eq_self_iff.mpr inside, List.dropWhile_eq_nil_iff.mpr inside]

theorem nextLineComment_of_stands {body rest : Bytes}
    (stands : (Segment.lineComment body).Stands rest) :
    nextLineComment (body ++ rest) = (.lineComment body, rest) := by
  have inside := all_ne_of_notMem stands.wellFormed
  have stops : startsWith (decide <| · ≠ newline) rest = false := by
    cases rest with
    | nil => rfl
    | cons byte after =>
        have ends : byte = newline := by simpa [Admits] using stands.admits
        simp [ends]
  unfold nextLineComment
  rw [takeWhile_append_of_stops inside stops, dropWhile_append_of_stops inside stops]

theorem nextBlockComment_of_closed {body : Bytes} (first : ¬ [star, slash] <:+: body)
    (rest : Bytes) :
    nextBlockComment (body ++ star :: slash :: rest) = (.blockComment body, rest) := by
  unfold nextBlockComment
  rw [splitAtClose?_append first]

theorem nextBlockComment_of_open {body : Bytes} (unclosed : ¬ [star, slash] <:+: body) :
    nextBlockComment body = (.openComment body, []) := by
  unfold nextBlockComment
  rw [splitAtClose?_eq_none_iff.mpr unclosed]

theorem nextSymbol_of_admits {mark : Symbol} {first : UInt8} {tail rest : Bytes}
    (spelled : mark.text = first :: tail) (admits : mark.Admits rest) :
    nextSymbol first (tail ++ rest) = (.lexeme (.symbol mark), rest) := by
  have found : Symbol.ofText? (first :: tail) = some mark := by
    rw [← spelled, Symbol.ofText?_text]
  have longest := (Symbol.admits_iff.mp admits).1
  rw [spelled] at longest
  unfold nextSymbol
  rcases mark.length_text with one | two
  · have single : tail = [] := by simpa [spelled] using one
    subst single
    cases rest with
    | nil => simp [found]
    | cons second after =>
        have none : Symbol.ofText? [first, second] = none := longest second rfl
        simp [none, found]
  · obtain ⟨second, pair⟩ : ∃ second, tail = [second] := by
      apply List.length_eq_one_iff.mp
      simpa [spelled] using two
    subst pair
    simp [found]

theorem nextSymbol_of_stray {first : UInt8} (alone : Symbol.ofText? [first] = none)
    (rest : Bytes) : nextSymbol first rest = (.stray first, rest) := by
  have longest : Symbol.ofText? (first :: rest.take 1) = none := by
    cases rest with
    | nil => exact alone
    | cons second after =>
        cases found : Symbol.ofText? [first, second] with
        | none => exact found
        | some pair =>
            obtain ⟨mark, spelled⟩ :=
              Symbol.exists_single_of_pair (Symbol.ofText?_eq_some_iff.mp found)
            rw [← spelled, Symbol.ofText?_text] at alone
            cases alone
  unfold nextSymbol
  simp only [longest, alone]

theorem next_quote (rest : Bytes) : next quote rest = nextString rest := rfl

theorem next_slash_slash (rest : Bytes) :
    next slash (slash :: rest) = nextLineComment rest := rfl

theorem next_slash_star (rest : Bytes) :
    next slash (star :: rest) = nextBlockComment rest := rfl

theorem next_slash_of_admits {rest : Bytes} (noComment : startsWith isCommentMark rest = false) :
    next slash rest = nextSymbol slash rest := by
  cases rest with
  | nil => rfl
  | cons second after =>
      have different : second ≠ slash ∧ second ≠ star := by
        simpa [isCommentMark] using noComment
      have notBlank : isBlank slash = false := rfl
      have notDigit : isDigit slash = false := rfl
      have notLetter : isWordStart slash = false := rfl
      have notQuote : slash ≠ quote := by decide
      simp [next, notBlank, notDigit, notLetter, notQuote, different.1, different.2]

theorem next_of_other {first : UInt8} (rest : Bytes) (notBlank : isBlank first = false)
    (notDigit : isDigit first = false) (notLetter : isWordStart first = false)
    (notQuote : first ≠ quote) (notSlash : first ≠ slash) :
    next first rest = nextSymbol first rest := by
  simp [next, notBlank, notDigit, notLetter, notQuote, notSlash]

theorem next_of_symbol {mark : Symbol} {first : UInt8} {tail rest : Bytes}
    (spelled : mark.text = first :: tail) (admits : mark.Admits rest) :
    next first (tail ++ rest) = (.lexeme (.symbol mark), rest) := by
  have cut := nextSymbol_of_admits spelled admits
  by_cases isSlash : mark = .slash
  · subst isSlash
    have spelling : [slash] = first :: tail := spelled
    obtain ⟨rfl, rfl⟩ := List.cons.inj spelling
    rw [← cut]
    exact next_slash_of_admits admits
  · rw [← cut]
    have others : isBlank first = false ∧ isDigit first = false ∧ isWordStart first = false ∧
        first ≠ quote ∧ first ≠ slash := by
      have head : first = mark.text.headD 0 := by rw [spelled]; rfl
      subst head
      cases mark with
      | slash => exact absurd rfl isSlash
      | _ => decide
    obtain ⟨notBlank, notDigit, notLetter, notQuote, notSlash⟩ := others
    exact next_of_other _ notBlank notDigit notLetter notQuote notSlash

/-- A segment that stands before a text is what is cut off in front of it. -/
theorem next_of_stands {segment : Segment} {first : UInt8} {tail rest : Bytes}
    (stands : segment.Stands rest) (starts : segment.text = first :: tail) :
    next first (tail ++ rest) = (segment, rest) := by
  cases segment with
  | blank byte =>
      obtain ⟨rfl, rfl⟩ := List.cons.inj starts
      have blank : isBlank byte = true := stands.wellFormed
      simp [next, blank]
  | lineComment body =>
      obtain ⟨rfl, rfl⟩ := List.cons.inj starts
      rw [List.cons_append, next_slash_slash]
      exact nextLineComment_of_stands stands
  | blockComment body =>
      obtain ⟨rfl, rfl⟩ := List.cons.inj starts
      rw [List.cons_append, next_slash_star, List.append_assoc]
      exact nextBlockComment_of_closed stands.wellFormed rest
  | lexeme part =>
      cases part with
      | symbol mark => exact next_of_symbol starts stands.admits
      | word text =>
          obtain ⟨letter, bytes, rfl, isLetter, wordBytes⟩ := stands.wellFormed
          obtain ⟨rfl, rfl⟩ := List.cons.inj starts
          have notBlank := not_isBlank_of_isWordStart isLetter
          have notDigit := not_isDigit_of_isWordStart isLetter
          have cut := nextWord_of_stands letter wordBytes stands.admits
          simpa [next, notBlank, notDigit, isLetter] using cut
      | number whole fraction =>
          cases whole with
          | nil => exact absurd rfl stands.wellFormed.1
          | cons digit digits =>
              obtain ⟨rfl, rfl⟩ := List.cons.inj starts
              have isFirst := stands.wellFormed.2.1 digit List.mem_cons_self
              have notBlank := not_isBlank_of_isDigit isFirst
              have cut := nextNumber_of_stands stands
              simpa [next, notBlank, isFirst] using cut
      | string body =>
          have opening : quote :: (body ++ [quote]) = first :: tail := starts
          obtain ⟨rfl, rfl⟩ := List.cons.inj opening
          rw [next_quote, List.append_assoc]
          exact nextString_of_closed stands.wellFormed rest
  | stray byte =>
      obtain ⟨rfl, rfl⟩ := List.cons.inj starts
      have notSlash := ne_slash_of_stray stands.wellFormed
      obtain ⟨notBlank, notDigit, notLetter, notQuote, alone⟩ := stands.wellFormed
      rw [next_of_other _ notBlank notDigit notLetter notQuote notSlash]
      exact nextSymbol_of_stray alone rest
  | openString body =>
      obtain ⟨rfl, rfl⟩ := List.cons.inj starts
      have ended : rest = [] := stands.admits
      rw [ended, List.append_nil, next_quote]
      exact nextString_of_open stands.wellFormed
  | openComment body =>
      obtain ⟨rfl, rfl⟩ := List.cons.inj starts
      have ended : rest = [] := stands.admits
      rw [ended, List.append_nil, next_slash_star]
      exact nextBlockComment_of_open stands.wellFormed

end ScriptLexer.Segment
