import Mathlib
import ScriptLexer.Proofs.Scan.Lines

namespace ScriptLexer

open Byte

/-! How far the scan looks ahead.  What stands behind a segment decides where it ends by
no more than two bytes, and by no more than one unless that is a point.  Scripts that
begin alike are therefore scanned alike up to the last two of the bytes they share, and a
stray byte is known as soon as it is read.
-/

/-- The tokens of a script with the offsets of their first bytes.  The end of the file
stands behind the last byte. -/
def tokenPlaces (source : Bytes) : List (Nat × Token) :=
  ((placedSegments source).filterMap fun placed => placed.token?.map (placed.offset, ·)) ++
    [(source.length, .endOfFile (lineAfter source))]

def Segment.isStray (segment : Segment) : Bool :=
  segment.fault? == some .unexpectedCharacter

/-- What is reported on stray bytes, with the offsets of these bytes. -/
def strayPlaces (source : Bytes) : List (Nat × Diagnostic) :=
  (placedSegments source).filterMap fun placed =>
    if placed.segment.isStray then placed.diagnostic?.map (placed.offset, ·) else none

/-! What a segment sees of the text behind it. -/

namespace Segment

variable {segment : Segment} {rest other : Bytes}

theorem admits_of_take_two (admits : segment.Admits rest) (same : rest.take 2 = other.take 2) :
    segment.Admits other := by
  have alike (inClass : UInt8 → Bool) : startsWith inClass other = startsWith inClass rest :=
    (startsWith_eq_of_take Nat.two_pos same).symm
  cases segment with
  | lineComment body =>
      refine admits.imp (eq_nil_of_take Nat.two_pos · same) ?_
      intro ends
      rw [alike]
      exact ends
  | lexeme part =>
      cases part with
      | symbol mark =>
          cases mark with
          | bang | equal | greater | less | slash => exact (alike _).trans admits
          | _ => trivial
      | word text => exact (alike _).trans admits
      | number whole fraction =>
          have tails := congrArg (List.drop 1) same
          rw [List.drop_take, List.drop_take, List.drop_one, List.drop_one] at tails
          refine ⟨(alike _).trans admits.1, ?_⟩
          intro integer isPoint
          rw [← startsWith_eq_of_take Nat.one_pos tails]
          exact admits.2 integer ((alike _).symm.trans isPoint)
      | string body => trivial
  | openString body => exact eq_nil_of_take Nat.two_pos admits same
  | openComment body => exact eq_nil_of_take Nat.two_pos admits same
  | _ => trivial

/-- Only a point makes it necessary to look at a second byte. -/
theorem admits_of_head {byte : UInt8} (admits : segment.Admits (byte :: rest))
    (notPoint : byte ≠ point) : segment.Admits (byte :: other) := by
  cases segment with
  | lineComment body => exact .inr (admits.resolve_left (List.cons_ne_nil _ _))
  | lexeme part =>
      cases part with
      | number whole fraction =>
          refine ⟨admits.1, ?_⟩
          intro _ isPoint
          exact absurd (eq_of_beq isPoint) notPoint
      | symbol mark =>
          cases mark <;> exact admits
      | word text => exact admits
      | string body => trivial
  | openString body => exact absurd admits (List.cons_ne_nil _ _)
  | openComment body => exact absurd admits (List.cons_ne_nil _ _)
  | _ => trivial

/-- The first bytes behind a segment decide that it ends where it does. -/
def Decided (segment : Segment) (rest : Bytes) (reach : Nat) : Prop :=
  ∀ other, rest.take reach = other.take reach → segment.Admits other

theorem decided_of_two_le {reach : Nat} (admits : segment.Admits rest) (enough : 2 ≤ reach) :
    segment.Decided rest reach := by
  intro other same
  apply admits_of_take_two admits
  rw [← Nat.min_eq_left enough, ← List.take_take, same, List.take_take]

theorem decided_of_head {byte : UInt8} {reach : Nat} (admits : segment.Admits (byte :: rest))
    (notPoint : byte ≠ point) (enough : 0 < reach) : segment.Decided (byte :: rest) reach := by
  intro other same
  obtain ⟨count, rfl⟩ := Nat.exists_eq_succ_of_ne_zero (Nat.ne_of_gt enough)
  cases other with
  | nil => cases same
  | cons first after =>
      rw [List.take_succ_cons, List.take_succ_cons] at same
      rw [← (List.cons.inj same).1]
      exact admits_of_head admits notPoint

theorem decided_of_isStray {reach : Nat} (stray : segment.isStray = true) :
    segment.Decided rest reach := by
  intro other _
  obtain ⟨byte, rfl⟩ := exists_stray_of_fault? (eq_of_beq stray)
  trivial

end Segment

/-! Scripts that begin alike. -/

variable {segment : Segment} {first second rest : Bytes} {bound offset line : Nat}

theorem segments_eq_cons_of_decided (stands : segment.Stands rest)
    (inside : segment.text.length ≤ bound)
    (decided : segment.Decided rest (bound - segment.text.length))
    (agree : (segment.text ++ rest).take bound = second.take bound) :
    ∃ after, segments second = segment :: segments after ∧
      rest.take (bound - segment.text.length) = after.take (bound - segment.text.length) := by
  have front := congrArg (List.take segment.text.length) agree
  have back := congrArg (List.drop segment.text.length) agree
  rw [List.take_take, List.take_take, Nat.min_eq_left inside, List.take_left] at front
  rw [List.drop_take, List.drop_take, List.drop_left] at back
  have whole : second = segment.text ++ second.drop segment.text.length := by
    conv_lhs => rw [← List.take_append_drop segment.text.length second, ← front]
  refine ⟨second.drop segment.text.length, ?_, back⟩
  conv_lhs => rw [whole]
  exact segments_text_append ⟨stands.wellFormed, decided _ back⟩

/-- Whether the bytes in front of `bound` say all about a segment. -/
def Placed.settled (bound : Nat) (placed : Placed) : Bool :=
  decide (placed.offset + placed.segment.text.length + 2 ≤ bound) ||
    (placed.segment.isStray && decide (placed.offset < bound))

/-- A segment whose end is not decided has no stray byte within reach behind it. -/
theorem le_offset_of_undecided {later : List Segment} {placed : Placed}
    (standing : Standing (segment :: later))
    (undecided : ¬ segment.Decided (later.flatMap Segment.text) (bound - segment.text.length))
    (member : placed ∈ placedFrom offset line later) (stray : placed.segment.isStray = true) :
    offset + bound ≤ segment.text.length + placed.offset := by
  have short : ¬ segment.text.length + 2 ≤ bound := by
    intro enough
    exact undecided (Segment.decided_of_two_le standing.1.admits (by omega))
  cases later with
  | nil => cases member
  | cons next later =>
      rcases List.mem_cons.mp member with rfl | behind
      · obtain ⟨byte, rfl⟩ := Segment.exists_stray_of_fault? (eq_of_beq stray)
        have notPoint := Segment.ne_point_of_stray standing.2.1.wellFormed
        by_contra within
        simp only at within
        exact undecided (Segment.decided_of_head standing.1.admits notPoint (by omega))
      · have someText := List.length_pos_iff.mpr
          (Segment.text_ne_nil_of_wellFormed standing.2.1.wellFormed)
        have further := offset_le_of_mem_placedFrom behind
        omega

/-- Nothing is settled from a segment on whose end is not decided. -/
theorem filter_settled_eq_nil {later : List Segment} (standing : Standing (segment :: later))
    (undecided : ¬ (segment.text.length ≤ bound ∧
      segment.Decided (later.flatMap Segment.text) (bound - segment.text.length))) :
    (placedFrom offset line (segment :: later)).filter (Placed.settled (offset + bound)) = [] := by
  have short : bound < segment.text.length + 2 := by
    by_contra enough
    exact undecided ⟨by omega, Segment.decided_of_two_le standing.1.admits (by omega)⟩
  apply List.filter_eq_nil_iff.mpr
  intro placed member settled
  simp only [Placed.settled, Bool.or_eq_true, decide_eq_true_eq, Bool.and_eq_true] at settled
  rcases List.mem_cons.mp member with rfl | behind
  · dsimp only at settled
    rcases settled with beyond | ⟨stray, within⟩
    · omega
    · have single : segment.text.length = 1 := by
        obtain ⟨byte, rfl⟩ := Segment.exists_stray_of_fault? (eq_of_beq stray)
        rfl
      exact undecided ⟨by omega, Segment.decided_of_isStray stray⟩
  · have further := offset_le_of_mem_placedFrom behind
    rcases settled with beyond | ⟨stray, within⟩
    · omega
    · have open' := not_and.mp undecided (by omega)
      have distant := le_offset_of_undecided standing open' behind stray
      omega

/-- The first segments of two scripts are the same and lie within the bytes on which the
scripts agree. -/
def SharesSegment (bound : Nat) (first second : Bytes) : Prop :=
  ∃ segment firstRest secondRest,
    segments first = segment :: segments firstRest ∧
      segments second = segment :: segments secondRest ∧ segment.text.length ≤ bound ∧
        firstRest.take (bound - segment.text.length) =
          secondRest.take (bound - segment.text.length)

theorem SharesSegment.symm (shares : SharesSegment bound first second) :
    SharesSegment bound second first := by
  obtain ⟨segment, firstRest, secondRest, ofFirst, ofSecond, inside, agree⟩ := shares
  exact ⟨segment, secondRest, firstRest, ofSecond, ofFirst, inside, agree.symm⟩

theorem filter_settled_of_not_sharesSegment (agree : first.take bound = second.take bound)
    (apart : ¬ SharesSegment bound first second) (offset line : Nat) :
    (placedFrom offset line (segments first)).filter (Placed.settled (offset + bound)) = [] := by
  cases first with
  | nil =>
      rw [segments_nil]
      rfl
  | cons byte rest =>
      have standing := standing_segments (byte :: rest)
      have whole := flatMap_text_segments (byte :: rest)
      rw [segments_cons] at standing whole ⊢
      apply filter_settled_eq_nil standing
      intro ⟨inside, decided⟩
      rw [List.flatMap_cons] at whole
      rw [← whole] at agree
      obtain ⟨after, ofSecond, agreeBehind⟩ :=
        segments_eq_cons_of_decided standing.1 inside decided agree
      rw [flatMap_text_segments] at agreeBehind
      exact apart ⟨_, _, after, segments_cons byte rest, ofSecond, inside, agreeBehind⟩

theorem filter_settled_cons (inside : segment.text.length ≤ bound) (later : List Segment) :
    (placedFrom offset line (segment :: later)).filter (Placed.settled (offset + bound)) =
      [⟨segment, offset, line⟩].filter (Placed.settled (offset + bound)) ++
        (placedFrom (offset + segment.text.length) (line + newlines segment.text) later).filter
          (Placed.settled (offset + segment.text.length + (bound - segment.text.length))) := by
  have same : offset + segment.text.length + (bound - segment.text.length) = offset + bound := by
    omega
  rw [same, placedFrom, ← List.filter_append, List.singleton_append]

/-- Scripts that agree on their first bytes have those segments in common that these bytes
settle. -/
theorem filter_settled_segments (agree : first.take bound = second.take bound)
    (offset line : Nat) :
    (placedFrom offset line (segments first)).filter (Placed.settled (offset + bound)) =
      (placedFrom offset line (segments second)).filter (Placed.settled (offset + bound)) := by
  induction bound using Nat.strongRecOn generalizing first second offset line with
  | ind bound ih =>
      by_cases shares : SharesSegment bound first second
      · obtain ⟨segment, firstRest, secondRest, ofFirst, ofSecond, inside, agreeBehind⟩ := shares
        have someText := List.length_pos_iff.mpr
          (text_ne_nil_of_mem_segments (ofFirst ▸ List.mem_cons_self))
        rw [ofFirst, ofSecond, filter_settled_cons inside, filter_settled_cons inside,
          ih _ (by omega) agreeBehind]
      · have apart : ¬ SharesSegment bound second first := fun other => shares other.symm
        rw [filter_settled_of_not_sharesSegment agree shares,
          filter_settled_of_not_sharesSegment agree.symm apart]

/-! What is read off the settled segments. -/

variable {source : Bytes}

theorem filter_filterMap_settled {α : Type} {observe : Placed → Option α} {within : α → Bool}
    (settles : ∀ placed shown, observe placed = some shown → within shown = true →
      placed.settled bound = true) (places : List Placed) :
    (places.filterMap observe).filter within =
      ((places.filter (Placed.settled bound)).filterMap observe).filter within := by
  rw [List.filter_filterMap, List.filter_filterMap, List.filterMap_filter]
  apply List.filterMap_congr
  intro placed _
  split
  · rfl
  · rename_i unsettled
    apply Option.filter_eq_none_iff.mpr
    intro shown observed inside
    exact unsettled (settles placed shown observed inside)

theorem filter_filterMap_placedSegments {α : Type} {observe : Placed → Option α}
    {within : α → Bool} (settles : ∀ placed shown, observe placed = some shown →
      within shown = true → placed.settled bound = true)
    (agree : first.take bound = second.take bound) :
    ((placedSegments first).filterMap observe).filter within =
      ((placedSegments second).filterMap observe).filter within := by
  have settled := filter_settled_segments agree 0 1
  rw [Nat.zero_add] at settled
  rw [filter_filterMap_settled settles, placedSegments, settled, ← placedSegments,
    ← filter_filterMap_settled settles]

theorem Placed.map_snd_token? (placed : Placed) :
    (placed.token?.map (placed.offset, ·)).map Prod.snd = placed.token? := by
  cases placed.token? <;> rfl

theorem map_snd_tokenPlaces (source : Bytes) :
    (tokenPlaces source).map Prod.snd = (scan source).tokens := by
  rw [tokenPlaces, List.map_append, List.map_filterMap, scan, lineBehind_segments]
  simp only [Placed.map_snd_token?]
  rfl

theorem map_snd_strayPlaces (source : Bytes) :
    (strayPlaces source).map Prod.snd =
      (scan source).diagnostics.filter fun diagnostic =>
        diagnostic.message = Fault.unexpectedCharacter.message := by
  rw [strayPlaces, List.map_filterMap, scan, List.filter_filterMap]
  apply List.filterMap_congr
  intro placed _
  rw [Placed.diagnostic?, Segment.isStray]
  cases placed.segment.fault? with
  | none => rfl
  | some fault =>
      by_cases unexpected : fault = .unexpectedCharacter
      · subst unexpected
        simp [Diagnostic.ofFault, Option.filter_some]
      · simp [Diagnostic.ofFault, Option.filter_some, unexpected,
          Fault.message_ne_unexpected unexpected]

theorem lexeme_prefix_of_mem_tokenPlaces {place : Nat × Token}
    (member : place ∈ tokenPlaces source) : place.2.lexeme <+: source.drop place.1 := by
  rcases List.mem_append.mp member with inside | last
  · obtain ⟨placed, placedMember, shown⟩ := List.mem_filterMap.mp inside
    obtain ⟨token, isToken, rfl⟩ := Option.map_eq_some_iff.mp shown
    obtain ⟨before, after, places⟩ := List.append_of_mem placedMember
    obtain ⟨_, rest, _, _⟩ := placedSegments_split places
    rw [rest, ← lexeme_of_token? isToken]
    exact List.prefix_append _ _
  · rw [List.mem_singleton.mp last]
    exact List.nil_prefix

theorem line_of_mem_strayPlaces {place : Nat × Diagnostic}
    (member : place ∈ strayPlaces source) :
    place.1 < source.length ∧ place.2.line = lineAfter (source.take place.1) := by
  obtain ⟨placed, placedMember, shown⟩ := List.mem_filterMap.mp member
  split at shown
  · rename_i stray
    obtain ⟨diagnostic, isShown, rfl⟩ := Option.map_eq_some_iff.mp shown
    obtain ⟨byte, isStray⟩ := Segment.exists_stray_of_fault? (eq_of_beq stray)
    obtain ⟨before, after, places⟩ := List.append_of_mem placedMember
    have size := congrArg List.length (placedSegments_split places).2.1
    rw [isStray, List.length_drop, List.length_append] at size
    refine ⟨?_, ?_⟩
    · simp only [Segment.text, List.length_singleton] at size
      omega
    · rw [line_of_diagnostic? isShown, endLine_of_stray placedMember isStray]
      rfl
  · cases shown

theorem eq_of_take_eq (agree : first.take bound = second.take bound)
    (short : first.length < bound) : first = second := by
  have size := congrArg List.length agree
  rw [List.length_take, List.length_take] at size
  rwa [List.take_of_length_le (by omega), List.take_of_length_le (by omega)] at agree

/-- Scripts that agree on their first bytes have the same tokens as far as two bytes before
the last of them, at the same places, and report the same stray bytes among them. -/
theorem scan_stable_of_take_eq (first second : Bytes) (bound : Nat)
    (agree : first.take bound = second.take bound) :
    ((tokenPlaces first).filter fun place => place.1 + place.2.lexeme.length + 2 ≤ bound) =
        ((tokenPlaces second).filter fun place => place.1 + place.2.lexeme.length + 2 ≤ bound) ∧
      ((strayPlaces first).filter fun place => place.1 < bound) =
        ((strayPlaces second).filter fun place => place.1 < bound) ∧
      ∀ source, (tokenPlaces source).map Prod.snd = (scan source).tokens ∧
        (∀ place ∈ tokenPlaces source, place.2.lexeme <+: source.drop place.1) ∧
        ((strayPlaces source).map Prod.snd = (scan source).diagnostics.filter fun diagnostic =>
          diagnostic.message = Fault.unexpectedCharacter.message) ∧
        ∀ place ∈ strayPlaces source,
          place.1 < source.length ∧ place.2.line = lineAfter (source.take place.1) := by
  refine ⟨?_, ?_, fun source => ⟨map_snd_tokenPlaces source, fun _ =>
    lexeme_prefix_of_mem_tokenPlaces, map_snd_strayPlaces source, fun _ =>
    line_of_mem_strayPlaces⟩⟩
  · rw [tokenPlaces, tokenPlaces, List.filter_append, List.filter_append]
    congr 1
    · apply filter_filterMap_placedSegments _ agree
      intro placed shown observed within
      obtain ⟨token, isToken, rfl⟩ := Option.map_eq_some_iff.mp observed
      have ends : placed.offset + token.lexeme.length + 2 ≤ bound := of_decide_eq_true within
      rw [lexeme_of_token? isToken] at ends
      simp [Placed.settled, ends]
    · by_cases same : first = second
      · rw [same]
      · have long : ¬ first.length + 2 ≤ bound := fun short =>
          same (eq_of_take_eq agree (by omega))
        have longSecond : ¬ second.length + 2 ≤ bound := fun short =>
          same (eq_of_take_eq agree.symm (by omega)).symm
        simp [Token.endOfFile, long, longSecond]
  · apply filter_filterMap_placedSegments _ agree
    intro placed shown observed within
    split at observed
    · rename_i stray
      obtain ⟨diagnostic, _, rfl⟩ := Option.map_eq_some_iff.mp observed
      have inside : placed.offset < bound := of_decide_eq_true within
      simp [Placed.settled, stray, inside]
    · cases observed

/-- Behind the tenth byte the last number goes on, and the script ends within a string. -/
theorem scan_stable_before_fraction :
    (ascii "x==1\n@ 12.").take 10 = (ascii "x==1\n@ 12.5 \"").take 10 ∧
      ((tokenPlaces (ascii "x==1\n@ 12.5 \"")).filter fun place =>
          place.1 + place.2.lexeme.length + 2 ≤ 10) =
        [(0, ⟨.identifier, ascii "x", none, 1⟩), (1, ⟨.symbol .equalEqual, ascii "==", none, 1⟩),
          (3, ⟨.number, ascii "1", some (.number (.ofDecimal ⟨1, 0⟩)), 1⟩)] ∧
      ((strayPlaces (ascii "x==1\n@ 12.5 \"")).filter fun place => place.1 < 10) =
        [(5, .ofFault .unexpectedCharacter 2)] := by
  have agree : (ascii "x==1\n@ 12.").take 10 = (ascii "x==1\n@ 12.5 \"").take 10 := by
    decide +kernel
  obtain ⟨tokens, strays, _⟩ := scan_stable_of_take_eq _ _ 10 agree
  refine ⟨agree, ?_, ?_⟩
  · rw [← tokens]
    decide +kernel
  · rw [← strays]
    decide +kernel

/-- One byte is not enough: a digit behind the point makes the number longer. -/
example : (ascii "12.").take 3 = (ascii "12.5").take 3 ∧
    ((tokenPlaces (ascii "12.")).filter fun place => place.1 + place.2.lexeme.length + 1 ≤ 3) ≠
      ((tokenPlaces (ascii "12.5")).filter fun place =>
        place.1 + place.2.lexeme.length + 1 ≤ 3) := by
  decide +kernel

end ScriptLexer
