import Mathlib
import ScriptLexer.Proofs.Scan.Lookahead
import ScriptLexer.Proofs.Scan.Seam

namespace ScriptLexer

/-! The cut of a script in two parts.  Wherever the segments are parted, those of the second part
are the cut of their own text, so that they have the places which that text gives them, moved
behind the first part.
-/

theorem offset_lt_of_mem_placedFrom {offset line : ℕ} {cut : List Segment} {placed : Placed}
    (nonempty : ∀ segment ∈ cut, segment.text ≠ []) (member : placed ∈ placedFrom offset line cut) :
    placed.offset < offset + (cut.flatMap Segment.text).length := by
  induction cut generalizing offset line with
  | nil => cases member
  | cons segment cut ih =>
      rw [List.forall_mem_cons] at nonempty
      rw [List.flatMap_cons, List.length_append]
      rcases List.mem_cons.mp member with rfl | later
      · have some := List.length_pos_of_ne_nil nonempty.1
        exact Nat.lt_add_of_pos_right (Nat.add_pos_left some _)
      · rw [← Nat.add_assoc]
        exact ih nonempty.2 later

/-- The place of a token when more text is in front of it. -/
def movedPlace (bytes count : ℕ) (place : ℕ × Token) : ℕ × Token :=
  (place.1 + bytes, place.2.moved count)

theorem place?_moved (bytes count : ℕ) (placed : Placed) :
    (placed.moved bytes count).token?.map ((placed.moved bytes count).offset, ·) =
      (placed.token?.map (placed.offset, ·)).map (movedPlace bytes count) := by
  rw [token?_moved, Option.map_map, Option.map_map]
  rfl

theorem fst_lt_of_mem_placedFrom {cut : List Segment}
    (nonempty : ∀ segment ∈ cut, segment.text ≠ []) :
    ∀ place ∈ (placedFrom 0 1 cut).filterMap fun placed => placed.token?.map (placed.offset, ·),
      place.1 < (cut.flatMap Segment.text).length := by
  intro place member
  obtain ⟨placed, isPlaced, shown⟩ := List.mem_filterMap.mp member
  obtain ⟨token, _, rfl⟩ := Option.map_eq_some_iff.mp shown
  have within := offset_lt_of_mem_placedFrom nonempty isPlaced
  rwa [Nat.zero_add] at within

theorem le_fst_of_mem_map_movedPlace {bytes count : ℕ} {places : List (ℕ × Token)}
    {place : ℕ × Token} (member : place ∈ places.map (movedPlace bytes count)) :
    bytes ≤ place.1 := by
  obtain ⟨first, _, rfl⟩ := List.mem_map.mp member
  exact Nat.le_add_left _ _

section Split

variable {source : Bytes} {front back : List Segment} (cut : segments source = front ++ back)
include cut

/-- The second part is the cut of its own text. -/
theorem segments_of_split : segments (back.flatMap Segment.text) = back :=
  segments_flatMap_text (cut ▸ standing_segments source).of_append

theorem text_of_split : source = front.flatMap Segment.text ++ back.flatMap Segment.text := by
  rw [← List.flatMap_append, ← cut, flatMap_text_segments]

theorem text_ne_nil_of_split : ∀ segment ∈ front, segment.text ≠ [] := by
  intro segment member
  apply text_ne_nil_of_mem_segments
  rw [cut]
  exact List.mem_append_left back member

theorem placedSegments_of_split :
    placedSegments source = placedFrom 0 1 front ++
      (placedSegments (back.flatMap Segment.text)).map
        (Placed.moved (front.flatMap Segment.text).length
          (newlines (front.flatMap Segment.text))) := by
  rw [placedSegments, cut, placedFrom_append, placedFrom_add, placedSegments,
    segments_of_split cut]

theorem tokenPlaces_of_split :
    tokenPlaces source =
      ((placedFrom 0 1 front).filterMap fun placed => placed.token?.map (placed.offset, ·)) ++
        (tokenPlaces (back.flatMap Segment.text)).map
          (movedPlace (front.flatMap Segment.text).length
            (newlines (front.flatMap Segment.text))) := by
  have size : source.length =
      (back.flatMap Segment.text).length + (front.flatMap Segment.text).length := by
    rw [text_of_split cut, List.length_append, Nat.add_comm]
  have line : lineAfter source =
      lineAfter (back.flatMap Segment.text) + newlines (front.flatMap Segment.text) := by
    rw [text_of_split cut, lineAfter_append, lineAfter, lineAfter, Nat.add_right_comm]
  rw [tokenPlaces, placedSegments_of_split cut, List.filterMap_append,
    filterMap_map_moved (place?_moved _ _), size, line, tokenPlaces, List.map_append,
    List.append_assoc]
  rfl

/-- The tokens of the first part begin within it, -/
theorem filter_lt_tokenPlaces :
    ((tokenPlaces source).filter fun place => place.1 < (front.flatMap Segment.text).length) =
      (placedFrom 0 1 front).filterMap fun placed => placed.token?.map (placed.offset, ·) := by
  have within := fst_lt_of_mem_placedFrom (text_ne_nil_of_split cut)
  rw [tokenPlaces_of_split cut, List.filter_append, List.filter_eq_self.mpr,
    List.filter_eq_nil_iff.mpr, List.append_nil]
  · intro place member
    rw [decide_eq_true_eq, not_lt]
    exact le_fst_of_mem_map_movedPlace member
  · intro place member
    exact decide_eq_true (within place member)

/-- and those of the second part behind it. -/
theorem filter_le_tokenPlaces :
    ((tokenPlaces source).filter fun place => (front.flatMap Segment.text).length ≤ place.1) =
      (tokenPlaces (back.flatMap Segment.text)).map
        (movedPlace (front.flatMap Segment.text).length
          (newlines (front.flatMap Segment.text))) := by
  have within := fst_lt_of_mem_placedFrom (text_ne_nil_of_split cut)
  rw [tokenPlaces_of_split cut, List.filter_append, List.filter_eq_nil_iff.mpr, List.nil_append,
    List.filter_eq_self.mpr]
  · intro place member
    exact decide_eq_true (le_fst_of_mem_map_movedPlace member)
  · intro place member
    rw [decide_eq_true_eq, not_le]
    exact within place member

end Split

end ScriptLexer
