import Mathlib
import ScriptLexer.Proofs.Segment.Next
import ScriptLexer.Segmentation

namespace ScriptLexer

/-! The cut of a script is the only list of segments that make up its text and
stand, each before the text of those behind it.
-/

theorem segments_text_append {segment : Segment} {rest : Bytes} (stands : segment.Stands rest) :
    segments (segment.text ++ rest) = segment :: segments rest := by
  obtain ⟨first, tail, starts⟩ :=
    List.exists_cons_of_ne_nil (Segment.text_ne_nil_of_wellFormed stands.wellFormed)
  have cut := Segment.next_of_stands stands starts
  rw [starts, List.cons_append, segments_cons, cut]

/-- Every segment of the cut stands before the text of those behind it. -/
def Standing : List Segment → Prop
  | [] => True
  | segment :: rest => segment.Stands (rest.flatMap Segment.text) ∧ Standing rest

theorem Standing.stands_of_append {before after : List Segment} {segment : Segment}
    (standing : Standing (before ++ segment :: after)) :
    segment.Stands (after.flatMap Segment.text) := by
  induction before with
  | nil => exact standing.1
  | cons first before ih => exact ih standing.2

theorem Standing.of_append {front back : List Segment} (standing : Standing (front ++ back)) :
    Standing back := by
  induction front with
  | nil => exact standing
  | cons segment front ih => exact ih standing.2

theorem standing_segments (source : Bytes) : Standing (segments source) := by
  induction source using segments_induction with
  | nil =>
      rw [segments_nil]
      trivial
  | cons first rest ih =>
      rw [segments_cons]
      refine ⟨?_, ih⟩
      rw [flatMap_text_segments]
      exact Segment.next_stands first rest

theorem wellFormed_of_mem_segments {source : Bytes} {segment : Segment}
    (member : segment ∈ segments source) : segment.WellFormed := by
  obtain ⟨before, after, split⟩ := List.append_of_mem member
  have standing := standing_segments source
  rw [split] at standing
  exact standing.stands_of_append.wellFormed

theorem segments_flatMap_text {cut : List Segment} (standing : Standing cut) :
    segments (cut.flatMap Segment.text) = cut := by
  induction cut with
  | nil => exact segments_nil
  | cons segment rest ih =>
      rw [List.flatMap_cons, segments_text_append standing.1, ih standing.2]

/-- The cut of a script is its only standing cut. -/
theorem segments_eq_iff {source : Bytes} {cut : List Segment} :
    segments source = cut ↔ cut.flatMap Segment.text = source ∧ Standing cut := by
  constructor
  · intro cutting
    subst cutting
    exact ⟨flatMap_text_segments source, standing_segments source⟩
  · intro ⟨together, standing⟩
    subst together
    exact segments_flatMap_text standing

end ScriptLexer
