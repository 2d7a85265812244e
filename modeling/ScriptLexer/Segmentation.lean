import ScriptLexer.Segment.Next

namespace ScriptLexer

/-! The cut of a whole script into segments. -/

/-- The segments of a script from its first byte to its last. -/
def segments : Bytes → List Segment
  | [] => []
  | first :: rest =>
      let cut := Segment.next first rest
      cut.1 :: segments cut.2
termination_by source => source.length
decreasing_by exact Segment.length_next_lt first rest

theorem segments_nil : segments [] = [] := by
  rw [segments]

theorem segments_cons (first : UInt8) (rest : Bytes) :
    segments (first :: rest) =
      (Segment.next first rest).1 :: segments (Segment.next first rest).2 := by
  rw [segments]

/-- What holds of the empty script, and of a script as soon as it holds of what
the first segment leaves, holds of every script. -/
theorem segments_induction {motive : Bytes → Prop} (nil : motive [])
    (cons : ∀ first rest, motive (Segment.next first rest).2 → motive (first :: rest)) :
    ∀ source, motive source
  | [] => nil
  | first :: rest => cons first rest (segments_induction nil cons (Segment.next first rest).2)
termination_by source => source.length
decreasing_by exact Segment.length_next_lt first rest

/-- Nothing is lost and nothing is added. -/
theorem flatMap_text_segments (source : Bytes) :
    (segments source).flatMap Segment.text = source := by
  induction source using segments_induction with
  | nil => rw [segments_nil, List.flatMap_nil]
  | cons first rest ih =>
      obtain ⟨tail, starts, split⟩ := Segment.next_cuts first rest
      rw [segments_cons, List.flatMap_cons, ih, starts, List.cons_append, split]

/-- Every segment takes up at least one byte. -/
theorem text_ne_nil_of_mem_segments {source : Bytes} {segment : Segment}
    (member : segment ∈ segments source) : segment.text ≠ [] := by
  induction source using segments_induction with
  | nil => simp [segments_nil] at member
  | cons first rest ih =>
      rw [segments_cons, List.mem_cons] at member
      rcases member with rfl | later
      · obtain ⟨tail, starts, _⟩ := Segment.next_cuts first rest
        simp [starts]
      · exact ih later

end ScriptLexer
