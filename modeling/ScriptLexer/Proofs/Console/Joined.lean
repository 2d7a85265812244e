import Mathlib
import ScriptLexer.Proofs.Console.Report

namespace ScriptLexer.Transcript

/-! What can be seen of a transcript.  Adjacent text on one channel is seen as one piece, and
two transcripts that look the same may stand for one another in a longer one.
-/

variable {piece first : Piece} {front back other rest : Transcript} {channel : Channel}

theorem joined_cons_of_empty (empty : piece.text = []) : joined (piece :: rest) = joined rest := by
  rw [joined, if_pos empty]

theorem joined_cons_of_text (someText : piece.text ≠ []) :
    joined (piece :: rest) = push piece (joined rest) := by
  rw [joined, if_neg someText]

theorem push_cons_of_ne (apart : piece.channel ≠ first.channel) :
    push piece (first :: rest) = piece :: first :: rest := by
  rw [push, if_neg fun together => apart together.1]

theorem push_push_of_same (same : piece.channel = first.channel)
    (noLabel : piece.channel.isLabel = false) :
    push piece (push first rest) = push ⟨piece.channel, piece.text ++ first.text⟩ rest := by
  cases rest with
  | nil => exact if_pos ⟨same, noLabel⟩
  | cons next rest =>
      have firstNoLabel : first.channel.isLabel = false := same ▸ noLabel
      by_cases joins : first.channel = next.channel
      · rw [push, if_pos ⟨joins, firstNoLabel⟩, push, if_pos ⟨same, noLabel⟩, push,
          if_pos ⟨same.trans joins, noLabel⟩, List.append_assoc]
      · have apart : piece.channel ≠ next.channel := same ▸ joins
        rw [push_cons_of_ne joins, push, if_pos ⟨same, noLabel⟩, push_cons_of_ne]
        exact apart

theorem push_push_of_ne (apart : piece.channel ≠ first.channel) :
    push piece (push first rest) = piece :: push first rest := by
  cases rest with
  | nil => exact push_cons_of_ne apart
  | cons next rest =>
      rw [push]
      split
      · exact push_cons_of_ne apart
      · exact push_cons_of_ne apart

theorem joined_push_append (someText : piece.text ≠ []) :
    joined (push piece front ++ back) = push piece (joined (front ++ back)) := by
  cases front with
  | nil => exact joined_cons_of_text someText
  | cons next front =>
      by_cases together : piece.channel = next.channel ∧ piece.channel.isLabel = false
      · have longer : (⟨piece.channel, piece.text ++ next.text⟩ : Piece).text ≠ [] := by
          simp [someText]
        rw [push, if_pos together, List.cons_append, joined_cons_of_text longer, List.cons_append]
        by_cases empty : next.text = []
        · rw [joined_cons_of_empty empty, empty, List.append_nil]
        · rw [joined_cons_of_text empty, push_push_of_same together.1 together.2]
      · rw [push, if_neg together, List.cons_append, joined_cons_of_text someText]

theorem joined_joined_append (front back : Transcript) :
    joined (joined front ++ back) = joined (front ++ back) := by
  induction front with
  | nil => rfl
  | cons piece rest ih =>
      by_cases empty : piece.text = []
      · rw [joined_cons_of_empty empty, ih, List.cons_append, joined_cons_of_empty empty]
      · rw [joined_cons_of_text empty, joined_push_append empty, ih, List.cons_append,
          joined_cons_of_text empty]

theorem joined_joined (transcript : Transcript) :
    joined (joined transcript) = joined transcript := by
  simpa using joined_joined_append transcript []

theorem joined_append_joined (front back : Transcript) :
    joined (front ++ joined back) = joined (front ++ back) := by
  induction front with
  | nil => exact joined_joined back
  | cons piece rest ih =>
      by_cases empty : piece.text = []
      · rw [List.cons_append, joined_cons_of_empty empty, ih, List.cons_append,
          joined_cons_of_empty empty]
      · rw [List.cons_append, joined_cons_of_text empty, ih, List.cons_append,
          joined_cons_of_text empty]

/-- What looks the same looks the same in a longer transcript. -/
theorem joined_append_congr (sameFront : joined front = joined other)
    (sameBack : joined back = joined rest) : joined (front ++ back) = joined (other ++ rest) := by
  rw [← joined_joined_append, sameFront, joined_joined_append, ← joined_append_joined, sameBack,
    joined_append_joined]

theorem joined_flatMap_congr {α : Type} {written shown : α → Transcript}
    (same : ∀ item, joined (written item) = joined (shown item)) (items : List α) :
    joined (items.flatMap written) = joined (items.flatMap shown) := by
  induction items with
  | nil => rfl
  | cons item items ih =>
      rw [List.flatMap_cons, List.flatMap_cons]
      exact joined_append_congr (same item) ih

/-- Nothing is joined where the channel changes. -/
theorem joined_append_of_apart
    (apart : ∀ piece ∈ front, ∀ next ∈ (joined back).head?, piece.channel ≠ next.channel) :
    joined (front ++ back) = joined front ++ joined back := by
  induction front with
  | nil => rfl
  | cons piece front ih =>
      rw [List.forall_mem_cons] at apart
      by_cases empty : piece.text = []
      · rw [List.cons_append, joined_cons_of_empty empty, ih apart.2, joined_cons_of_empty empty]
      · rw [List.cons_append, joined_cons_of_text empty, ih apart.2, joined_cons_of_text empty]
        cases joined front with
        | nil =>
            cases behind : joined back with
            | nil => rfl
            | cons next later =>
                rw [List.nil_append]
                exact push_cons_of_ne (apart.1 next (by rw [behind]; rfl))
        | cons next later =>
            rw [List.cons_append, push, push]
            split <;> rfl

/-! All that is written, whatever the channel. -/

def text (transcript : Transcript) : Bytes :=
  transcript.flatMap Piece.text

theorem text_push (piece : Piece) (rest : Transcript) :
    text (push piece rest) = piece.text ++ text rest := by
  cases rest with
  | nil => rfl
  | cons next rest =>
      rw [push]
      split
      · exact List.append_assoc _ _ _
      · rfl

theorem text_joined (transcript : Transcript) : text (joined transcript) = text transcript := by
  induction transcript with
  | nil => rfl
  | cons piece rest ih =>
      have split : text (piece :: rest) = piece.text ++ text rest := rfl
      by_cases empty : piece.text = []
      · rw [joined_cons_of_empty empty, ih, split, empty, List.nil_append]
      · rw [joined_cons_of_text empty, text_push, ih, split]

/-! Pieces on one channel. -/

/-- The pieces of a transcript on one channel. -/
def on (channel : Channel) (transcript : Transcript) : Transcript :=
  transcript.filter fun piece => piece.channel = channel

theorem on_cons_of_ne (elsewhere : piece.channel ≠ channel) :
    on channel (piece :: rest) = on channel rest := by
  simp [on, elsewhere]

theorem on_push_of_ne (elsewhere : piece.channel ≠ channel) :
    on channel (push piece rest) = on channel rest := by
  cases rest with
  | nil => simp [push, on, elsewhere]
  | cons next rest =>
      rw [push]
      split
      · rename_i together
        have nextElsewhere : next.channel ≠ channel := together.1 ▸ elsewhere
        rw [on_cons_of_ne nextElsewhere]
        exact on_cons_of_ne elsewhere
      · exact on_cons_of_ne elsewhere

theorem on_joined_cons_of_ne (elsewhere : piece.channel ≠ channel) :
    on channel (joined (piece :: rest)) = on channel (joined rest) := by
  by_cases empty : piece.text = []
  · rw [joined_cons_of_empty empty]
  · rw [joined_cons_of_text empty, on_push_of_ne elsewhere]

theorem on_joined_append_of_elsewhere (elsewhere : ∀ piece ∈ front, piece.channel ≠ channel)
    (back : Transcript) :
    on channel (joined (front ++ back)) = on channel (joined back) := by
  induction front with
  | nil => rfl
  | cons piece front ih =>
      rw [List.forall_mem_cons] at elsewhere
      rw [List.cons_append, on_joined_cons_of_ne elsewhere.1, ih elsewhere.2]

/-- Joining brings no text to a channel that had none. -/
theorem exists_of_mem_joined {transcript : Transcript} (member : piece ∈ joined transcript) :
    ∃ original ∈ transcript, original.channel = piece.channel := by
  induction transcript with
  | nil => cases member
  | cons first rest ih =>
      by_cases empty : first.text = []
      · rw [joined_cons_of_empty empty] at member
        obtain ⟨original, inside, same⟩ := ih member
        exact ⟨original, List.mem_cons_of_mem _ inside, same⟩
      · rw [joined_cons_of_text empty] at member
        have shown : piece.channel = first.channel ∨ piece ∈ joined rest := by
          cases behind : joined rest with
          | nil =>
              rw [behind, push, List.mem_singleton] at member
              exact .inl (congrArg Piece.channel member)
          | cons next later =>
              rw [behind, push] at member
              split at member
              · rcases List.mem_cons.mp member with here | inLater
                · exact .inl (by rw [here])
                · exact .inr (List.mem_cons_of_mem _ inLater)
              · rcases List.mem_cons.mp member with here | inRest
                · exact .inl (congrArg Piece.channel here)
                · exact .inr inRest
        rcases shown with here | inRest
        · exact ⟨first, List.mem_cons_self, here.symm⟩
        · obtain ⟨original, inside, same⟩ := ih inRest
          exact ⟨original, List.mem_cons_of_mem _ inside, same⟩

/-! Notes. -/

/-- What is written up to the first note. -/
def beforeNote (transcript : Transcript) : Transcript :=
  transcript.takeWhile fun piece => piece.channel ≠ .noteLabel

theorem beforeNote_eq_self (noNote : ∀ piece ∈ front, piece.channel ≠ .noteLabel) :
    beforeNote front = front := by
  apply List.takeWhile_eq_self_iff.mpr
  intro piece member
  exact decide_eq_true (noNote piece member)

theorem beforeNote_append_note (noNote : ∀ piece ∈ front, piece.channel ≠ .noteLabel)
    (isNote : first.channel = .noteLabel) : beforeNote (front ++ first :: rest) = front := by
  have all : ∀ piece ∈ front, decide (piece.channel ≠ .noteLabel) = true := by
    intro piece member
    exact decide_eq_true (noNote piece member)
  rw [beforeNote, List.takeWhile_append_of_pos all, List.takeWhile_cons_of_neg (by simp [isNote]),
    List.append_nil]

end ScriptLexer.Transcript

namespace ScriptLexer.Console

open Transcript

/-! What can be seen of a run on a file: tokens, what is said about faults, and a note. -/

variable (options : Options)

/-- The note of a run in which `count` faults were found. -/
def noteOf (count : Nat) : Transcript :=
  if count = 0 then [] else errorCount count

theorem joined_noteOf (count : Nat) : joined (noteOf count) = noteOf count := by
  unfold noteOf
  split
  · rfl
  · have name : programName ≠ [] := by decide +kernel
    have text : Numeral.ofNat count ++ ascii (if count = 1 then " error" else " errors") ++
        ascii " generated.\n" ≠ [] := by
      have ending : ascii " generated.\n" ≠ [] := by decide +kernel
      simp [ending]
    rw [errorCount, joined_cons_of_text name, joined_cons_of_text text]
    rfl

/-- The note is not joined with anything. -/
theorem joined_append_noteOf {written : Transcript}
    (noNote : ∀ piece ∈ written, piece.channel ≠ .noteLabel) (count : Nat) :
    joined (written ++ noteOf count) = joined written ++ noteOf count := by
  rw [joined_append_of_apart, joined_noteOf]
  rw [joined_noteOf, noteOf]
  split
  · nofun
  · intro piece member next isNext
    cases isNext
    exact noNote piece member

theorem beforeNote_joined_append_noteOf {written : Transcript}
    (noNote : ∀ piece ∈ written, piece.channel ≠ .noteLabel) (count : Nat) :
    beforeNote (joined (written ++ noteOf count)) = joined written := by
  have noNoteJoined : ∀ piece ∈ joined written, piece.channel ≠ .noteLabel := by
    intro piece member
    obtain ⟨original, inside, same⟩ := exists_of_mem_joined member
    exact same ▸ noNote original inside
  rw [joined_append_noteOf noNote, noteOf]
  split
  · rw [List.append_nil, beforeNote_eq_self noNoteJoined]
  · exact beforeNote_append_note noNoteJoined rfl

theorem faultLines_eq (content : Bytes) :
    faultLines options content =
      (scan content).diagnostics.flatMap (diagnosticLines options (pieces content)) ++
        noteOf (scan content).diagnostics.length := by
  simp only [faultLines, noteOf, List.length_eq_zero_iff]

theorem runFile_transcript_eq (content : Bytes) :
    (runFile options content).transcript =
      scanLines options content (scan content) ++ noteOf (scan content).diagnostics.length := by
  rw [runFile_transcript, faultLines_eq, ← List.append_assoc, scanLines]

theorem channel_ne_noteLabel_of_mem_faults (sourcePieces : List Bytes)
    (diagnostics : List Diagnostic) :
    ∀ piece ∈ diagnostics.flatMap (diagnosticLines options sourcePieces),
      piece.channel ≠ .noteLabel := by
  intro piece member
  obtain ⟨diagnostic, _, inside⟩ := List.mem_flatMap.mp member
  rcases channel_of_mem_diagnosticLines options inside with same | same
  · rw [same]
    nofun
  · rw [same]
    nofun

theorem channel_ne_noteLabel_of_mem_scanLines {source : Bytes} {result : Scan} :
    ∀ piece ∈ scanLines options source result, piece.channel ≠ .noteLabel := by
  intro piece member
  rcases List.mem_append.mp member with inTokens | inFaults
  · rw [channel_of_mem_tokenLines options inTokens]
    nofun
  · exact channel_ne_noteLabel_of_mem_faults options _ _ piece inFaults

theorem joined_runFile (content : Bytes) :
    (runFile options content).transcript.joined =
      joined (scanLines options content (scan content)) ++
        noteOf (scan content).diagnostics.length := by
  rw [runFile_transcript_eq]
  exact joined_append_noteOf (channel_ne_noteLabel_of_mem_scanLines options) _

theorem beforeNote_runFile (content : Bytes) :
    beforeNote (runFile options content).transcript.joined =
      joined (scanLines options content (scan content)) := by
  rw [runFile_transcript_eq]
  exact beforeNote_joined_append_noteOf (channel_ne_noteLabel_of_mem_scanLines options) _

/-- Tokens are not joined with what is said about faults, and both can be told apart. -/
theorem beside_joined_runFile (content : Bytes) :
    beside (runFile options content).transcript.joined = joined (faultLines options content) := by
  have elsewhere : ∀ next ∈ joined (faultLines options content), next.channel ≠ .output := by
    intro next member
    obtain ⟨original, inside, same⟩ := exists_of_mem_joined member
    exact same ▸ silent_faultLines options content original inside
  have onOutput : ∀ piece ∈ joined (tokenLines options (scan content).tokens),
      piece.channel = .output := by
    intro piece member
    obtain ⟨original, inside, same⟩ := exists_of_mem_joined member
    rw [← same, channel_of_mem_tokenLines options inside]
  have noToken : beside (joined (tokenLines options (scan content).tokens)) = [] := by
    apply List.filter_eq_nil_iff.mpr
    intro piece member
    simpa using onOutput piece member
  rw [runFile_transcript, joined_append_of_apart, beside_append, noToken,
    Silent.beside_eq elsewhere, List.nil_append]
  intro piece member next isNext
  rw [channel_of_mem_tokenLines options member]
  exact (elsewhere next (List.mem_of_mem_head? isNext)).symm

end ScriptLexer.Console
