import Mathlib
import ScriptLexer.Scan
import ScriptLexer.Session

namespace ScriptLexer

/-! What is to be left of events, read off the events alone.  A collector is left with what
the events behind its last clearing have directed to it.
-/

namespace Event

/-- The scanner that comes into being. -/
def opens? : Event → Option Scanner
  | .openScanner scanner => some scanner
  | _ => none

/-- What is scanned.  `opened` are the scanners that are kept. -/
def scans? (opened : List Scanner) : Event → Option Scanner
  | .scan index => opened[index]?
  | .scanOnce scanner => some scanner
  | _ => none

/-- The collector that the event is about. -/
def sink? (opened : List Scanner) : Event → Option Nat
  | .report sink _ => some sink
  | .clear sink => some sink
  | event => (event.scans? opened).map Scanner.sink

/-- What the event directs to a collector. -/
def directed (opened : List Scanner) (sink : Nat) : Event → List Diagnostic
  | .report other diagnostic => if other = sink then [diagnostic] else []
  | event =>
      match event.scans? opened with
      | some scanner =>
          if scanner.sink = sink then (ScriptLexer.scan scanner.source).diagnostics else []
      | none => []

/-- Whether there are the collector and the scanner that the event names. -/
def NamesExisting (collectors scanners : Nat) : Event → Prop
  | .openScanner scanner => scanner.sink < collectors
  | .scan index => index < scanners
  | .scanOnce scanner => scanner.sink < collectors
  | .report sink _ => sink < collectors
  | .clear sink => sink < collectors

instance (collectors scanners : Nat) :
    (event : Event) → Decidable (event.NamesExisting collectors scanners)
  | .openScanner scanner => inferInstanceAs (Decidable (scanner.sink < collectors))
  | .scan index => inferInstanceAs (Decidable (index < scanners))
  | .scanOnce scanner => inferInstanceAs (Decidable (scanner.sink < collectors))
  | .report sink _ => inferInstanceAs (Decidable (sink < collectors))
  | .clear sink => inferInstanceAs (Decidable (sink < collectors))

variable {event : Event} {collectors scanners : Nat} {opened more : List Scanner}

theorem NamesExisting.mono {further : Nat} (names : event.NamesExisting collectors scanners)
    (more : scanners ≤ further) : event.NamesExisting collectors further := by
  cases event with
  | scan index => exact Nat.lt_of_lt_of_le names more
  | _ => exact names

/-- Scanners that are opened later change nothing of what an event has been. -/
theorem scans?_append (names : event.NamesExisting collectors opened.length) :
    event.scans? (opened ++ more) = event.scans? opened := by
  cases event with
  | scan index => exact List.getElem?_append_left names
  | _ => rfl

theorem directed_append (sink : Nat) (names : event.NamesExisting collectors opened.length) :
    event.directed (opened ++ more) sink = event.directed opened sink := by
  cases event with
  | scan index => simp only [directed, scans?_append names]
  | _ => rfl

section

variable {scanner : Scanner} (scans : event.scans? opened = some scanner)

include scans

theorem sink?_of_scans? : event.sink? opened = some scanner.sink := by
  cases event with
  | scan index | scanOnce once => exact congrArg (Option.map Scanner.sink) scans
  | _ => cases scans

theorem ne_clear_of_scans? (sink : Nat) : event ≠ .clear sink := by
  rintro rfl
  cases scans

theorem directed_of_scans? :
    event.directed opened scanner.sink = (ScriptLexer.scan scanner.source).diagnostics := by
  cases event with
  | scan index | scanOnce once => simp only [directed, scans, if_true]
  | _ => cases scans

end

theorem directed_of_sink?_ne {sink : Nat} (other : event.sink? opened ≠ some sink) :
    event.directed opened sink = [] := by
  cases event with
  | openScanner scanner => rfl
  | report aim diagnostic =>
      have different : aim ≠ sink := by simpa [sink?] using other
      rw [directed, if_neg different]
  | clear aim => rfl
  | scan index =>
      cases kept : opened[index]? with
      | none => simp only [directed, scans?, kept]
      | some scanner =>
          have different : scanner.sink ≠ sink := by simpa [sink?, scans?, kept] using other
          simp only [directed, scans?, kept, if_neg different]
  | scanOnce scanner =>
      have different : scanner.sink ≠ sink := by simpa [sink?, scans?] using other
      simp only [directed, scans?, if_neg different]

end Event

namespace Session

/-- The scanners that are kept after events, in the order of their numbers. -/
def openedBy (events : List Event) : List Scanner :=
  events.filterMap Event.opens?

/-- What events scan, in the order of the runs. -/
def scannedBy (events : List Event) : List Scanner :=
  events.filterMap (Event.scans? (openedBy events))

def sinceClear (sink : Nat) (events : List Event) : List Event :=
  events.rtakeWhile (· ≠ .clear sink)

/-- What events leave in a collector. -/
def keptBy (sink : Nat) (events : List Event) : List Diagnostic :=
  (sinceClear sink events).flatMap (Event.directed (openedBy events) sink)

/-- Every event names what there is when it happens. -/
def Proper (count : Nat) (events : List Event) : Prop :=
  ∀ position (inside : position < events.length),
    events[position].NamesExisting count (openedBy (events.take position)).length

instance (count : Nat) (events : List Event) : Decidable (Proper count events) :=
  inferInstanceAs (Decidable (∀ position (inside : position < events.length),
    events[position].NamesExisting count (openedBy (events.take position)).length))

variable {count : Nat} {events : List Event} {event : Event}

theorem openedBy_concat (events : List Event) (event : Event) :
    openedBy (events ++ [event]) = openedBy events ++ event.opens?.toList := by
  rw [openedBy, List.filterMap_append]
  cases event <;> rfl

theorem proper_concat_iff :
    Proper count (events ++ [event]) ↔
      Proper count events ∧ event.NamesExisting count (openedBy events).length := by
  constructor
  · intro proper
    refine ⟨?_, ?_⟩
    · intro position inside
      have whole := proper position (by rw [List.length_append]; omega)
      rwa [List.getElem_append_left inside, List.take_append_of_le_length (by omega)] at whole
    · have last := proper events.length (by simp)
      simpa using last
  · intro both position inside
    obtain ⟨proper, names⟩ := both
    rw [List.length_append, List.length_singleton] at inside
    rcases Nat.lt_succ_iff_lt_or_eq.mp inside with before | rfl
    · rw [List.getElem_append_left before, List.take_append_of_le_length (by omega)]
      exact proper position before
    · simpa using names

theorem names_of_mem (proper : Proper count events) (member : event ∈ events) :
    event.NamesExisting count (openedBy events).length := by
  obtain ⟨position, inside, rfl⟩ := List.getElem_of_mem member
  apply (proper position inside).mono
  exact ((List.take_sublist position events).filterMap Event.opens?).length_le

theorem scannedBy_concat (proper : Proper count (events ++ [event])) :
    scannedBy (events ++ [event]) =
      scannedBy events ++ (event.scans? (openedBy events)).toList := by
  obtain ⟨before, names⟩ := proper_concat_iff.mp proper
  have earlier : events.filterMap (Event.scans? (openedBy (events ++ [event]))) =
      scannedBy events := by
    apply List.filterMap_congr
    intro past member
    rw [openedBy_concat, Event.scans?_append (names_of_mem before member)]
  rw [scannedBy, List.filterMap_append, earlier, openedBy_concat,
    List.filterMap_eq_flatMap_toList, List.flatMap_singleton, Event.scans?_append names]

theorem keptBy_concat (sink : Nat) (proper : Proper count (events ++ [event])) :
    keptBy sink (events ++ [event]) =
      if event = .clear sink then []
      else keptBy sink events ++ event.directed (openedBy events) sink := by
  obtain ⟨before, names⟩ := proper_concat_iff.mp proper
  by_cases cleared : event = .clear sink
  · rw [keptBy, sinceClear, List.rtakeWhile_concat, if_neg (by simp [cleared]), if_pos cleared,
      List.flatMap_nil]
  · have earlier : (sinceClear sink events).flatMap
        (Event.directed (openedBy (events ++ [event])) sink) = keptBy sink events := by
      apply List.flatMap_congr
      intro past member
      have isPast := (List.rtakeWhile_suffix _ events).mem member
      rw [openedBy_concat, Event.directed_append sink (names_of_mem before isPast)]
    rw [keptBy, sinceClear, List.rtakeWhile_concat, if_pos (by simp [cleared]), if_neg cleared,
      List.flatMap_append, ← sinceClear, earlier, List.flatMap_singleton, openedBy_concat,
      Event.directed_append sink names]

/-- A clearing and a report are about the collector that they name, and so are scans. -/
theorem keptBy_concat_of_other {sink : Nat} (proper : Proper count (events ++ [event]))
    (other : event.sink? (openedBy events) ≠ some sink) :
    keptBy sink (events ++ [event]) = keptBy sink events := by
  have notCleared : event ≠ .clear sink := by
    intro cleared
    exact other (by rw [cleared]; rfl)
  rw [keptBy_concat sink proper, if_neg notCleared, Event.directed_of_sink?_ne other,
    List.append_nil]

theorem sink_lt_of_mem_openedBy {scanner : Scanner} (proper : Proper count events)
    (member : scanner ∈ openedBy events) : scanner.sink < count := by
  obtain ⟨event, past, opens⟩ := List.mem_filterMap.mp member
  cases event with
  | openScanner opened =>
      cases opens
      exact names_of_mem proper past
  | _ => cases opens

end Session

end ScriptLexer
