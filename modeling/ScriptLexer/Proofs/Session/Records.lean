import Mathlib
import ScriptLexer.Proofs.Reader.Run
import ScriptLexer.Proofs.Session.History

namespace ScriptLexer

/-! Sessions hold what is to be left of their events.  One event keeps it so whatever the
readers of the scanners have kept from earlier scans, and with it every run of events.
-/

/-- What a scanner has been opened for. -/
def OpenScanner.scanner (kept : OpenScanner) : Scanner :=
  ⟨kept.reader.source, kept.sink⟩

namespace Session

/-- A session holds what events have left, whatever its readers have kept for themselves. -/
structure Records (count : Nat) (events : List Event) (session : Session) : Prop where
  length_collectors : session.collectors.length = count
  kept : ∀ sink < count, session.collectors[sink]? = some ⟨keptBy sink events⟩
  scanners : session.scanners.map OpenScanner.scanner = openedBy events
  runs : session.runs = (scannedBy events).map fun scanner => (scan scanner.source).tokens

/-- What a reader gives that has read nothing before, reporting to a collector of its own. -/
def freshScan? (source : Bytes) : Option Scan :=
  ((Reader.opened source).scanTokens? .empty).map fun (tokens, _, sink) =>
    ⟨tokens, sink.diagnostics⟩

theorem freshScan?_eq (source : Bytes) : freshScan? source = some (scan source) := by
  obtain ⟨used, _, scanned⟩ := (Reader.opened source).scanTokens?_eq .empty
  rw [freshScan?, scanned]
  rfl

variable {count : Nat} {events : List Event} {event : Event} {session : Session}

theorem records_start (count : Nat) : Records count [] (start count) where
  length_collectors := List.length_replicate
  kept sink inside := by
    rw [start, List.getElem?_replicate, if_pos inside]
    rfl
  scanners := rfl
  runs := rfl

theorem changeCollector?_eq {sink : Nat} {collector : Collector} (change : Collector → Collector)
    (kept : session.collectors[sink]? = some collector) :
    session.changeCollector? sink change =
      some { session with collectors := session.collectors.set sink (change collector) } := by
  rw [changeCollector?, kept]
  rfl

theorem runReader?_eq {sink : Nat} {collector : Collector} (reader : Reader)
    (kept : session.collectors[sink]? = some collector) :
    ∃ used : Reader, used.source = reader.source ∧
      session.runReader? reader sink =
        some (used, { session with
          collectors := session.collectors.set sink
            (collector.report (scan reader.source).diagnostics)
          runs := session.runs ++ [(scan reader.source).tokens] }) := by
  obtain ⟨used, source, scanned⟩ := reader.scanTokens?_eq collector
  refine ⟨used, source, ?_⟩
  rw [runReader?, kept]
  simp only [Option.bind_eq_bind, Option.bind_some, scanned]
  rfl

namespace Records

/-- An event changes the one collector that it is about. -/
theorem kept_set {sink : Nat} {collector : Collector} (records : Records count events session)
    (proper : Proper count (events ++ [event]))
    (about : event.sink? (openedBy events) = some sink)
    (here : collector.diagnostics = keptBy sink (events ++ [event])) :
    ∀ other < count, (session.collectors.set sink collector)[other]? =
      some ⟨keptBy other (events ++ [event])⟩ := by
  intro other inside
  by_cases same : sink = other
  · subst same
    rw [List.getElem?_set_self (records.length_collectors.symm ▸ inside), ← here]
  · have notAbout : event.sink? (openedBy events) ≠ some other := by
      rw [about]
      exact fun equal => same (Option.some.inj equal)
    rw [List.getElem?_set_ne same, records.kept other inside,
      keptBy_concat_of_other proper notAbout]

/-- What is left of a change to a collector alone. -/
theorem changed {sink : Nat} {collector : Collector} (records : Records count events session)
    (proper : Proper count (events ++ [event]))
    (about : event.sink? (openedBy events) = some sink)
    (here : collector.diagnostics = keptBy sink (events ++ [event]))
    (noScan : event.scans? (openedBy events) = none) (noScanner : event.opens? = none) :
    Records count (events ++ [event])
      { session with collectors := session.collectors.set sink collector } where
  length_collectors := by rw [List.length_set, records.length_collectors]
  kept := records.kept_set proper about here
  scanners := by
    rw [openedBy_concat, noScanner, Option.toList_none, List.append_nil, records.scanners]
  runs := by
    rw [scannedBy_concat proper, noScan, Option.toList_none, List.append_nil, records.runs]

theorem scanned {scanner : Scanner} {scanners : List OpenScanner}
    (records : Records count events session)
    (proper : Proper count (events ++ [event]))
    (scans : event.scans? (openedBy events) = some scanner) (noScanner : event.opens? = none)
    (sameScanners : scanners.map OpenScanner.scanner = openedBy events) :
    Records count (events ++ [event])
      { session with
        collectors := session.collectors.set scanner.sink
          ⟨keptBy scanner.sink events ++ (scan scanner.source).diagnostics⟩
        scanners := scanners
        runs := session.runs ++ [(scan scanner.source).tokens] } where
  length_collectors := by rw [List.length_set, records.length_collectors]
  kept := by
    have about : event.sink? (openedBy events) = some scanner.sink :=
      Event.sink?_of_scans? scans
    apply records.kept_set proper about
    rw [keptBy_concat scanner.sink proper, if_neg (Event.ne_clear_of_scans? scans _),
      Event.directed_of_scans? scans]
  scanners := by
    rw [openedBy_concat, noScanner, Option.toList_none, List.append_nil, sameScanners]
  runs := by
    rw [scannedBy_concat proper, scans, Option.toList_some, List.map_append, ← records.runs]
    rfl

/-- A scanner is kept with what its reader has left, and that is not seen from outside. -/
theorem step_scan {index : Nat} (records : Records count events session)
    (proper : Proper count (events ++ [.scan index])) :
    ∃ after, session.step? (.scan index) = some after ∧
      Records count (events ++ [.scan index]) after := by
  obtain ⟨before, names⟩ := proper_concat_iff.mp proper
  have there : index < session.scanners.length := by
    rw [← List.length_map OpenScanner.scanner, records.scanners]
    exact names
  obtain ⟨kept, found⟩ : ∃ kept, session.scanners[index]? = some kept :=
    ⟨_, List.getElem?_eq_getElem there⟩
  have scans : (openedBy events)[index]? = some kept.scanner := by
    rw [← records.scanners, List.getElem?_map, found]
    rfl
  have inside : kept.sink < count := sink_lt_of_mem_openedBy before (List.mem_of_getElem? scans)
  obtain ⟨used, source, ran⟩ := runReader?_eq kept.reader (records.kept kept.sink inside)
  have same : OpenScanner.scanner ⟨used, kept.sink⟩ = kept.scanner := by
    rw [OpenScanner.scanner, source]
    rfl
  have sameScanners : (session.scanners.set index ⟨used, kept.sink⟩).map OpenScanner.scanner =
      openedBy events := by
    obtain ⟨_, here⟩ := List.getElem?_eq_some_iff.mp scans
    rw [List.map_set, same, records.scanners, ← here, List.set_getElem_self]
  refine ⟨_, ?_, records.scanned proper scans rfl sameScanners⟩
  simp only [step?, found, Option.bind_eq_bind, Option.bind_some, ran]
  rfl

theorem step_openScanner {scanner : Scanner} (records : Records count events session)
    (proper : Proper count (events ++ [.openScanner scanner])) :
    ∃ after, session.step? (.openScanner scanner) = some after ∧
      Records count (events ++ [.openScanner scanner]) after := by
  have inside : scanner.sink < session.collectors.length := by
    rw [records.length_collectors]
    exact (proper_concat_iff.mp proper).2
  have noScan : Event.scans? (openedBy events) (.openScanner scanner) = none := rfl
  refine ⟨_, if_pos inside, records.length_collectors, ?_, ?_, ?_⟩
  · intro sink known
    rw [keptBy_concat_of_other proper nofun]
    exact records.kept sink known
  · rw [openedBy_concat, List.map_append, records.scanners]
    rfl
  · rw [scannedBy_concat proper, noScan, Option.toList_none, List.append_nil]
    exact records.runs

theorem step (records : Records count events session)
    (proper : Proper count (events ++ [event])) :
    ∃ after, session.step? event = some after ∧ Records count (events ++ [event]) after := by
  have names := (proper_concat_iff.mp proper).2
  cases event with
  | openScanner scanner => exact records.step_openScanner proper
  | scan index => exact records.step_scan proper
  | scanOnce scanner =>
      obtain ⟨used, _, ran⟩ :=
        runReader?_eq (.opened scanner.source) (records.kept scanner.sink names)
      refine ⟨_, congrArg (Option.map Prod.snd) ran, ?_⟩
      exact records.scanned proper rfl rfl records.scanners
  | report sink diagnostic =>
      refine ⟨_, changeCollector?_eq _ (records.kept sink names), ?_⟩
      refine records.changed proper rfl ?_ rfl rfl
      rw [keptBy_concat sink proper, if_neg nofun, Event.directed, if_pos rfl]
      rfl
  | clear sink =>
      refine ⟨_, changeCollector?_eq _ (records.kept sink names), ?_⟩
      refine records.changed proper rfl ?_ rfl rfl
      rw [keptBy_concat sink proper, if_pos rfl]
      rfl

end Records

/-- Events that name what there is can all happen. -/
theorem exists_records (proper : Proper count events) :
    ∃ session, (start count).run? events = some session ∧ Records count events session := by
  induction events using List.reverseRecOn with
  | nil => exact ⟨start count, rfl, records_start count⟩
  | append_singleton events event ih =>
      obtain ⟨before, ran, records⟩ := ih (proper_concat_iff.mp proper).1
      obtain ⟨after, stepped, recorded⟩ := records.step proper
      exact ⟨after, run?_concat_of_step? ran stepped, recorded⟩

/-- After every event the collectors hold what has been directed to them since they were
cleared last, and every run is what a fresh scan of its source gives, whatever its scanner
has scanned before.  A collector that the event is not about and the runs of earlier scans
stay as they are. -/
theorem run?_history (count : Nat) (past : List Event) (event : Event)
    (proper : Proper count (past ++ [event])) :
    (∀ source, freshScan? source = some (scan source)) ∧
      ∃ before after, (start count).run? past = some before ∧ before.step? event = some after ∧
        after.collectors.length = count ∧
        (∀ sink < count, ∃ collector, after.collectors[sink]? = some collector ∧
          collector.diagnostics = keptBy sink (past ++ [event]) ∧
          collector.hasErrors = !(keptBy sink (past ++ [event])).isEmpty ∧
          collector.count = (keptBy sink (past ++ [event])).length) ∧
        (∀ sink, event.sink? (openedBy past) ≠ some sink →
          after.collectors[sink]? = before.collectors[sink]?) ∧
        after.runs =
          (scannedBy (past ++ [event])).map (fun scanner => (scan scanner.source).tokens) ∧
        before.runs <+: after.runs := by
  obtain ⟨before, ran, earlier⟩ := exists_records (proper_concat_iff.mp proper).1
  obtain ⟨after, stepped, records⟩ := earlier.step proper
  refine ⟨freshScan?_eq, before, after, ran, stepped, records.length_collectors, ?_, ?_,
    records.runs, ?_⟩
  · intro sink inside
    exact ⟨_, records.kept sink inside, rfl, rfl, rfl⟩
  · intro sink other
    by_cases inside : sink < count
    · rw [records.kept sink inside, earlier.kept sink inside,
        keptBy_concat_of_other proper other]
    · rw [List.getElem?_eq_none (by rw [records.length_collectors]; omega),
        List.getElem?_eq_none (by rw [earlier.length_collectors]; omega)]
  · rw [records.runs, earlier.runs, scannedBy_concat proper, List.map_append]
    exact List.prefix_append _ _

/-- One collector is cleared between two scans by the same scanner, the other one is not. -/
theorem run?_history_of_rescan :
    ∃ after,
      (start 2).run?
          [.openScanner ⟨ascii "@\n@", 0⟩, .scan 0, .report 1 ⟨7, ascii "late"⟩,
            .scanOnce ⟨[Byte.quote], 1⟩, .clear 0, .scan 0] = some after ∧
        after.diagnostics? 0 =
          some [⟨1, ascii "Unexpected character."⟩, ⟨2, ascii "Unexpected character."⟩] ∧
        after.diagnostics? 1 =
          some [⟨7, ascii "late"⟩, ⟨1, ascii "Unterminated string."⟩] ∧
        after.runs = [[.endOfFile 2], [.endOfFile 1], [.endOfFile 2]] := by
  obtain ⟨_, before, after, ran, stepped, _, kept, _, runs, _⟩ :=
    run?_history 2
      [.openScanner ⟨ascii "@\n@", 0⟩, .scan 0, .report 1 ⟨7, ascii "late"⟩,
        .scanOnce ⟨[Byte.quote], 1⟩, .clear 0] (.scan 0) (by decide +kernel)
  obtain ⟨first, foundFirst, inFirst, _⟩ := kept 0 (by decide)
  obtain ⟨second, foundSecond, inSecond, _⟩ := kept 1 (by decide)
  refine ⟨after, ?_, ?_, ?_, ?_⟩
  · exact run?_concat_of_step? ran stepped
  · rw [diagnostics?, foundFirst, Option.map_some, inFirst]
    decide +kernel
  · rw [diagnostics?, foundSecond, Option.map_some, inSecond]
    decide +kernel
  · rw [runs]
    decide +kernel

end Session

end ScriptLexer
