import ScriptLexer.Reader

namespace ScriptLexer

/-! Sessions: several scans over time that share collectors of diagnostics.
Collectors, scanners and runs are numbered from zero in the order in which they
come into being.
-/

/-- What is to be scanned, and where its faults go. -/
structure Scanner where
  source : Bytes
  sink : Nat
deriving DecidableEq

/-- A scanner that is kept, and what its last scan has left in its reader. -/
structure OpenScanner where
  reader : Reader
  sink : Nat
deriving DecidableEq

structure Session where
  collectors : List Collector
  scanners : List OpenScanner
  runs : List (List Token)
deriving DecidableEq

inductive Event where
  | openScanner (scanner : Scanner)
  | scan (scanner : Nat)
  /-- A scan of a source that no scanner is kept for. -/
  | scanOnce (scanner : Scanner)
  | report (sink : Nat) (diagnostic : Diagnostic)
  | clear (sink : Nat)
deriving DecidableEq

namespace Session

def start (collectors : Nat) : Session where
  collectors := List.replicate collectors .empty
  scanners := []
  runs := []

def changeCollector? (session : Session) (sink : Nat) (change : Collector → Collector) :
    Option Session := do
  let collector ← session.collectors[sink]?
  return { session with collectors := session.collectors.set sink (change collector) }

/-- Has a reader read its source.  The tokens become a run of their own, the
diagnostics are added to what the collector holds. -/
def runReader? (session : Session) (reader : Reader) (sink : Nat) :
    Option (Reader × Session) := do
  let collector ← session.collectors[sink]?
  let (tokens, used, reported) ← reader.scanTokens? collector
  return (used, { session with
    collectors := session.collectors.set sink reported
    runs := session.runs ++ [tokens] })

/-- The session after an event.  There is none if the event names a collector or
a scanner that does not exist. -/
def step? (session : Session) : Event → Option Session
  | .openScanner scanner =>
      if scanner.sink < session.collectors.length then
        some { session with
          scanners := session.scanners ++ [⟨.opened scanner.source, scanner.sink⟩] }
      else none
  | .scan index => do
      let scanner ← session.scanners[index]?
      let (used, after) ← session.runReader? scanner.reader scanner.sink
      return { after with scanners := after.scanners.set index ⟨used, scanner.sink⟩ }
  | .scanOnce scanner =>
      (session.runReader? (.opened scanner.source) scanner.sink).map Prod.snd
  | .report sink diagnostic => session.changeCollector? sink (·.report [diagnostic])
  | .clear sink => session.changeCollector? sink fun _ => .empty

def run? (session : Session) (events : List Event) : Option Session :=
  events.foldlM step? session

def diagnostics? (session : Session) (sink : Nat) : Option (List Diagnostic) :=
  session.collectors[sink]?.map Collector.diagnostics

def equalRuns? (session : Session) (first second : Nat) : Option Bool :=
  session.runs[first]?.bind fun firsts =>
    session.runs[second]?.map (Token.equalRuns firsts)

theorem run?_concat_of_step? {session before after : Session} {events : List Event}
    {event : Event} (ran : session.run? events = some before)
    (stepped : before.step? event = some after) :
    session.run? (events ++ [event]) = some after := by
  rw [run?, List.foldlM_append, ← run?, ran, Option.bind_eq_bind, Option.bind_some,
    List.foldlM_cons, stepped]
  rfl

end Session

end ScriptLexer
