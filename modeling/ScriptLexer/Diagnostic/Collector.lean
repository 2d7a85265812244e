import ScriptLexer.Diagnostic

namespace ScriptLexer

/-! Collectors keep every diagnostic that is reported to them, in order, until
they are cleared.
-/

structure Collector where
  diagnostics : List Diagnostic
deriving DecidableEq

namespace Collector

def empty : Collector := ⟨[]⟩

def report (collector : Collector) (diagnostics : List Diagnostic) : Collector :=
  ⟨collector.diagnostics ++ diagnostics⟩

def count (collector : Collector) : Nat :=
  collector.diagnostics.length

def hasErrors (collector : Collector) : Bool :=
  !collector.diagnostics.isEmpty

theorem report_nil (collector : Collector) : collector.report [] = collector := by
  simp [report]

theorem report_report (collector : Collector) (first second : List Diagnostic) :
    (collector.report first).report second = collector.report (first ++ second) := by
  simp [report, List.append_assoc]

end Collector

end ScriptLexer
