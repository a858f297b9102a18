import UpToDate.Diagnostic.Basic
import UpToDate.Execution.Work
import UpToDate.Text.Capital

namespace UpToDate.Report

def about (w : Declaration) (severity : Severity) (category : Diagnostic.Category)
    (number : UInt16) (message : String) (notes : List String) : Diagnostic :=
  ⟨severity, ⟨category, number⟩, message, some w.id, notes⟩

def historyUnusable (w : Declaration) : Diagnostic :=
  about w .debug .history 1 ("No usable execution history for " ++ w.displayName) []

def historyStored (w : Declaration) (record : Path) : Diagnostic :=
  about w .debug .history 2 ("Stored execution history for " ++ w.displayName)
    ["record: " ++ record]

def determining (w : Declaration) : Diagnostic :=
  about w .debug .execution 3 ("Determining if " ++ w.displayName ++ " is up-to-date") []

def skipping (w : Declaration) : Diagnostic :=
  about w .info .execution 2 ("Skipping " ++ w.displayName ++ " as it is up-to-date.") []

def notUpToDate (w : Declaration) (reasons : List String) : Diagnostic :=
  about w .info .execution 1
    (Text.capitalize w.displayName ++ " is not up-to-date because:" ++
      String.join (reasons.map ("\n  " ++ ·))) []

def trackingDisabled : String := "Change tracking is disabled."

def noHistory (w : Declaration) : ExecutionFault :=
  .internal ⟨w.displayName ++ " reported no changes but has no execution history"⟩

def saysUpToDate (w : Declaration) : ExecutionFault :=
  .internal ⟨w.displayName ++ " executed but its action reported " ++ Outcome.upToDate.text⟩

end UpToDate.Report
