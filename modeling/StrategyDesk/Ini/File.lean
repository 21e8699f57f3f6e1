import StrategyDesk.Failure
import StrategyDesk.FileTree
import StrategyDesk.Ini.Document

/-!
This module contains the reading of settings files from where they are kept.
-/

namespace StrategyDesk
namespace Ini

variable {m : Type → Type} [Monad m]

def load (readText : String → m (Except ReadError String)) (path : String) :
    m (Except Failure Document) := do
  let refuse (reason : String) : Except Failure Document :=
    .error (.configParse path s!"couldn't read {path}: {reason}")
  match ← readText path with
  | .error e => return refuse e.message
  | .ok s =>
    match Document.read s.toList with
    | .error problem => return refuse problem.message
    | .ok d => return .ok d

end Ini
end StrategyDesk
