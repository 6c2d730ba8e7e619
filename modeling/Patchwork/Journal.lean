/-!
# Notices

What a run tells its user besides results and faults.  A notice has a level of
importance and names the part of the program it comes from.
-/

namespace Patchwork

/-- How important a notice is. -/
inductive Level
  | debug | info | warning | error
  deriving DecidableEq, Repr

namespace Level

/-- The name of a level. -/
def name : Level → String
  | debug => "DEBUG"
  | info => "INFO"
  | warning => "WARNING"
  | error => "ERROR"

/-- The number of a level; more important levels have greater numbers. -/
def rank : Level → Nat
  | debug => 10
  | info => 20
  | warning => 30
  | error => 40

/-- The rank a level may be asked for by, under any of its names. -/
def rankOfName? : String → Option Nat
  | "CRITICAL" | "FATAL" => some 50
  | "ERROR" => some 40
  | "WARNING" | "WARN" => some 30
  | "INFO" => some 20
  | "DEBUG" => some 10
  | "NOTSET" => some 0
  | _ => none

/-- The first name of a rank. -/
def nameOfRank : Nat → String
  | 50 => "CRITICAL"
  | 40 => "ERROR"
  | 30 => "WARNING"
  | 20 => "INFO"
  | 10 => "DEBUG"
  | _ => "NOTSET"

end Level

/-- The parts of the program notices come from. -/
inductive Source
  | records | repository | modFiles | merging | extraction | context | patching
  | commands | procedures | settings
  deriving DecidableEq, Repr

/-- How a part of the program is called in front of its notices. -/
def Source.name : Source → String
  | .records => "modpatcher.records.store"
  | .repository => "modpatcher.records.repository"
  | .modFiles => "modpatcher.records.modfile"
  | .merging => "modpatcher.resolver.merge"
  | .extraction => "modpatcher.resolver.extraction"
  | .context => "modpatcher.runtime.context"
  | .patching => "modpatcher.runtime.patcher"
  | .commands => "modpatcher.script.functions"
  | .procedures => "modpatcher.script.procedures"
  | .settings => "modpatcher.config"

/-- Something the user is told. -/
structure Notice where
  level : Level
  source : Source
  text : String
  deriving DecidableEq, Repr

/-- The notices of a session, in order. -/
abbrev Journal := Array Notice

namespace Journal

/-- The notices at a rank of importance or above. -/
def atLeast (rank : Nat) (journal : Journal) : List Notice :=
  journal.toList.filter fun notice => rank ≤ notice.level.rank

end Journal

end Patchwork
