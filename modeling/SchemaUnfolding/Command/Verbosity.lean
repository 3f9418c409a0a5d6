import SchemaUnfolding.Event
import SchemaUnfolding.Text.Blank

/-!
# Verbosity

Up to which level events are shown: debug when the user asked for verbose output, else the level
that the environment sets, else info.
-/

namespace SchemaUnfolding

namespace Level

/-- The level shown when nothing else was asked for. -/
def standard : Level := info

/-- The level of a name. -/
def ofName? (name : String) : Option Level :=
  if name = "DEBUG" ∨ name = "debug" ∨ name = "VERBOSE" ∨ name = "verbose" then some debug
  else if name = "INFO" ∨ name = "info" then some info
  else if name = "TRACE" ∨ name = "trace" then some trace
  else none

/-- The level to show, and what there is to say about the choice. Blanks around the environment's
setting do not count. -/
def choose (verbose : Bool) (setting : Option String) : Level × List Event :=
  if verbose then (debug, [.showingUpTo debug])
  else
    match setting.map Text.trim with
    | none => (standard, [.showingUpTo standard])
    | some name =>
      match ofName? name with
      | some level => (level, [.showingUpTo level])
      | none => (standard, [.showingUpTo standard, .levelUnknown name])

/-- The events of the levels to show. -/
def select (limit : Level) (events : List Event) : List Event :=
  events.filter (·.level.shownAt limit)

end Level

end SchemaUnfolding
