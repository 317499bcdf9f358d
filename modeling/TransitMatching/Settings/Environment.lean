import TransitMatching.Number.Numeral
import TransitMatching.Settings.Validation
import TransitMatching.Text.Blank

/-!
# Settings from the environment

Two variables of the environment override the number of workers and the search
radius. Blanks around a value do not matter.
-/

namespace TransitMatching.Settings

variable {α : Type} [Scalar α] [DecimalText α]

/-- The variable that overrides the number of workers. -/
def threadsVariable : String := "PTMAPPER_NUM_THREADS"

/-- The variable that overrides the search radius. -/
def radiusVariable : String := "PTMAPPER_NODE_SEARCH_RADIUS"

/-- The value of a variable, none if it is not set. -/
def readVariable {β : Type} (name : String) (read? : String → Option β) :
    Option String → Except (SettingsError α) (Option β)
  | none => .ok none
  | some text =>
    match read? (trimBlanks text) with
    | some value => .ok (some value)
    | none => .error (.invalidEnvironment name text)

/-- Counts are less than two to the sixty-fourth. -/
def countLimit : Nat := 0x10000000000000000

/-- The settings with what the two variables override. -/
def withEnvironment (s : Settings α) (threads radius : Option String) :
    Except (SettingsError α) (Settings α) := do
  let threads ← readVariable threadsVariable (readNat? (countLimit - 1)) threads
  let radius ← readVariable radiusVariable DecimalText.read? radius
  return { s with
    threads := threads.getD s.threads
    searchRadius := radius.getD s.searchRadius }

end TransitMatching.Settings
