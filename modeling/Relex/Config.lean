/-
Configuration: two switches, and which configuration is active.

A host may set a switch to any value it can write down; what counts in
use is whether the value is truthy. Empty values, zero, false and the
absent value are not.

The active configuration can be replaced, reset to the default, or
replaced for the length of a block. When a block ends, by whichever
way, the configuration that was active when it began is active again.
-/
namespace Relex

-- =========================================================== settings

/-- A value a host may give a switch. -/
inductive Setting where
  | absent
  | flag (b : Bool)
  | number (n : Int)
  | text (s : String)
  | list (items : List Setting)
  | record (fields : List (String × Setting))
  deriving Inhabited, Repr

/-- Does the value turn a switch on? -/
def Setting.truthy : Setting → Bool
  | .absent => false
  | .flag b => b
  | .number n => n ≠ 0
  | .text s => s ≠ ""
  | .list items => !items.isEmpty
  | .record fields => !fields.isEmpty

-- ===================================================== configurations

/-- The switches. -/
structure Config where
  /-- Pass on the fault of a failing change, in place of noting it down
  and going on to the next change of the batch. -/
  strictEdits : Setting := .flag false
  /-- Answer a query past the last token of a line with that token. -/
  fallbackToLastToken : Setting := .flag true
  deriving Inhabited

namespace Config

/-- The configuration that holds where none was set. -/
def default : Config := {}

/-- The configuration with the switches a record names; the record's
other fields are passed over. -/
def ofRecord (fields : List (String × Setting)) : Config where
  strictEdits := (fields.lookup "strict_edits").getD (.flag false)
  fallbackToLastToken :=
    (fields.lookup "fallback_to_last_token").getD (.flag true)

/-- Are faults of changes passed on? -/
def isStrict (c : Config) : Bool := c.strictEdits.truthy

/-- Does a query past the last token fall back to it? -/
def fallsBack (c : Config) : Bool := c.fallbackToLastToken.truthy

end Config

-- ============================================ the active configuration

/-- The active configuration, and those to come back to when the blocks
entered so far end, innermost first. -/
structure Ambient where
  active : Config
  saved : List Config
  deriving Inhabited

namespace Ambient

/-- Nothing was set and no block entered. -/
def fresh : Ambient := ⟨.default, []⟩

/-- Makes a configuration the active one. -/
def set (a : Ambient) (c : Config) : Ambient := { a with active := c }

/-- Makes the default the active configuration. -/
def reset (a : Ambient) : Ambient := a.set .default

/-- Enters a block with a configuration of its own. -/
def enter (a : Ambient) (c : Config) : Ambient :=
  ⟨c, a.active :: a.saved⟩

/-- Ends the innermost block. -/
def leave (a : Ambient) : Ambient :=
  match a.saved with
  | [] => a
  | c :: rest => ⟨c, rest⟩

end Ambient

end Relex
