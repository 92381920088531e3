/-
# Log levels

A line is written if its level reaches the level that is configured. A logger writes at
every level but the lowest, which is only configured.

| level | number | names |
| --- | ---: | --- |
| `all` | 0 | `NOTSET` |
| `debug` | 10 | `DEBUG` |
| `info` | 20 | `INFO`, and every unknown name |
| `warning` | 30 | `WARNING`, `WARN` |
| `error` | 40 | `ERROR` |
| `critical` | 50 | `CRITICAL`, `FATAL` |

A name is looked up in upper case. Of the characters beyond ASCII the dotless i, the long s
and the ligatures of Latin letters have upper-case forms in ASCII, so they count; all others
are left as they are, since no name holds them.
-/

import PartialBatch.Text.Basic

namespace PartialBatch
namespace Log

/-- The level of a line, or the one below which lines are dropped. -/
inductive Level
  | all
  | debug
  | info
  | warning
  | error
  | critical
  deriving DecidableEq, Repr, Inhabited

namespace Level

/-- The number by which levels are compared. -/
def number : Level → Nat
  | all => 0
  | debug => 10
  | info => 20
  | warning => 30
  | error => 40
  | critical => 50

/-- The name of a level in a line. -/
def name : Level → Text
  | all => "notset"
  | debug => "debug"
  | info => "info"
  | warning => "warning"
  | error => "error"
  | critical => "critical"

/-- A code point in upper case, as far as that is ASCII. -/
def upper (c : CodePoint) : Text :=
  let n := c.number
  if 97 ≤ n ∧ n ≤ 122 then [CodePoint.ofNumber (n - 32)]
  else if n = 0x131 then "I"
  else if n = 0x17F then "S"
  else if n = 0xDF then "SS"
  else if n = 0xFB00 then "FF"
  else if n = 0xFB01 then "FI"
  else if n = 0xFB02 then "FL"
  else if n = 0xFB03 then "FFI"
  else if n = 0xFB04 then "FFL"
  else if n = 0xFB05 ∨ n = 0xFB06 then "ST"
  else [c]

/-- The levels by their names. -/
def named : List (Text × Level) :=
  [("NOTSET", all), ("DEBUG", debug), ("INFO", info), ("WARNING", warning), ("WARN", warning),
    ("ERROR", error), ("CRITICAL", critical), ("FATAL", critical)]

/-- The level at which a logger writes when it is called under a name, if it can be. -/
def ofMethod? (name : Text) : Option Level :=
  let methods : List (Text × Level) :=
    [("debug", debug), ("info", info), ("msg", info), ("warning", warning), ("warn", warning),
      ("error", error), ("exception", error), ("critical", critical), ("fatal", critical)]
  methods.lookup name

/-- The level of a name. -/
def ofName (name : Text) : Level := (named.lookup (name.flatMap upper)).getD info

/-- Whether a line of this level is written when `configured` is. -/
def reaches (level configured : Level) : Bool := configured.number ≤ level.number

end Level
end Log
end PartialBatch
