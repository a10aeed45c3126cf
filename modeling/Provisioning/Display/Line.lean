import Provisioning.Display.Time
import Provisioning.Flow.Status

/-!
# Lines of output

Commands print lines. A line is made of pieces, so that whoever shows it can tell times and
durations from other text.
-/

namespace Provisioning

/-- A piece of a line. -/
inductive Piece where
  /-- Text. -/
  | text (s : String)
  /-- A time. -/
  | time (t : Option Timestamp)
  /-- The time between a start and an end. -/
  | duration (start finish : Option Timestamp)
deriving DecidableEq, Repr

namespace Piece

/-- What is shown of a piece. -/
def shown : Piece → String
  | text s => s
  | time t => Timestamp.shown t
  | duration start finish => Timestamp.shownDuration start finish

end Piece

/-- A line of output. -/
abbrev Line := List Piece

namespace Line

/-- A line of text. -/
def plain (s : String) : Line := [.text s]

/-- The line without anything on it. -/
def empty : Line := plain ""

/-- What is shown of a line. -/
def shown (l : Line) : String := String.join (l.map Piece.shown)

/-- A remark. -/
def info (message : String) : Line := plain s!"ℹ {message}"

/-- A success. -/
def success (message : String) : Line := plain s!"✓ {message}"

/-- A warning. -/
def warning (message : String) : Line := plain s!"⚠ {message}"

/-- Something of little weight. -/
def dim (message : String) : Line := plain s!"  {message}"

/-- The value of a name. -/
def field (name : String) (value : Piece) : Line := [.text s!"  {name}: ", value]

/-- The lines that start the output of a command: its title is underlined. -/
def header (title : String) : List Line :=
  [empty, plain title, plain (String.ofList (List.replicate title.length '─'))]

/-- The lines that start a part of the output. -/
def part (title : String) : List Line := [empty, plain title]

end Line

/-- The symbol of a status. -/
def ExecutionStatus.icon : ExecutionStatus → String
  | .finished => "✓"
  | .failed | .cancellationFailed => "✗"
  | .cancelled => "↺"
  | .skipped => "-"
  | .inProgress => "→"
  | .queued => "·"

/-- A text with blanks behind it, so that it has at least so many characters. -/
def Text.padRight (width : Nat) (s : String) : String :=
  s ++ String.ofList (List.replicate (width - s.length) ' ')

/-- The end of a path behind three dots, so that there are at most so many characters; a path that
is short enough as it is. -/
def Text.keepEnd (path : String) (limit : Nat) : String :=
  if path.length ≤ limit then path
  else if limit ≤ 3 then "..."
  else "..." ++ String.ofList (path.toList.drop (path.length - limit + 3))

end Provisioning
