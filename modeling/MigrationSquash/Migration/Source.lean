import MigrationSquash.Text.Decoding
import MigrationSquash.Text.Lines

/-!
# Source files

The lines of a source file and how the file ends and marks them, so that changed lines
are written the way the file was.
-/

set_option autoImplicit false

namespace MigrationSquash

inductive Newline where
  | lineFeed
  | carriageReturnLineFeed
  deriving DecidableEq, Repr

def Newline.toText : Newline → Text
  | lineFeed => ['\n']
  | carriageReturnLineFeed => ['\r', '\n']

structure Source where
  lines : List Text
  newline : Newline
  marked : Bool
  deriving DecidableEq, Repr

namespace Source

/-- The newline of a text: one carriage return before a line feed decides for all. -/
def newlineOf (s : Text) : Newline :=
  if Text.contains ['\r', '\n'] s then .carriageReturnLineFeed else .lineFeed

/-- Reads the content of a file that starts without a mark. -/
def ofUnmarked (marked : Bool) (s : Text) : Source :=
  { lines := Text.lines s, newline := newlineOf s, marked }

/-- Reads the content of a file; a byte-order mark at its start is not part of it. -/
def parse : Text → Source
  | [] => ofUnmarked false []
  | c :: rest =>
      if c = Text.byteOrderMark then ofUnmarked true rest else ofUnmarked false (c :: rest)

/-- Other lines in the same form. -/
def withLines (source : Source) (lines : List Text) : Source := { source with lines }

/-- The content of the file: every line ends with the newline. -/
def render (source : Source) : Text :=
  (if source.marked then [Text.byteOrderMark] else []) ++
    Text.join source.newline.toText source.lines ++ source.newline.toText

/-- The content of the file in bytes. -/
def toBytes (source : Source) : Bytes := Text.encodeUtf8 source.render

/-- Reads the bytes of a file, unless they cannot be decoded. -/
def ofBytes? (bytes : Bytes) : Option Source := (Text.decode? bytes).map parse

end Source

end MigrationSquash
