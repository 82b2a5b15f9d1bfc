import MigrationSquash.Code.Scan
import MigrationSquash.Text.Blank
import MigrationSquash.Text.Word

/-!
# Arguments of a call

The text between the parentheses of a call, divided at its outer commas, without comments.
Commas and brackets inside literals and comments divide nothing.
-/

set_option autoImplicit false

namespace MigrationSquash.Code

/-- The texts between the outer commas of a call, at least one, and the offset just past
its closing parenthesis. -/
structure Segments where
  first : Text
  others : List Text
  stop : Nat
  deriving DecidableEq, Repr

def Segments.write (s : Text) (segments : Segments) : Segments :=
  { segments with first := s ++ segments.first }

/-- Starts another segment before the first one. -/
def Segments.divide (segments : Segments) : Segments :=
  { segments with first := [], others := segments.first :: segments.others }

/-- Divides the rest of a call inside of which `depth` brackets are open; the text starts
at `offset`.  Nothing is returned where the call is not closed.

The newline that ends a line comment is kept, and one that ends a character literal or a
string ends it. -/
def segments? : Context → Nat → Nat → Text → Option Segments
  | _, _, _, [] => none
  | .code, depth, offset, '/' :: '/' :: rest => segments? .lineComment depth (offset + 2) rest
  | .code, depth, offset, '/' :: '*' :: rest => segments? .blockComment depth (offset + 2) rest
  | .code, depth, offset, '@' :: '"' :: rest =>
      (segments? .verbatim depth (offset + 2) rest).map (.write ['@', '"'])
  | .code, depth, offset, '@' :: '$' :: '"' :: rest =>
      (segments? .verbatim depth (offset + 3) rest).map (.write ['@', '$', '"'])
  | .code, 0, offset, ')' :: _ => some ⟨[], [], offset + 1⟩
  | .code, 0, offset, ',' :: rest => (segments? .code 0 (offset + 1) rest).map .divide
  | .code, depth, offset, c :: rest =>
      let context :=
        if c = '"' then .string else if c = '\'' then .character else .code
      let inner :=
        if c = '(' || c = '[' || c = '{' then depth + 1
        else if c = ')' || c = ']' || c = '}' then depth - 1
        else depth
      (segments? context inner (offset + c.utf8Size) rest).map (.write [c])
  | .lineComment, depth, offset, c :: rest =>
      if c = '\n' then (segments? .code depth (offset + 1) rest).map (.write [c])
      else segments? .lineComment depth (offset + c.utf8Size) rest
  | .blockComment, depth, offset, '*' :: '/' :: rest => segments? .code depth (offset + 2) rest
  | .blockComment, depth, offset, c :: rest =>
      segments? .blockComment depth (offset + c.utf8Size) rest
  | .verbatim, depth, offset, '"' :: '"' :: rest =>
      (segments? .verbatim depth (offset + 2) rest).map (.write ['"', '"'])
  | .verbatim, depth, offset, c :: rest =>
      (segments? (if c = '"' then .code else .verbatim) depth (offset + c.utf8Size) rest).map
        (.write [c])
  | .string, depth, offset, '\\' :: c :: rest =>
      (segments? .string depth (offset + 1 + c.utf8Size) rest).map (.write ['\\', c])
  | .string, depth, offset, c :: rest =>
      (segments? (if c = '"' || c = '\n' then .code else .string) depth (offset + c.utf8Size)
        rest).map (.write [c])
  | .character, depth, offset, '\\' :: c :: rest =>
      (segments? .character depth (offset + 1 + c.utf8Size) rest).map (.write ['\\', c])
  | .character, depth, offset, c :: rest =>
      (segments? (if c = '\'' || c = '\n' then .code else .character) depth
        (offset + c.utf8Size) rest).map (.write [c])

/-- An argument of a call, which may name its parameter. -/
structure Argument where
  name : Option Text
  value : Text
  deriving DecidableEq, Repr

/-- Divides `name : value`.  A name directly before `::` is part of an expression. -/
def namedArgument? (s : Text) : Option Argument :=
  let bare := (Text.after? ['@'] s).getD s
  let name := bare.takeWhile Text.isWord
  match name, Text.trimStart (bare.dropWhile Text.isWord) with
  | first :: _, ':' :: c :: value =>
      if Text.isWordStart first && c ≠ ':' then some ⟨some name, Text.trim (c :: value)⟩
      else none
  | _, _ => none

/-- The argument that a segment writes, if it writes one. -/
def argument? (segment : Text) : Option Argument :=
  let trimmed := Text.trim segment
  if trimmed.isEmpty then none
  else some ((namedArgument? trimmed).getD ⟨none, trimmed⟩)

/-- The arguments of a call and the offset just past its closing parenthesis; `inside`
follows the opening one and starts at `offset`. -/
def argumentsFrom? (offset : Nat) (inside : Text) : Option (List Argument × Nat) :=
  (segments? .code 0 offset inside).map fun segments =>
    ((segments.first :: segments.others).filterMap argument?, segments.stop)

/-- The arguments of the call whose opening parenthesis stands `opening` bytes into the
text. -/
def arguments? (s : Text) (opening : Nat) : Option (List Argument × Nat) :=
  let (front, rest) := Text.splitAtByte opening s
  match rest with
  | '(' :: inside =>
      if Text.width front = opening then argumentsFrom? (opening + 1) inside else none
  | _ => none

/-- Puts arguments into the slots of the parameters, `next` being the slot of the next
argument without a name.  An argument that belongs to no parameter is left out. -/
def bindFrom (parameters : List Text) : Nat → List (Option Text) → List Argument →
    List (Option Text)
  | _, slots, [] => slots
  | next, slots, argument :: rest =>
      match argument.name with
      | some name =>
          match parameters.findIdx? (· = name) with
          | some index => bindFrom parameters next (slots.set index (some argument.value)) rest
          | none => bindFrom parameters next slots rest
      | none => bindFrom parameters (next + 1) (slots.set next (some argument.value)) rest

/-- The value given for each parameter. -/
def bind (parameters : List Text) (arguments : List Argument) : List (Option Text) :=
  bindFrom parameters 0 (parameters.map fun _ => none) arguments

/-- The last part of the name inside `nameof(...)`. -/
def nameOf? (s : Text) : Option Text := do
  let rest ← Text.after? "nameof".toList s
  let rest ← Text.after? ['('] (Text.trimStart rest)
  let inside := Text.trimStart rest
  let isPart := fun c => Text.isWord c || c == '.'
  let path := inside.takeWhile isPart
  if path.isEmpty || Text.trimStart (inside.dropWhile isPart) ≠ [')'] then none
  else some (Text.afterLast '.' path)

/-- The text between two given ends. -/
def between? (opening closing s : Text) : Option Text :=
  (Text.after? opening s).bind (Text.before? closing)

/-- The value that an expression for a name stands for: that of a literal or of `nameof`,
none for `null`, and else the expression itself. -/
def literalValue (expression : Text) : Option Text :=
  let value := Text.trim expression
  if value.isEmpty || value = "null".toList then none
  else
    match between? ['@', '"'] ['"'] value with
    | some inner => some (Text.replaceAll ['"', '"'] ['"'] inner)
    | none =>
        match between? ['"'] ['"'] value with
        | some inner =>
            some (Text.replaceAll ['\\', '\\'] ['\\'] (Text.replaceAll ['\\', '"'] ['"'] inner))
        | none => some ((nameOf? value).getD value)

end MigrationSquash.Code
