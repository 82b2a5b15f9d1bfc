import MigrationSquash.Text.Basic

/-!
# Paths

A path is kept as it was written, because messages show it that way.  Two paths are the
same when their components are.
-/

set_option autoImplicit false

namespace MigrationSquash

/-- A path as it was written. -/
abbrev Path := Text

namespace Path

inductive Component where
  | root
  | current
  | parent
  | name (text : Text)
  deriving DecidableEq, Repr

/-- The texts between slashes. -/
def segments : Text → List Text
  | [] => [[]]
  | '/' :: rest => [] :: segments rest
  | c :: rest =>
      match segments rest with
      | [] => [[c]]
      | segment :: more => (c :: segment) :: more

/-- The component that a segment stands for; empty segments and inner dots stand for
nothing. -/
def component? (segment : Text) : Option Component :=
  if segment = [] || segment = ['.'] then none
  else if segment = ['.', '.'] then some .parent
  else some (.name segment)

def isAbsolute (path : Path) : Bool := Text.startsWith ['/'] path

/-- The components of a path.  Only a dot at the start of a relative path is one. -/
def components (path : Path) : List Component :=
  let parts := segments path
  let start :=
    if isAbsolute path then [.root]
    else if parts.head? = some ['.'] then [.current]
    else []
  start ++ parts.filterMap component?

def same (left right : Path) : Bool := components left == components right

/-- The path of an entry of a directory. -/
def join (directory : Path) (entry : Path) : Path :=
  if isAbsolute entry || directory = [] then entry
  else if Text.endsWith ['/'] directory then directory ++ entry
  else directory ++ '/' :: entry

/-- The last component, if it is a name. -/
def fileName? (path : Path) : Option Text :=
  match (components path).getLast? with
  | some (.name text) => some text
  | _ => none

/-- Drops slashes and inner dots, of which the path is given in reverse. -/
def dropTrailing : Text → Text
  | ['/'] => ['/']
  | '/' :: rest => dropTrailing rest
  | '.' :: '/' :: [] => ['/']
  | '.' :: '/' :: rest => dropTrailing rest
  | reversed => reversed

/-- The path without its last component, if that is not the root. -/
def parent? (path : Path) : Option Path :=
  match dropTrailing path.reverse with
  | [] => none
  | ['/'] => none
  | reversed => some (dropTrailing (reversed.dropWhile (· ≠ '/'))).reverse

end Path

end MigrationSquash
