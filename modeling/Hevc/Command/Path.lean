import Hevc.Fault

/-!
# Paths

A path is a list of names to be followed one after the other, from the root or from the directory
that the command runs in. Empty names between slashes are left out; that a path ends with a slash
is kept, because nothing but a directory can be meant then.
-/

namespace Hevc

/-- A path, taken apart. -/
structure Path where
  /-- It begins at the root. -/
  absolute : Bool
  /-- The names to be followed, none of them empty. -/
  names : List (List Char)
  /-- It ends with a slash. -/
  closed : Bool
deriving DecidableEq, Repr

namespace Path

/-- A path has fewer bytes than this. -/
def sizeLimit : Nat := 4096

/-- A name has at most so many bytes. -/
def longestName : Nat := 255

/-- The number of bytes that a text takes in UTF-8. -/
def byteSize (text : List Char) : Nat := text.foldr (fun c count => c.utf8Size + count) 0

/-- What stands between the slashes of a text. -/
def segments : List Char → List (List Char)
  | [] => [[]]
  | c :: rest =>
    if c = '/' then [] :: segments rest
    else
      match segments rest with
      | [] => [[c]]
      | segment :: more => (c :: segment) :: more

/-- Takes a path apart. The empty text is no path. -/
def parse (text : List Char) : Except FileFault Path :=
  if text = [] then .error .notFound
  else if sizeLimit ≤ byteSize text then .error .nameTooLong
  else
    .ok
      { absolute := text.head? = some '/'
        names := (segments text).filter (· ≠ [])
        closed := text.getLast? = some '/' }

end Path

end Hevc
