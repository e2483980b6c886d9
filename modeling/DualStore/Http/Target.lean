import DualStore.Text.CharClass
import DualStore.Text.Percent
import DualStore.Text.Split

/-! What a request asks a server for: the path and the query of a URL, in the form in which they are
sent. -/

namespace DualStore.Http

/-- Characters that are neither controls nor beyond ASCII. -/
def isPlain (c : Char) : Bool := 0x20 ≤ c.toNat && c.toNat < 0x7F

def isPathChar (c : Char) : Bool :=
  isPlain c && !(c = ' ' || c = '\x22' || c = '#' || c = '<' || c = '>' || c = '?' ||
    c = '\x60' || c = '\x7b' || c = '\x7d')

def isQueryChar (c : Char) : Bool :=
  isPlain c && !(c = ' ' || c = '\x22' || c = '#' || c = '<' || c = '>' || c = '\x27')

/-- Segments with points that may be encoded. -/
def isPoint (s : List Char) : Bool := s = ['.'] || s.map Char.toLower = "%2e".toList

def isPointPair (s : List Char) : Bool :=
  (List.range s.length).any fun n => isPoint (s.take n) && isPoint (s.drop n)

/-- Segments of a path without steps to the same or the next higher level: `done` is what has been
read, in reverse. Such a step at the end leaves an empty segment. -/
def resolveSteps (done : List (List Char)) : List (List Char) → List (List Char)
  | [] => done.reverse
  | s :: rest =>
    if isPointPair s then resolveSteps ((if rest.isEmpty then [[]] else []) ++ done.drop 1) rest
    else if isPoint s then resolveSteps ((if rest.isEmpty then [[]] else []) ++ done) rest
    else resolveSteps (s :: done) rest

/-- A path from the root. Backslashes count as slashes. -/
def path (cs : List Char) : List Char :=
  let segments := Text.pieces '/' (cs.map fun c => if c = '\x5c' then '/' else c)
  match resolveSteps [] ((segments.drop 1).map (Text.percentEncode isPathChar)) with
  | [] => ['/']
  | segments => segments.flatMap ('/' :: ·)

/-- What follows the server's name in a URL. -/
def afterServer (url : List Char) : List Char :=
  match url with
  | ':' :: '/' :: '/' :: rest =>
    rest.dropWhile fun c => !(c = '/' || c = '\x5c' || c = '?' || c = '#')
  | _ :: rest => afterServer rest
  | [] => []

/-- The target of a URL. Controls and blanks at its end do not count, nor do tabs and line breaks
anywhere; a fragment is not sent. -/
def target (url : String) : String :=
  let cs := (url.toList.reverse.dropWhile (·.toNat ≤ 0x20)).reverse
  let cs := afterServer (cs.filter fun c => !(c = '\t' || c = '\n' || c = '\r'))
  let cs := cs.takeWhile (· != '#')
  match Text.splitAt? (· = '?') cs with
  | some (before, query) =>
    String.ofList (path before ++ '?' :: Text.percentEncode isQueryChar query)
  | none => String.ofList (path cs)

end DualStore.Http
