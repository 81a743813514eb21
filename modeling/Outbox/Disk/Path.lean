import Outbox.Disk.Tree
import Outbox.Text.Pieces

/-!
# Paths as text

A path names a place by the way that leads there, in steps between slashes. A name goes into a folder
or to a file, two dots go back to the folder around, and a dot or nothing at all stays in the folder.
So slashes that follow each other count as one, and a path with a slash at its end leads to a folder
or nowhere.

* `pathSteps` are the steps of a path, and `Disk.follow?` goes along them;
* `Disk.makePath?` creates the folders that are missing on the way;
* `joinPath` and `parentPath` put a name at the end of a path and take one off.
-/

namespace Outbox

/-- The bound of the length of a path, in bytes. -/
def pathBound : Nat := 4096

/-- Whether a text can be a path: it is not too long, and has no zero character. -/
def isPath (path : String) : Bool :=
  path.utf8ByteSize < pathBound && !path.toList.contains '\x00'

/-- The steps of a path. -/
def pathSteps (path : String) : List String :=
  (pieces '/' path.toList).map String.ofList

/-- Whether a step stays in the folder. -/
def isStay (step : String) : Bool :=
  step == "" || step == "."

/-- The steps of a path that do not stay in place. -/
def pathMoves (path : String) : List String :=
  (pathSteps path).filter (!isStay ·)

/-- Whether a path ends with a dot, apart from slashes. -/
def endsInDot (path : String) : Bool :=
  ((pathSteps path).filter (· ≠ "")).getLast? == some "."

/-- A path followed by a name. -/
def joinPath (path name : String) : String :=
  if path.toList.getLast?.all (· = '/') then path ++ name else path ++ "/" ++ name

/-- A reversed path without the slashes at its end and the steps that stay in place. -/
def trimSteps : List Char → List Char
  | '/' :: rest => trimSteps rest
  | ['.'] => ['.']
  | '.' :: '/' :: rest => trimSteps rest
  | cs => cs

/-- A path without its last name. -/
def parentPath (path : String) : String :=
  String.ofList
    (trimSteps ((trimSteps path.toList.reverse).dropWhile (· ≠ '/'))).reverse

namespace Disk

/-- Where a step leads. Only a folder can be left or stayed in. -/
def step? (d : Disk) (here : Place) (step : String) : Option Place :=
  if isStay step then if d.lookup? here = some .folder then some here else none
  else if step = ".." then if d.lookup? here = some .folder then some here.dropLast else none
  else if d.has (here ++ [step]) then some (here ++ [step]) else none

/-- The place that a path leads to. -/
def follow? (d : Disk) (path : String) : Option Place :=
  if isPath path then (pathSteps path).foldlM d.step? [] else none

/-- A move on a way whose folders are created. -/
def Way.move? (w : Way) (step : String) : Option Way :=
  if step = ".." then some { w with here := w.here.dropLast, isNew := false } else w.enter? step

/-- Goes along a path, creating the folders that are missing, and gives the folder it leads to. A
folder that a dot stays in at the end of the path must be there already. -/
def makePath? (d : Disk) (path : String) : Option (Disk × Place) :=
  if endsInDot path then (d.follow? path).map fun place => (d, place)
  else if isPath path then
    if (pathMoves path).contains ".." then
      ((pathMoves path).foldlM Way.move? ⟨d, [], false⟩).map fun w => (w.disk, w.here)
    else (d.makeFolders? (pathMoves path)).map fun d' => (d', pathMoves path)
  else none

/-- Removes the file that a path leads to, if it leads to one. -/
def removeFile (d : Disk) (path : String) : Disk :=
  ((d.follow? path).bind d.unlink?).getD d

end Disk

end Outbox
