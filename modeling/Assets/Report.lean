import Assets.Disk.Path
import Assets.Failure

/-!
# Reports

What a command says when it gives up: what it was attempting, and what stood in the way.  Read
from the outside in, a report is a chain of messages of which each is caused by the next.
-/

namespace Assets

/-- The messages of a failure, each caused by the next. -/
def Failure.chain : Failure → List String
  | plugin p step file source => (plugin p step file source).message :: chain source
  | separator name => [(separator name).message]
  | emptyName => [emptyName.message]
  | emptyContent name => [(emptyContent name).message]
  | duplicateName name => [(duplicateName name).message]
  | config fault => [(config fault).message]
  | json fault => [(json fault).message]
  | disk fault => [(disk fault).message]
  | other message => [message]

/-- What a command does to a path. -/
inductive Attempt where
  | readConfig (path : Path)
  | acceptConfig (path : Path)
  | walk (root : Path)
  | readFile (path : Path)
  | createDirectory (path : Path)
  | writeFile (path : Path)
  | readBlob (path : Path)
  | writeBlob (path : Path)
  | compile (input : Path)
  deriving DecidableEq, Repr

def Attempt.message : Attempt → String
  | readConfig path => "Failed to read config file: " ++ path.toShown
  | acceptConfig path => "Invalid config file format: " ++ path.toShown
  | walk root => "Failed to walk " ++ root.toShown
  | readFile path => "Failed to read " ++ path.toShown
  | createDirectory path => "Failed to create " ++ path.toShown
  | writeFile path => "Failed to write " ++ path.toShown
  | readBlob path => "Failed to read blob: " ++ path.toShown
  | writeBlob path => "Failed to write blob: " ++ path.toShown
  | compile input => "Failed to compile " ++ input.toShown

/-- What stands in the way of an attempt. -/
inductive Obstacle where
  | failure (failure : Failure)
  | disk (fault : Disk.Fault)
  /-- The start of a walk cannot be visited. -/
  | visit (path : Path) (fault : Disk.Fault)
  /-- The name of a file leads out of the directory that it is to be written into. -/
  | outside (name : String) (root : Path)
  deriving DecidableEq, Repr

/-- The messages of an obstacle, each caused by the next. -/
def Obstacle.chain : Obstacle → List String
  | failure e => e.chain
  | disk fault => [fault.message]
  | visit path fault =>
    ["IO error for operation on " ++ path.toShown ++ ": " ++ fault.message, fault.message]
  | outside name root => ["Refusing to write `" ++ name ++ "` outside of " ++ root.toShown]

structure Report where
  attempt : Option Attempt := none
  obstacle : Obstacle
  deriving DecidableEq, Repr

namespace Report

/-- The messages of a report, each caused by the next. -/
def chain (report : Report) : List String :=
  (report.attempt.map Attempt.message).toList ++ report.obstacle.chain

/-- The lines of a text; the first one is there even if the text is empty. -/
def lines (text : String) : List String := text.splitOn "\n"

/-- A cause with its first line under `mark` and the others indented to match. -/
def indented (mark : String) (cause : String) : List String :=
  match lines cause with
  | [] => []
  | first :: rest =>
    (mark ++ first) :: rest.map (String.ofList (mark.toList.map fun _ => ' ') ++ ·)

/-- A number of a list, aligned to the right. -/
def numbered (n : Nat) : String :=
  let digits := toString n
  String.ofList (List.replicate (5 - digits.length) ' ') ++ digits ++ ": "

/-- The causes of a report.  They are numbered if there are several. -/
def causes : List String → List String
  | [] => []
  | [cause] => ["", "Caused by:"] ++ indented "    " cause
  | causes => ["", "Caused by:"] ++ causes.zipIdx.flatMap fun (cause, n) =>
      indented (numbered n) cause

def render (report : Report) : List String :=
  match report.chain with
  | [] => []
  | message :: rest => lines ("Error: " ++ message) ++ causes rest

end Report

end Assets
