import GameServer.Library.Locations

namespace GameServer.Common.Paths

-- Core/Common/Path.cpp, the parts of a Unix build.

abbrev Name := List Char

structure Path where
  node : Name
  device : Name
  name : Name
  version : Name
  dirs : List Name
  absolute : Bool
  deriving DecidableEq, Repr

def clear : Path := ⟨[],[],[],[],[],false⟩

def pushDirectory (p : Path) (dir : Name) : Path :=
  if dir ≠ [] ∧ dir ≠ ['.'] then
    if dir = ['.','.'] then
      if p.dirs ≠ [] ∧ p.dirs.getLast? ≠ some ['.','.'] then {p with dirs := p.dirs.dropLast}
      else if ¬p.absolute then {p with dirs := p.dirs ++ [dir]}
      else p
    else {p with dirs := p.dirs ++ [dir]}
  else p

def makeDirectory (p : Path) : Path := {pushDirectory p p.name with name := [], version := []}

def makeParent (p : Path) : Path :=
  if p.name = [] then
    match p.dirs.getLast? with
    | none => if ¬p.absolute then {p with dirs := p.dirs ++ [['.','.']]} else p
    | some back => if back = ['.','.'] then {p with dirs := p.dirs ++ [['.','.']]} else {p with dirs := p.dirs.dropLast}
  else {p with name := [], version := []}

def append (p path : Path) : Path :=
  let p := makeDirectory p
  {p with dirs := p.dirs ++ path.dirs, name := path.name, version := path.version}

def resolve (p path : Path) : Path :=
  if path.absolute then path else {path.dirs.foldl pushDirectory p with name := path.name}

def makeAbsolute (p base : Path) : Path :=
  if ¬p.absolute then
    let tmp := p.dirs.foldl pushDirectory (makeDirectory base)
    {p with node := tmp.node, device := tmp.device, dirs := tmp.dirs, absolute := base.absolute}
  else p

def setFileName (p : Path) (name : Name) : Path := {p with name := name}

-- One component with a separator behind it.
def directory (p : Path) (name : Name) : Path :=
  if p.dirs = [] then
    if name ≠ [] ∧ name.getLast? = some ':' then {p with device := name.dropLast} else pushDirectory p name
  else pushDirectory p name

-- The loop over the components; at the end of the string the name read so far is the file's,
-- and where the loop is not entered again it is the empty one that clear left.
def parseLoop (p : Path) (name : Name) : List Char → Path
  | [] => {p with name := name}
  | c :: rest => if c = '/' then parseLoop (directory p name) [] rest else parseLoop p (name ++ [c]) rest

-- The directories of the home are what Path(home()) has.
def parseUnix (home : List Name) (path : List Char) : Path :=
  match path with
  | [] => clear
  | '/' :: rest => parseLoop {clear with absolute := true} [] rest
  | ['~'] => {clear with dirs := home, absolute := true}
  | '~' :: '/' :: rest => parseLoop {clear with dirs := home, absolute := true} [] ('/' :: rest)
  | path => parseLoop clear [] path

-- What is left of Path(home()): the text of a home starts with a separator.
def homeDirs (home : List Char) : List Name := (parseUnix [] ('/' :: home)).dirs

def buildUnix (p : Path) : List Char :=
  let result := if p.device ≠ [] then '/' :: p.device ++ [':','/'] else if p.absolute then ['/'] else []
  p.dirs.foldl (fun result dir => result ++ dir ++ ['/']) result ++ p.name

end GameServer.Common.Paths
