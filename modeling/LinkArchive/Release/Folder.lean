import LinkArchive.Files.Tree
import LinkArchive.Release.Handler

/-! A collection of releases is a folder of folders with containers, which are walked through in the
order of the names. -/

namespace LinkArchive.Folder

def walkAt (tree : FileTree) (options : WalkOptions) (path : String) : Except ReleaseError Walk :=
  match tree.openFile path with
  | .error fault => .error (.unreadable path fault)
  | .ok source =>
    match source.readToEnd with
    | (_, some _, _) => .error (.corrupted path)
    | (file, none, _) => Walk.ofZip path options file

def walkRelease (tree : FileTree) (options : WalkOptions) (handler : Handler σ) (path : String)
    (state : σ) : Handled σ ReleaseReport :=
  Handled.ofWalk handler (walkAt tree options path) state

def pathsIn (tree : FileTree) (keep : String → Bool) (folder : String) :
    Except ReleaseError (List String) :=
  match tree.names folder with
  | .error fault => .error (.unreadable folder fault)
  | .ok names => .ok ((names.map (PathName.join folder)).filter keep)

def containerExtension : String := "zip"

def isContainer (tree : FileTree) (path : String) : Bool :=
  tree.isFile path &&
    ((PathName.fileName? path).bind PathName.extension?) == some containerExtension

def walkContainers (tree : FileTree) (options : WalkOptions) (handler : Handler σ)
    (folder : String) (state : σ) : Handled σ (List ReleaseReport) :=
  (Handled.ofResult (pathsIn tree (isContainer tree) folder) state).andThen
    (Handled.each (walkRelease tree options handler))

def walkReleases (tree : FileTree) (options : WalkOptions) (handler : Handler σ) (root : String)
    (state : σ) : Handled σ (List ReleaseReport) :=
  (Handled.ofResult (pathsIn tree tree.isDirectory root) state).andThen fun folders state =>
    (Handled.each (walkContainers tree options handler) folders state).andThen
      fun reports state => Handled.ofResult (.ok reports.flatten) state

end LinkArchive.Folder
