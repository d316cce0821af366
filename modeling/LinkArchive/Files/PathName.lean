import LinkArchive.Text.Cut

/-! Paths of files, with `/` between the parts. Empty parts and parts `.` mean nothing. -/

namespace LinkArchive.PathName

/-- A name that a directory can have for what is in it. -/
structure IsPart (name : String) : Prop where
  nonempty : name ≠ ""
  not_here : name ≠ "."
  not_up : name ≠ ".."
  undivided : '/' ∉ name.toList

instance (name : String) : Decidable (IsPart name) :=
  decidable_of_iff (name ≠ "" ∧ name ≠ "." ∧ name ≠ ".." ∧ '/' ∉ name.toList)
    ⟨fun ⟨nonempty, notHere, notUp, undivided⟩ => ⟨nonempty, notHere, notUp, undivided⟩,
      fun part => ⟨part.nonempty, part.not_here, part.not_up, part.undivided⟩⟩

def components (path : String) : List String :=
  ((Text.parts '/' path.toList).map String.ofList).filter fun part => part != "" && part != "."

def isAbsolute (path : String) : Bool := path.toList.head? == some '/'

/-- The last part of a path, unless that leads upwards. -/
def fileName? (path : String) : Option String :=
  match (components path).getLast? with
  | some name => if name == ".." then none else some name
  | none => none

/-- An absolute name stands for itself. -/
def join (dir name : String) : String :=
  if isAbsolute name || dir.isEmpty then name
  else if dir.toList.getLast? == some '/' then dir ++ name
  else dir ++ "/" ++ name

/-- Nothing if nothing stands before the last dot. -/
def extension? (name : String) : Option String :=
  match Text.splitAtLast? '.' name.toList with
  | some (_ :: _, after) => some (String.ofList after)
  | _ => none

end LinkArchive.PathName
