/-! A directory in memory, and how a path leads to a file in it. -/
namespace Stackline

inductive FileError where
  | notFound
  | system (code : Nat) (details : String)
  | invalidUtf8
  deriving DecidableEq, Inhabited

namespace FileError

def notDirectory : FileError :=
  system 20 "Not a directory"

def isDirectory : FileError :=
  system 21 "Is a directory"

def nameTooLong : FileError :=
  system 36 "File name too long"

def known : List FileError :=
  [system 13 "Permission denied", notDirectory, isDirectory, nameTooLong]

/-- The error with a system's number; its details are only told if the number is not known. -/
def ofCode (code : Nat) (details : String) : FileError :=
  let named := known.find? fun
    | system n _ => n == code
    | _ => false
  named.getD (system code details)

def text : FileError → String
  | notFound => "No such file or directory (os error 2)"
  | system code details => details ++ " (os error " ++ code.repr ++ ")"
  | invalidUtf8 => "stream did not contain valid UTF-8"

end FileError

/-- Files and empty directories by name; `none` stands for a directory. -/
structure Directory where
  entries : List (String × Option ByteArray)

inductive Place where
  | here
  | above
  | inside
  | file (bytes : ByteArray)

namespace Directory

def enter (d : Directory) : Place → String → Except FileError Place
  | .file _, _ => .error .notDirectory
  | place, "" => .ok place
  | place, "." => .ok place
  | .inside, ".." => .ok .here
  | _, ".." => .ok .above
  | place, name =>
    if 255 < name.utf8ByteSize then .error .nameTooLong
    else
      match place, d.entries.lookup name with
      | .here, some (some bytes) => .ok (.file bytes)
      | .here, some none => .ok .inside
      | _, _ => .error .notFound

def walk (d : Directory) (place : Place) : List String → Except FileError Place
  | [] => .ok place
  | name :: names =>
    match d.enter place name with
    | .error e => .error e
    | .ok place => d.walk place names

def read (d : Directory) (path : String) : Except FileError ByteArray :=
  if path = "" then .error .notFound
  else if 4096 ≤ path.utf8ByteSize then .error .nameTooLong
  else
    match d.walk (if path.startsWith "/" then .above else .here) (path.splitOn "/") with
    | .error e => .error e
    | .ok (.file bytes) => .ok bytes
    | .ok _ => .error .isDirectory

end Directory
end Stackline
