/-!
# Errors of the file system

The errors that file operations answer with: those of the system have a number besides their text,
and those that are found before the system is asked have none.
-/

namespace DwarfLines

/-- An error of the file system. -/
structure SystemError where
  number : Option Nat
  text : String
  deriving DecidableEq, Repr

namespace SystemError

/-- The text of an error with its number, if it has one. -/
def message (error : SystemError) : String :=
  match error.number with
  | some number => s!"{error.text} (os error {number})"
  | none => error.text

def noSuchFile : SystemError := ⟨some 2, "No such file or directory"⟩

/-- A file is not open to its reader, or a directory not to new files. -/
def permissionDenied : SystemError := ⟨some 13, "Permission denied"⟩

def fileExists : SystemError := ⟨some 17, "File exists"⟩

/-- A path leads on from something that is not a directory. -/
def notDirectory : SystemError := ⟨some 20, "Not a directory"⟩

/-- A directory stands where a file is needed. -/
def isDirectory : SystemError := ⟨some 21, "Is a directory"⟩

/-- A path ends in a name that stands for a directory in use. -/
def busy : SystemError := ⟨some 16, "Device or resource busy"⟩

/-- A path that cannot be a path of the system. -/
def invalidArgument : SystemError := ⟨some 22, "Invalid argument"⟩

def nameTooLong : SystemError := ⟨some 36, "File name too long"⟩

/-- A path holds the character NUL, which ends paths where the system reads them. -/
def nulInName : SystemError := ⟨none, "file name contained an unexpected NUL byte"⟩

end SystemError

end DwarfLines
