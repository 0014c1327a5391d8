namespace ThreeAddress.Files

/-- Why a file could not be read or written, as far as a path decides it. -/
inductive Fault where
  | missing
  | notDirectory
  | isDirectory
  | nameTooLong
  | nulInName
  | notText
deriving DecidableEq, Repr

def Fault.reason : Fault → String
  | .missing => "No such file or directory (os error 2)"
  | .notDirectory => "Not a directory (os error 20)"
  | .isDirectory => "Is a directory (os error 21)"
  | .nameTooLong => "File name too long (os error 36)"
  | .nulInName => "file name contained an unexpected NUL byte"
  | .notText => "stream did not contain valid UTF-8"

/-- Reading and writing whole texts. A failure comes with its reason in words. -/
structure Host (m : Type → Type) where
  readInput : m (Except String String)
  readFile (path : String) : m (Except String String)
  writeFile (path text : String) : m (Except String Unit)

def decodeText (bytes : ByteArray) : Except String String :=
  match String.fromUTF8? bytes with
  | some text => .ok text
  | none => .error Fault.notText.reason

end ThreeAddress.Files
