import ThreeAddress.CommandLine.Run

namespace ThreeAddress

open ThreeAddress.Files

/-- The reason for a failed access, in the words and with the number of the machine. -/
def accessReason : IO.Error → String
  | .noFileOrDirectory _ code details
  | .inappropriateType (some _) code details
  | .permissionDenied _ code details => details ++ " (os error " ++ toString code ++ ")"
  | error => toString error

def systemHost : Host IO where
  readInput := do
    try return decodeText (← (← IO.getStdin).readBinToEnd)
    catch error => return .error (accessReason error)
  readFile path := do
    try return decodeText (← IO.FS.readBinFile path)
    catch error => return .error (accessReason error)
  writeFile path text := do
    try
      IO.FS.writeFile path text
      return .ok ()
    catch error => return .error (accessReason error)

end ThreeAddress

def main (words : List String) : IO UInt32 := do
  let outcome ← ThreeAddress.CommandLine.run ThreeAddress.systemHost words
  IO.print outcome.output
  IO.eprint outcome.errors
  return outcome.exitCode.toUInt32
