import LSystem.CommandLine.Run
import LSystem.Picture.Png

/-!
# The program

Runs the commands on the files of the machine.
-/

namespace LSystem.CommandLine

def FileError.ofIOError (e : IO.Error) : FileError :=
  match e with
  | .noFileOrDirectory _ _ _ => .missing
  | .alreadyExists _ code _ => if code = 20 then .notDirectory else .alreadyThere
  | .inappropriateType _ code _ => if code = 21 then .isDirectory else .notDirectory
  | e => .other (toString e)

def onMachine {β : Type} (action : IO β) : IO (Except FileError β) := do
  try return .ok (← action)
  catch e => return .error (.ofIOError e)

instance : Host IO where
  readText path := do
    match ← onMachine (IO.FS.readBinFile path) with
    | .error e => return .error e
    | .ok bytes =>
      match String.fromUTF8? bytes with
      | some text => return .ok text
      | none => return .error .notText
  makeDirectories path := onMachine (IO.FS.createDirAll path)
  savePicture path canvas :=
    onMachine (IO.FS.writeBinFile path ⟨(Png.encode canvas.bitmap).toArray⟩)
  pause milliseconds := IO.sleep (UInt32.ofNat milliseconds)

end LSystem.CommandLine

open LSystem.CommandLine in
def main (arguments : List String) : IO UInt32 := do
  let report ← run arguments
  IO.print report.out
  IO.eprint report.err
  return UInt32.ofNat report.status
