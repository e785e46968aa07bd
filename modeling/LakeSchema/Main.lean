import LakeSchema.Cli.Run
import Std.Time.DateTime.Timestamp

/-!
# The program

Runs the command line on real files, the standard streams and the clock.
-/

namespace LakeSchema.Cli

/-- The number of an error code, which some operations give with a minus. -/
def errorNumber (code : UInt32) : Nat :=
  if code.toNat < Nat.pow 2 31 then code.toNat else Nat.pow 2 32 - code.toNat

def faultOf : IO.Error → FileFault
  | .noFileOrDirectory .. => .missing
  | .permissionDenied .. => .notPermitted
  | .inappropriateType _ code _ =>
    if errorNumber code == 20 then .notADirectory else .isADirectory
  | error@(.invalidArgument _ code _) =>
    if errorNumber code == 36 then .nameTooLong else .other (toString error)
  | error => .other (toString error)

/-- An action on a file, with the fault in place of the exception. -/
def guarded {α : Type} (action : IO α) : IO (Except FileFault α) := do
  match ← action.toBaseIO with
  | .ok value => pure (.ok value)
  | .error error => pure (.error (faultOf error))

def textOf (bytes : ByteArray) : Except FileFault String :=
  match String.fromUTF8? bytes with
  | some text => .ok text
  | none => .error .notText

partial def drain (stream : IO.FS.Stream) (bytes : ByteArray) : IO ByteArray := do
  let more ← stream.read 65536
  if more.isEmpty then pure bytes else drain stream (bytes ++ more)

def realSurroundings : Surroundings IO where
  textOfFile := fun path => do
    pure ((← guarded (IO.FS.readBinFile path)).bind textOf)
  replaceFile := fun path content => guarded (IO.FS.writeFile path content)
  textOfInput := do
    let stream ← IO.getStdin
    pure ((← guarded (drain stream .empty)).bind textOf)
  getVariable := fun name => IO.getEnv name

def currentTime : IO Timestamp := do
  let now ← Std.Time.Timestamp.now
  let since := now.toDurationSinceUnixEpoch
  match Timestamp.ofEpochSecond? since.second.val since.nano.val.toNat with
  | some t => pure t
  | none => throw (IO.userError "the clock is outside the calendar")

end LakeSchema.Cli

open LakeSchema in
def main (arguments : List String) : IO UInt32 := do
  let now ← Cli.currentTime
  let supply : IdSupply := ⟨← IO.rand 0 (Nat.pow 2 44)⟩
  let report ← Cli.answer Cli.realSurroundings now supply arguments
  IO.print report.output
  IO.eprint report.notes
  pure (UInt32.ofNat report.status)
