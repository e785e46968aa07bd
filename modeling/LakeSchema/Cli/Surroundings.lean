/-!
# Surroundings

What a run can ask of the world around it. A run is written for any monad that offers these
operations, so it can be run on real files and reasoned about on a table of texts.
-/

namespace LakeSchema.Cli

inductive FileFault where
  | missing
  | notPermitted
  | notADirectory
  | isADirectory
  | nameTooLong
  | notText
  | other (text : String)
deriving DecidableEq

namespace FileFault

def message : FileFault → String
  | missing => "No such file or directory (os error 2)"
  | notPermitted => "Permission denied (os error 13)"
  | notADirectory => "Not a directory (os error 20)"
  | isADirectory => "Is a directory (os error 21)"
  | nameTooLong => "File name too long (os error 36)"
  | notText => "stream did not contain valid UTF-8"
  | other text => text

/-- Whether nothing is at the path at all. -/
def isAbsence : FileFault → Bool
  | missing | notADirectory | nameTooLong => true
  | _ => false

end FileFault

structure Surroundings (m : Type → Type) where
  textOfFile : (path : String) → m (Except FileFault String)
  replaceFile : (path content : String) → m (Except FileFault Unit)
  textOfInput : m (Except FileFault String)
  getVariable : (name : String) → m (Option String)

end LakeSchema.Cli
