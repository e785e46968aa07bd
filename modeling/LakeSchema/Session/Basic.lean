import LakeSchema.Check.Consistency
import LakeSchema.ForeignKey.Origin

/-!
# Sessions

A session holds one project while it is edited. An edit takes effect only if it leaves the project
consistent; under the explicit policy all foreign keys have a recorded origin after it.
-/

namespace LakeSchema

structure Session where
  project : Project
  policy : OriginPolicy
deriving DecidableEq

namespace Session

/-- The project with the origins recorded that the policy asks for. -/
def settled (policy : OriginPolicy) (p : Project) : Project :=
  match policy with
  | .explicit => p.recordOrigins
  | .nameMatch => p

/-- Opens a session over a project, which has to be consistent. -/
def open? (policy : OriginPolicy) (p : Project) : Except SchemaError Session :=
  match p.inconsistencies with
  | error :: _ => .error error
  | [] => .ok ⟨settled policy p, policy⟩

def empty (id name catalog schema : String) (now : Timestamp) : Session :=
  ⟨.empty id name catalog schema now, .explicit⟩

/-- Accepts an edited project if it is consistent. -/
def commit (s : Session) (p : Project) (now : Timestamp) : Except SchemaError Session :=
  match p.inconsistencies with
  | error :: _ => .error error
  | [] => .ok { s with project := { settled s.policy p with updatedAt := now } }

end Session
end LakeSchema
