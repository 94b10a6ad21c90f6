import PeerMesh.Basic
import PeerMesh.Val

namespace PeerMesh

inductive FailureReason
  | operationFailed (message : String)
  | panicked (message : String)
  | methodNotFound (name : String)
  | badArgumentCount (expected found : Nat)
  | notFound (key : String)
  | unknownMapper (name : String)
  deriving DecidableEq

def FailureReason.message : FailureReason → String
  | operationFailed m => "operation failed: " ++ m
  | panicked m => "operation panicked: " ++ m
  | methodNotFound name => "method not found: " ++ name
  | badArgumentCount expected found =>
    "bad argument count: expected " ++ toString expected ++ ", found " ++ toString found
  | notFound key => "key not found: " ++ key
  | unknownMapper name => "unknown mapper: " ++ name

abbrev Outcome :=
  Except FailureReason Val

/-- How many responses a peer forwards for one custom command: all of them, or the first. -/
inductive ResponseShape
  | stream
  | once
  deriving DecidableEq

instance : Inhabited ResponseShape :=
  ⟨.stream⟩

inductive CommandKind
  | rpc
  | custom
  | customResponse
  deriving DecidableEq

def CommandKind.name : CommandKind → String
  | rpc => "rpc"
  | custom => "custom"
  | customResponse => "custom-response"

inductive Command
  /-- Call of the operation `name`. -/
  | rpc (name : String) (args : List Val)
  /-- Run of the receiver's own mapper `mapper` on what its store has under `key`. -/
  | custom (job : JobId) (key mapper : String) (shape : ResponseShape)
  /-- A value that a mapper emitted for `job`. -/
  | customResponse (job : JobId) (value : Fields Val)

namespace Command

instance : Inhabited Command :=
  ⟨.rpc "" []⟩

/-- The field under which a response repeats the identifier of its job. -/
def jobIdField : String :=
  "jobId"

def response (job : JobId) (key : String) (val : Val) : Command :=
  .customResponse job (Fields.ofList [(jobIdField, .string job.id), (key, val)])

def kind : Command → CommandKind
  | rpc .. => .rpc
  | custom .. => .custom
  | customResponse .. => .customResponse

def job? : Command → Option JobId
  | rpc .. => none
  | custom job .. => some job
  | customResponse job _ => some job

def isFinite : Command → Bool
  | rpc _ args => args.all Val.isFinite
  | custom .. => true
  | customResponse _ value => value.all fun f => f.2.isFinite

/-- All values inside are canonical, and so is the value map itself. -/
def Canonical : Command → Prop
  | rpc _ args => ∀ v ∈ args, v.Canonical
  | custom .. => True
  | customResponse _ value => value.Ascending ∧ ∀ f ∈ value, f.2.Canonical

end Command

end PeerMesh
