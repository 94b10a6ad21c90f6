import PeerMesh.Command
import PeerMesh.Wire.Val

namespace PeerMesh

open Json (only?)

namespace ResponseShape

def name : ResponseShape → String
  | stream => "stream"
  | once => "once"

def ofName? (s : String) : Option ResponseShape :=
  if s = "stream" then some stream
  else if s = "once" then some once
  else none

/-- A shape is its name, or an object with a member of that name and nothing in it. -/
def ofJson? (inCommand : Bool) : Json → Option ResponseShape
  | .string s => ofName? s
  | .object [(s, .null)] => ofName? s
  | .object [(s, .object [])] => if inCommand then ofName? s else none
  | _ => none

def bytes (s : ResponseShape) : Bytes :=
  (Json.string s.name).bytes

def ofBytes? (bs : Bytes) : Option ResponseShape :=
  (Json.ofBytes? bs).bind (ofJson? false)

end ResponseShape

def CommandKind.ofName? (s : String) : Option CommandKind :=
  if s = "rpc" then some rpc
  else if s = "custom" then some custom
  else if s = "custom-response" then some customResponse
  else none

namespace Command

def fields : Command → List (String × Json)
  | rpc name args => [("name", .string name), ("args", .array (Val.jsonItems args))]
  | custom job key mapper shape =>
    [("job", .string job.id), ("key", .string key), ("mapper", .string mapper),
      ("shape", .string shape.name)]
  | customResponse job value =>
    [("job", .string job.id), ("value", .object (Val.jsonFields value))]

def json (c : Command) : Json :=
  .object (("kind", .string c.kind.name) :: c.fields)

def rpcOf? (name args : Json) : Option Command := do
  return rpc (← name.string?) (← Val.itemsOfJson? true (← args.array?))

def customOf? (job key mapper : Json) (shape : Option Json) : Option Command := do
  let shape ←
    match shape with
    | none => some .stream
    | some j => ResponseShape.ofJson? true j
  return custom ⟨← job.string?⟩ (← key.string?) (← mapper.string?) shape

def responseOf? (job value : Json) : Option Command := do
  return customResponse ⟨← job.string?⟩
    (Fields.ofList (← Val.membersOfJson? true (← value.object?)))

/-- The fields of a kind stand once each, in any order and among any others; the shape may be
missing. -/
def ofMembers? (kind : CommandKind) (members : List (String × Json)) : Option Command :=
  match kind with
  | .rpc => do rpcOf? (← only? "name" members) (← only? "args" members)
  | .custom => do
    let shape ←
      if members.any fun m => m.1 == "shape" then (only? "shape" members).map some
      else some none
    customOf? (← only? "job" members) (← only? "key" members) (← only? "mapper" members) shape
  | .customResponse => do responseOf? (← only? "job" members) (← only? "value" members)

def ofItems? (kind : CommandKind) (items : List Json) : Option Command :=
  match kind, items with
  | .rpc, [name, args] => rpcOf? name args
  | .custom, [job, key, mapper] => customOf? job key mapper none
  | .custom, [job, key, mapper, shape] => customOf? job key mapper (some shape)
  | .customResponse, [job, value] => responseOf? job value
  | _, _ => none

def ofJson? : Json → Option Command
  | .object members => do
    ofMembers? (← CommandKind.ofName? (← (← only? "kind" members).string?)) members
  | .array (kind :: items) => do ofItems? (← CommandKind.ofName? (← kind.string?)) items
  | _ => none

def bytes (c : Command) : Bytes :=
  c.json.bytes

def ofBytes? (bs : Bytes) : Option Command :=
  (Json.ofBytes? bs).bind ofJson?

end Command

end PeerMesh
