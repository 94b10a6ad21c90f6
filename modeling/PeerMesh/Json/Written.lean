import PeerMesh.Json.Token

namespace PeerMesh.Json

inductive Written
  | scalar (s : Scalar)
  | array (items : List Written)
  | object (members : List (Bytes × Written))

namespace Written

/-- A container that is not closed yet, with what is complete of it, last part first. -/
inductive Frame
  | items (done : List Written)
  | members (done : List (Bytes × Written)) (name : Bytes)

mutual

/-- Goes on where a value has to start, inside the containers of `stack`, innermost first. -/
def start (stack : List Frame) : List Token → Option Written
  | .scalar s :: ts => finish stack (.scalar s) ts
  | .openArray :: .closeArray :: ts => finish stack (.array []) ts
  | .openArray :: ts => start (.items [] :: stack) ts
  | .openObject :: .closeObject :: ts => finish stack (.object []) ts
  | .openObject :: .scalar (.string name) :: .colon :: ts =>
    start (.members [] name :: stack) ts
  | _ => none

def finish (stack : List Frame) (w : Written) : List Token → Option Written
  | [] =>
    match stack with
    | [] => some w
    | _ :: _ => none
  | t :: ts =>
    match stack, t, ts with
    | .items done :: stack, .comma, ts => start (.items (w :: done) :: stack) ts
    | .items done :: stack, .closeArray, ts => finish stack (.array (w :: done).reverse) ts
    | .members done name :: stack, .comma, .scalar (.string name') :: .colon :: ts =>
      start (.members ((name, w) :: done) name' :: stack) ts
    | .members done name :: stack, .closeObject, ts =>
      finish stack (.object ((name, w) :: done).reverse) ts
    | _, _, _ => none

end

def ofBytes? (bs : Bytes) : Option Written :=
  (tokens? bs).bind (start [])

end Written

def Scalar.read : Scalar → Option Json
  | null => some .null
  | bool b => some (.bool b)
  | number n => (Number.ofNumeral? n).map .number
  | string body => (stringOfBody? body).map .string

namespace Written

mutual

/-- What the value stands for, if it nests at most `room` containers. -/
def read (room : Nat) : Written → Option Json
  | scalar s => s.read
  | array items =>
    match room with
    | 0 => none
    | room + 1 => (readItems room items).map .array
  | object members =>
    match room with
    | 0 => none
    | room + 1 => (readMembers room members).map .object

def readItems (room : Nat) : List Written → Option (List Json)
  | [] => some []
  | w :: ws =>
    match w.read room, readItems room ws with
    | some j, some js => some (j :: js)
    | _, _ => none

def readMembers (room : Nat) : List (Bytes × Written) → Option (List (String × Json))
  | [] => some []
  | (name, w) :: ms =>
    match stringOfBody? name, w.read room, readMembers room ms with
    | some s, some j, some js => some ((s, j) :: js)
    | _, _, _ => none

end

def named? : List (Bytes × Written) → Option (List (String × Written))
  | [] => some []
  | (name, w) :: ms =>
    match stringOfBody? name, named? ms with
    | some s, some rest => some ((s, w) :: rest)
    | _, _ => none

/-- How many containers may be nested in a text. -/
def depthLimit : Nat :=
  127

end Written

end PeerMesh.Json
