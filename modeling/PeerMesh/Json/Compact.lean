import PeerMesh.Json.Written

namespace PeerMesh

namespace Json

def Scalar.bytes : Scalar → Bytes
  | null => utf8 "null"
  | bool true => utf8 "true"
  | bool false => utf8 "false"
  | number n => n.chars.map ascii
  | string body => ascii '"' :: (body ++ [ascii '"'])

def Token.bytes : Token → Bytes
  | openArray => [ascii '[']
  | closeArray => [ascii ']']
  | openObject => [ascii '{']
  | closeObject => [ascii '}']
  | colon => [ascii ':']
  | comma => [ascii ',']
  | scalar s => s.bytes

namespace Written

mutual

def tokens : Written → List Token
  | scalar s => [.scalar s]
  | array [] => [.openArray, .closeArray]
  | array (w :: ws) => .openArray :: (w.tokens ++ (furtherItems ws ++ [.closeArray]))
  | object [] => [.openObject, .closeObject]
  | object ((name, w) :: ms) =>
    .openObject :: .scalar (.string name) :: .colon ::
      (w.tokens ++ (furtherMembers ms ++ [.closeObject]))

def furtherItems : List Written → List Token
  | [] => []
  | w :: ws => .comma :: (w.tokens ++ furtherItems ws)

def furtherMembers : List (Bytes × Written) → List Token
  | [] => []
  | (name, w) :: ms =>
    .comma :: .scalar (.string name) :: .colon :: (w.tokens ++ furtherMembers ms)

end

def bytes (w : Written) : Bytes :=
  w.tokens.flatMap Token.bytes

end Written

def body (s : String) : Bytes :=
  escape (utf8 s)

mutual

def written : Json → Written
  | null => .scalar .null
  | bool b => .scalar (.bool b)
  | number n => .scalar (.number n.numeral)
  | string s => .scalar (.string (body s))
  | array items => .array (writtenItems items)
  | object members => .object (writtenMembers members)

def writtenItems : List Json → List Written
  | [] => []
  | j :: js => j.written :: writtenItems js

def writtenMembers : List (String × Json) → List (Bytes × Written)
  | [] => []
  | (name, j) :: ms => (body name, j.written) :: writtenMembers ms

end

def bytes (j : Json) : Bytes :=
  j.written.bytes

def ofBytes? (bs : Bytes) : Option Json :=
  (Written.ofBytes? bs).bind (·.read Written.depthLimit)

end Json

end PeerMesh
