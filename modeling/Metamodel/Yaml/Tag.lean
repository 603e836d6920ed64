/-!
# Metamodel.Yaml.Tag

Tags: the names of kinds of nodes.

A tag is a row of bytes, because the escapes in it need not form characters. A document's own tags
begin with `!`; all others are meant to be the same everywhere.
-/

namespace Metamodel
namespace Yaml

structure Tag where
  bytes : List UInt8
deriving DecidableEq

namespace Tag

/-- A zero byte ends a tag, whatever is written behind it. -/
def ofBytes (bytes : List UInt8) : Tag := ⟨bytes.takeWhile (· ≠ 0)⟩

def ofString (s : String) : Tag := ofBytes s.toUTF8.toList

def append (t u : Tag) : Tag := ⟨t.bytes ++ u.bytes⟩

instance : Append Tag := ⟨append⟩

/-- What a document's own tags begin with. -/
def mark : UInt8 := '!'.toUInt8

def bare : Tag := ⟨[mark]⟩

/-- A tag that is the same everywhere. -/
def standard (name : String) : Tag := ofString ("tag:yaml.org,2002:" ++ name)

def isOwn (t : Tag) : Bool := t.bytes.head? = some mark

/-- The name in a document's own tag, if it has characters. The bare tag is its own name. -/
def ownName? (t : Tag) : Option String :=
  if t = bare then some "!"
  else if t.isOwn then String.fromUTF8? ⟨(t.bytes.drop 1).toArray⟩
  else none

end Tag

end Yaml
end Metamodel
