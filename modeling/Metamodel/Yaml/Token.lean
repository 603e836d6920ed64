import Metamodel.Yaml.Tag

/-!
# Metamodel.Yaml.Token

The tokens of a document.

Indentation shows as tokens of its own: a block collection is opened by a start token, which no
character stands for, and closed by `blockEnd`. The end of the document is the end of the list.
-/

namespace Metamodel
namespace Yaml

inductive Style where
  | plain
  | quoted
  | literal
  | folded
deriving DecidableEq

inductive Token where
  | versionDirective (major minor : Nat)
  | tagDirective (handle : String) (lead : Tag)
  | documentStart
  | documentEnd
  | blockSequenceStart
  | blockMappingStart
  | blockEnd
  | flowSequenceStart
  | flowSequenceEnd
  | flowMappingStart
  | flowMappingEnd
  | blockEntry
  | flowEntry
  | key
  | value
  | alias (name : String)
  | anchor (name : String)
  | tag (handle : String) (suffix : Tag)
  | scalar (text : String) (style : Style)
deriving DecidableEq

end Yaml
end Metamodel
