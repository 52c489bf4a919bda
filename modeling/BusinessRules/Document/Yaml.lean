import BusinessRules.Document.Host
import BusinessRules.Document.Yaml.Node

/-!
# Documents in the notation with indentation

A reader for texts in YAML: a text is cut into tokens, these make up a tree, and the tree denotes a
datum.  It reads mappings, lists and scalars in all of their styles.  Dates stay texts, and anchors,
tags and directives are refused like everything that breaks the rules of the notation.  Escapes and
numbers beyond all bounds are faults of their own.

## Main definitions

* `Yaml.parse`: the datum that a text denotes
* `Yaml.read`: the same, as a reader
* `Host.standard`: the host with this reader
-/

namespace BusinessRules

namespace Yaml

/-- The datum that a text denotes; nothing if there is nothing but comments. -/
def parse (s : String) : Outcome Datum :=
  match Node.ofTokens (Token.ofText s.toList) with
  | .error f => .error f
  | .ok node => node.toDatum

/-- The reader of these texts. -/
def read : Reader := fun s =>
  match parse s with
  | .ok d => .ok d
  | .error .invalidYaml => .error .malformed
  | .error f => .error (.raised f)

end Yaml

/-- The host with this reader, and with the room that a thousand nested calls leave. -/
def Host.standard : Host := ⟨Yaml.read, .levels 985, .levels 985⟩

end BusinessRules
