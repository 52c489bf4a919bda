import BusinessRules.Datum.Basic

/-!
# Hosts of documents

Two things about the reading of documents are not settled here.  Texts with indentation are handed
to a reader that comes from elsewhere: it returns whatever datum it likes, or refuses a text as
malformed, or gives up for a reason of its own.  And how deep nested data may be, before reading or
showing them is given up, depends on where the program runs.

## Main definitions

* `Yaml.Reader`, `Yaml.Failure`: readers of texts with indentation, and why they fail
* `Yaml.Reader.RaisesIn`: what is known of the reasons of their own for which they give up
* `Host`: a reader of texts with indentation, and the room for nested data
-/

namespace BusinessRules

namespace Yaml

/-- Why a text with indentation is not read. -/
inductive Failure where
  /-- The text breaks the rules of the notation. -/
  | malformed
  /-- The reader gave up for a reason of its own. -/
  | raised (f : Fault)

/-- A reader of texts with indentation. -/
abbrev Reader := String → Except Failure Datum

/-- A reader gives up for reasons of some classes only. -/
def Reader.RaisesIn (read : Reader) (raises : FaultKind → Prop) : Prop :=
  ∀ s f, read s = .error (.raised f) → raises f.kind

end Yaml

/-- What the reading of documents depends on. -/
structure Host where
  /-- The reader of texts with indentation. -/
  yaml : Yaml.Reader
  /-- How deep lists and mappings in the notation of data interchange are read. -/
  reading : Room
  /-- How deep data are shown in messages. -/
  showing : Room

end BusinessRules
