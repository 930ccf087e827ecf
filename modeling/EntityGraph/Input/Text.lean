import EntityGraph.Configuration
import EntityGraph.Failure
import EntityGraph.Log
import EntityGraph.Markup.Meaning

/-!
# Reading definitions and settings together

The structural boundary: a raw value, which a text may stand for, is either a list of entities or a
mapping with the entities and the settings.  Whatever is wrong with either is reported in one batch,
the violations of the entities first.

* `Input.check`: the definitions and the settings in a value, or every violation;
* `Input.parse`: the same, logged, as a failure of the compiler;
* `Input.parseText`: the definitions and the settings in a text.
-/

namespace EntityGraph.Input

/-- The settings of a mapping; an entry that is absent, null or empty leaves every default. -/
def settings (es : List (Value × Value)) : Value :=
  match Value.get? "config" es with
  | some v => if v.isFalsy then .map [] else v
  | none => .map []

/-- The parts of a raw value that hold the entities and the settings. -/
def split : Value → Checked (Value × Value)
  | .list xs => .ok (.list xs, .map [])
  | .map es =>
    match Value.get? "models" es with
    | some models => .ok (models, settings es)
    | none => .error [⟨[.name "models"], .missing⟩]
  | v => Checked.fail (.notDefinitions v.typeName)

/-- The definitions and the settings in the two parts of a raw value. -/
def checkParts (models config : Value) : Checked (Definitions × Configuration) :=
  Checked.both (Definitions.read (Value.record [("models", models)]))
    (Checked.under (.name "config") (Configuration.record.read config))

def check (raw : Value) : Checked (Definitions × Configuration) := do
  let (models, config) ← split raw
  checkParts models config

/-- The entry that tells how the check of the parts went. -/
def checkEntry (outcome : Checked (Definitions × Configuration)) : Log.Entry :=
  match outcome with
  | .ok (definitions, _) =>
    ⟨.debug, .models, "Parsed " ++ toString definitions.models.length ++ " model definition(s)."⟩
  | .error vs =>
    ⟨.error, .models, "Structural validation failed with " ++ toString vs.length ++ " error(s)."⟩

/-- The definitions and the settings in a raw value.  A value that is neither a list nor a mapping
with entities is refused without an entry. -/
def parse (raw : Value) : Logged (Except Failure (Definitions × Configuration)) :=
  let entries := match split raw with
    | .ok (models, config) => [checkEntry (checkParts models config)]
    | .error _ => []
  ⟨entries, (check raw).mapError .invalidDefinitions⟩

/-- The definitions and the settings in a text.  A text that cannot be read is a violation of the
whole and is reported as such. -/
def parseText [Limits] (text : String) :
    Logged (Except Failure (Definitions × Configuration)) :=
  match Markup.parse text with
  | .error failure => return .error failure
  | .ok raw => parse raw

end EntityGraph.Input
