/-
Options in the package document.

The document is a record with one field that may be null or missing; it
holds a record of the four options, and what is missing there has its
default.  A document that cannot be read is refused before its options are
checked.
-/
import AttributeCss.Json.Record
import AttributeCss.Options

namespace AttributeCss.Options

open Json

def fieldNames : List Text := ["prefix", "pseudos", "requireTemplate", "cacheFile"]

def packageField : Text := "xeCss"

def ofJson? (v : Value) : Option Options := do
  let defaults : Options := {}
  match ← v.record? 0 fieldNames with
  | [marker, pseudos, requireTemplate, cacheFile] =>
      return {
        marker := ← Value.field? defaults.marker Value.text? marker
        pseudos := ← Value.field? defaults.pseudos Value.texts? pseudos
        requireTemplate := ← Value.field? defaults.requireTemplate Value.bool? requireTemplate
        cacheFile := ← Value.field? defaults.cacheFile (Value.nullable? Value.text?) cacheFile }
  | _ => none

/-- The options in a package document; it need not hold any. -/
def ofPackage? (v : Value) : Option Options := do
  match ← v.record? 1 [packageField] with
  | [field] =>
      let options ← Value.field? none (Value.nullable? ofJson?) field
      return options.getD {}
  | _ => none

/-- Reads the options of a package document and accepts them or gives their first fault. -/
def ofDocument (t : Text) : Except OptionsError Options :=
  match (Value.read? t).bind ofPackage? with
  | none => .error .invalidDocument
  | some o => o.check.map fun _ => o

end AttributeCss.Options
