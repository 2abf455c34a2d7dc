import Schematic.Facts.Record
import Schematic.File.Writer

/-! # Manifests

A manifest records what a run left in its output directory, so that the next run can tell which
files are no longer produced. -/

namespace Schematic

structure Manifest where
  design : String := ""
  language : String := ""
  facts : FactRecord := {}
  compileOrder : List String := []
  deriving DecidableEq, Repr

structure ManifestForm where
  version : Int := 0
  design : String := ""
  language : String := ""
  facts : FactForm := {}
  compileOrder : Json.Slots String := {}

namespace ManifestForm

open Json.Decoder in
def decode : Json.Decoder ManifestForm := record fun name form value =>
  if selects "version" name then
    (integer form.version value).map fun version => { form with version }
  else if selects "design" name then
    (text form.design value).map fun design => { form with design }
  else if selects "language" name then
    (text form.language value).map fun language => { form with language }
  else if selects "tables" name then
    (FactForm.decode form.facts value).map fun facts => { form with facts }
  else if selects "compile_order" name then
    (slots "" text form.compileOrder value).map fun compileOrder => { form with compileOrder }
  else some form

def manifest (form : ManifestForm) : Manifest :=
  ⟨form.design, form.language, form.facts.record, form.compileOrder.items⟩

end ManifestForm

namespace Manifest

def fileName : String := ".hdlgen_manifest.json"

def version : Int := 1

def toJson (manifest : Manifest) : Json :=
  .object [("version", .ofInt version), ("design", .string manifest.design),
    ("language", .string manifest.language), ("tables", manifest.facts.toJson),
    ("compile_order",
      if manifest.compileOrder.isEmpty then .null else .ofTexts manifest.compileOrder)]

def load (tree : FileTree) (directory : String) : Except Failure (Option Manifest) :=
  match tree.read (Path.join [directory, fileName]) with
  | .error e =>
    if e.isMissing then .ok none else .error (.error ("read manifest: " ++ e.message))
  | .ok content =>
    match (Json.read? content).bind (ManifestForm.decode {}) with
    | none => .error .undecodable
    | some form => .ok (if form.version = version then some form.manifest else none)

def save (manifest : Manifest) (tree : FileTree) (directory : String) :
    FileTree × Option Failure :=
  let (tree, failure) :=
    tree.replace (Path.join [directory, fileName]) (manifest.toJson.indented ++ "\n")
  (tree, failure.map (.within "write manifest"))

end Manifest

end Schematic
