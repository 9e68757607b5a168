import SceneDiagram.Data

/-!
# Configuration

How diagrams are named and linked, and which naming conventions tie types to
nodes. Every setting has a value when it is left out; unknown settings do not
count.
-/

namespace SceneDiagram

structure DiagramConfig where
  /-- Takes the place of a file's extension to name its document. -/
  outputSuffix : String := ".g.puml"
  ideProtocol : String := "vscode"
  /-- Are links absolute where a root does not say? -/
  useAbsoluteIdeLinks : Bool := false
  /-- Are all documents written side by side, named by their roots? -/
  flattenOutput : Bool := false
  /-- Do only roots with a marker get a document? -/
  requireOptIn : Bool := false
  deriving DecidableEq, Repr

structure AnalysisConfig where
  /-- Properties with this attribute hold no child. -/
  skipAttribute : String := "Dependency"
  /-- An interface is named by its class with this in front. -/
  interfacePrefix : String := "I"
  sceneExtension : String := "tscn"
  deriving DecidableEq, Repr

structure Config where
  diagram : DiagramConfig := {}
  analysis : AnalysisConfig := {}
  deriving DecidableEq, Repr

def DiagramConfig.ofData? (d : Data) : Option DiagramConfig := do
  let es ← d.record? ["output_suffix", "ide_protocol", "use_absolute_ide_links",
    "flatten_output", "require_opt_in"]
  let preset : DiagramConfig := {}
  return {
    outputSuffix := ← Entries.orElse? es "output_suffix" preset.outputSuffix Data.text?
    ideProtocol := ← Entries.orElse? es "ide_protocol" preset.ideProtocol Data.text?
    useAbsoluteIdeLinks :=
      ← Entries.orElse? es "use_absolute_ide_links" preset.useAbsoluteIdeLinks Data.flag?
    flattenOutput := ← Entries.orElse? es "flatten_output" preset.flattenOutput Data.flag?
    requireOptIn := ← Entries.orElse? es "require_opt_in" preset.requireOptIn Data.flag? }

def AnalysisConfig.ofData? (d : Data) : Option AnalysisConfig := do
  let es ← d.record? ["skip_attribute", "interface_prefix", "scene_extension"]
  let preset : AnalysisConfig := {}
  return {
    skipAttribute := ← Entries.orElse? es "skip_attribute" preset.skipAttribute Data.text?
    interfacePrefix := ← Entries.orElse? es "interface_prefix" preset.interfacePrefix Data.text?
    sceneExtension := ← Entries.orElse? es "scene_extension" preset.sceneExtension Data.text? }

def Config.ofData? (d : Data) : Option Config := do
  let es ← d.record? ["diagram", "analysis"]
  return {
    diagram := ← Entries.orElse? es "diagram" {} DiagramConfig.ofData?
    analysis := ← Entries.orElse? es "analysis" {} AnalysisConfig.ofData? }

end SceneDiagram
