import Fritz2ci.Lib.XmlTree
import Fritz2ci.Spec.CallRows
import Fritz2ci.Spec.Lookup

/-! `cirlw_load_sources_from_file`. The document is what `xmlParseFile` makes of the file. -/

namespace Fritz2ci

open CString XmlTree

/-- A `CIRLPattern` before its expression is compiled. -/
structure LoadedPattern where
  fields : List CIRLPatternField
  expression : Option CStr

/-- A `CIRLSource` as it is loaded. -/
structure LoadedSource where
  id : ℕ
  description : Option CStr
  query : Option CStr
  splitLines : Bool
  patterns : List LoadedPattern

/-- The kind that the content of a `field` names, `none` where `field` stays 0. -/
def fieldKind (str : CStr) : Option CallerField :=
  if str = ascii "FIELD_NAME" then some .name
  else if str = ascii "FIELD_POSTALCODE" then some .postalCode
  else if str = ascii "FIELD_CITY" then some .city
  else if str = ascii "FIELD_STREET" then some .street
  else none

def loadField (nodeField : Node) : CIRLPatternField where
  position := ((nodeField.getProp (ascii "pos")).map atoi).getD 0
  field := fieldKind nodeField.content

def loadPattern (node : Node) : LoadedPattern where
  fields := (node.children.foldl (fun fields nodeField =>
    if nodeField.isElement (ascii "field") then loadField nodeField :: fields else fields)
    []).reverse
  expression := node.getProp (ascii "expression")

/-- One turn of the loop over the children of a source. The patterns are prepended. -/
def loadSubSource (source : LoadedSource) (node : Node) : LoadedSource :=
  if node.isElement (ascii "description") then { source with description := some node.content }
  else if node.isElement (ascii "query") then
    { source with
      splitLines := node.getProp (ascii "linehandling") ≠ some (ascii "nosplit")
      query := some node.content }
  else if node.isElement (ascii "pattern") then
    { source with patterns := loadPattern node :: source.patterns }
  else source

def loadSource (nodeSource : Node) : LoadedSource :=
  let id := ((nodeSource.getProp (ascii "id")).map strtoul).getD 0
  let source := nodeSource.children.foldl loadSubSource ⟨id, none, none, false, []⟩
  { source with patterns := source.patterns.reverse }

/-- `cirlw_load_sources_from_file` over the list loaded so far. `doc` is `none` where the file
cannot be parsed, and holds no root where the document is empty. -/
def cirlwLoadSourcesFromFile (sources : List LoadedSource) (doc : Option (Option Node)) :
    ℕ × List LoadedSource :=
  if !sources.isEmpty then (1, sources)
  else match doc with
    | none => (2, sources)
    | some none => (3, sources)
    | some (some root) =>
      if !root.isElement (ascii "cirevlookupsources") then (3, sources)
      else (0, (root.children.foldl (fun sources nodeSource =>
        if nodeSource.isElement (ascii "source") then loadSource nodeSource :: sources
        else sources) []).reverse)

end Fritz2ci
