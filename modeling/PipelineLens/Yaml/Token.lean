import PipelineLens.Yaml.Directive
/-!
# Tokens

The tokens of a YAML text say where collections start and end, so that what follows does not depend
on columns any more.
-/
namespace PipelineLens.Yaml

inductive Token where
  | documentStart
  | documentEnd
  | directive (directive : Directive)
  | blockSequenceStart
  | blockMappingStart
  /-- the end of a block collection -/
  | blockEnd
  | flowSequenceStart
  | flowSequenceEnd
  | flowMappingStart
  | flowMappingEnd
  /-- an item of a block sequence follows -/
  | entry
  /-- a further item of a flow collection follows -/
  | comma
  | key
  | value
  | aliasOf (name : String)
  | anchor (name : String)
  | tag (name : TagName)
  | scalar (plain : Bool) (text : String)
deriving DecidableEq, Repr

end PipelineLens.Yaml
