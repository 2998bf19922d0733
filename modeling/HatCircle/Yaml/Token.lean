import HatCircle.Yaml.Scalar

/-!
# Tokens of YAML

What a document consists of, before it is known which parts belong together. The
beginning and the end of a collection in block style are tokens although nothing
is written for them: they follow from the indentation.
-/

namespace HatCircle.Yaml

inductive Shape where
  | list
  | mapping
deriving DecidableEq, Repr

inductive Token where
  | version (major minor : Nat)
  | handle (name meaning : String)
  | documentStart
  | documentEnd
  | blockStart (shape : Shape)
  | blockEnd
  | opening (shape : Shape)
  | closing (shape : Shape)
  | dash
  | comma
  | key
  | value
  | anchor (name : String)
  | alias (name : String)
  /-- A tag for the node behind it, as a handle and what is added to its meaning. -/
  | tag (handle suffix : String)
  | scalar (style : Style) (text : String)
deriving DecidableEq, Repr

end HatCircle.Yaml
