import Kashida.Rule.Chaining
import Kashida.Rule.Positioning
import Kashida.Rule.Substitution

/-! All kinds of rules and of parameter blocks. -/
namespace Kashida

inductive RuleKind where
  | single
  /-- Substitutions with elongation values, in any of the three formats. -/
  | elongation (format : SingleFormat)
  | multiple
  | ligature
  | adjustment
  /-- Attachments have a name of their own. -/
  | cursive (name : String)
  | mark
  | chaining
deriving DecidableEq

inductive Rule where
  | single (rule : SingleRule)
  | elongation (format : SingleFormat) (rule : ElongationRule)
  | multiple (rule : SequenceRule)
  | ligature (rule : SequenceRule)
  | adjustment (rule : AdjustmentRule)
  | cursive (name : String) (rule : CursiveRule)
  | mark (rule : MarkRule)
  | chaining (rule : ChainingRule)

def Rule.ofJson? (kind : RuleKind) (json : Json) : Option Rule :=
  match kind with
  | .single => (SingleRule.ofJson? json).map .single
  | .elongation format => (ElongationRule.ofJson? json).map (.elongation format)
  | .multiple => (SequenceRule.ofJson? json).map .multiple
  | .ligature => (SequenceRule.ofJson? json).map .ligature
  | .adjustment => (AdjustmentRule.ofJson? json).map .adjustment
  | .cursive name => (CursiveRule.ofJson? json).map (.cursive name)
  | .mark => (MarkRule.ofJson? json).map .mark
  | .chaining => (ChainingRule.ofJson? json).map .chaining

/-- Adjustments of a subtable. -/
inductive Parameters where
  | adjustment (parameters : AdjustmentParameters)
  | cursive (parameters : CursiveParameters)
  | mark (parameters : MarkParameters)
deriving DecidableEq

def Parameters.toJson : Parameters → Json
  | .adjustment parameters => parameters.toJson
  | .cursive parameters => parameters.toJson
  | .mark parameters => parameters.toJson

end Kashida
