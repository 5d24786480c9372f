import Kashida.Contextual.Chained
import Kashida.Positioning.Adjustment
import Kashida.Positioning.Cursive
import Kashida.Positioning.Mark
import Kashida.Rule.Basic
import Kashida.Substitution.Ligature
import Kashida.Substitution.Multiple
import Kashida.Substitution.Single

/-! Subtables of all kinds. -/
namespace Kashida

inductive Subtable where
  | single (table : SingleSubstitution)
  | multiple (table : MultipleSubstitution)
  | ligature (table : LigatureSubstitution)
  | adjustment (table : SingleAdjustment)
  | cursive (table : CursiveAttachment)
  | mark (table : MarkAttachment)
  | chaining (context : ChainedContext)

namespace Subtable

/-- The subtable of a rule. -/
def ofRule (font : Font) : Rule → Except CompileError Subtable
  | .single rule => do return .single (← SingleSubstitution.ofRule font rule)
  | .elongation format rule => do return .single (← SingleSubstitution.ofElongations font format rule)
  | .multiple rule => do return .multiple (← MultipleSubstitution.ofRule font rule)
  | .ligature rule => do return .ligature (← LigatureSubstitution.ofRule font rule)
  | .adjustment rule => do return .adjustment (← SingleAdjustment.ofRule font rule)
  | .cursive name rule => do return .cursive (← CursiveAttachment.ofRule font name rule)
  | .mark rule => .mark <$> MarkAttachment.ofRule font rule
  | .chaining rule => .chaining <$> ChainedContext.ofRule font rule

/-- Encodes a subtable of the lookup `owner` in a table with these lookup names. -/
def encode (font : Font) (names : LookupNames) (owner : String) : Subtable → VariationM (List UInt8)
  | .single table => table.encode font
  | .multiple table => table.encode
  | .ligature table => table.encode
  | .adjustment table => table.encode
  | .cursive table => table.encode font
  | .mark table => table.encode font
  | .chaining context => context.encode names owner

/-- A parameter block for this kind of subtable. Substitutions and contexts have no parameters. -/
def parametersOfJson? (json : Json) : Subtable → Option Parameters
  | .adjustment _ => (AdjustmentParameters.ofJson? json).map .adjustment
  | .cursive _ => (CursiveParameters.ofJson? json).map .cursive
  | .mark _ => (MarkParameters.ofJson? json).map .mark
  | _ => none

/-- Takes over parameters. What was taken over before a failure stays; a block for another kind changes nothing. -/
def merge (font : Font) (parameters : Parameters) (subtable : Subtable) : Except ResolveError Unit × Subtable :=
  match subtable, parameters with
  | .adjustment table, .adjustment parameters =>
      let (outcome, table) := table.merge font parameters.records
      (outcome, .adjustment table)
  | .cursive table, .cursive parameters =>
      let (outcome, table) := table.merge font parameters
      (outcome, .cursive table)
  | .mark table, .mark parameters => (.ok (), .mark (table.merge parameters))
  | subtable, _ => (.ok (), subtable)

/-- The parameters that change something, if this kind has any. -/
def save? (font : Font) : Subtable → Option (Except ResolveError Parameters)
  | .adjustment table => some (.adjustment <$> table.save font)
  | .cursive table => some (.cursive <$> table.save font)
  | .mark table => some (.ok (.mark table.save))
  | _ => none

end Subtable

end Kashida
