import Kashida.Glyph.Order
import Kashida.Glyph.Set
import Kashida.Text.Hex

/-! Classes of glyphs. A name stands for the first of these that applies: a class, whose members are names themselves;
a glyph of that name; a glyph with that hexadecimal number; the glyphs whose names match it as a pattern.

Results are remembered by name. Defining a class forgets all of them. -/
namespace Kashida

/-- Turns a pattern into a test of names, or refuses it. -/
abbrev PatternDialect := String → Option (String → Bool)

/-- The digits of a glyph code, without one `0x` or `0X` in front. -/
def codeDigits : List Char → List Char
  | '0' :: 'x' :: digits => digits
  | '0' :: 'X' :: digits => digits
  | digits => digits

/-- The glyph number that a name spells in hexadecimal digits: at most four of them after any number of zeros. -/
def glyphCode? (name : String) : Option GlyphId :=
  match codeDigits name.toList with
  | [] => none
  | digits =>
      let significant := digits.dropWhile (· = '0')
      if 4 < significant.length then none else (Hex.number? significant).map .ofNat

namespace GlyphOrder

/-- The glyphs whose names match a pattern, of which there must be one. -/
def matchPattern (order : GlyphOrder) (dialect : PatternDialect) (pattern : String) : Except ResolveError GlyphSet :=
  match dialect pattern with
  | none => .error (.badPattern pattern)
  | some accepts =>
      match (order.toList.filter fun (name, _) => accepts name).map Prod.snd with
      | [] => .error (.emptyClass pattern)
      | glyphs => .ok (.ofList glyphs)

/-- What a name that is no class stands for. -/
def resolveLeaf (order : GlyphOrder) (dialect : PatternDialect) (name : String) : Except ResolveError GlyphSet :=
  match order.id? name with
  | some id => .ok (.ofList [id])
  | none =>
      match glyphCode? name with
      | some id =>
          match order.name? id with
          | some _ => .ok (.ofList [id])
          | none => .error (.unknownGlyphId id)
      | none => order.matchPattern dialect name

end GlyphOrder

/-- Members of each class by its name. -/
abbrev ClassMap := Std.TreeMap String (List String)

/-- Results by name. -/
abbrev ClassMemo := Std.TreeMap String GlyphSet

namespace ClassMap

theorem size_erase_lt {classes : ClassMap} {name : String} (h : name ∈ classes) :
    (classes.erase name).size < classes.size := by
  have present : classes.contains name := h
  have nonempty := Std.TreeMap.isEmpty_eq_false_of_contains present
  rw [Std.TreeMap.isEmpty_eq_size_eq_zero, beq_eq_false_iff_ne] at nonempty
  rw [Std.TreeMap.size_erase, if_pos present]
  omega

mutual

/-- Resolves a name. A class is closed, that is taken out of `opened`, while its members are resolved: to meet a class
that is no longer there is to go in a circle. -/
def resolve (classes : ClassMap) (leaf : String → Except ResolveError GlyphSet) (opened : ClassMap) (name : String)
    (memo : ClassMemo) : Except ResolveError GlyphSet × ClassMemo :=
  match memo[name]? with
  | some set => (.ok set, memo)
  | none =>
      match classes[name]? with
      | some members =>
          if _h : name ∈ opened then
            match resolveMembers classes leaf (opened.erase name) members memo with
            | (.ok glyphs, memo) =>
                let set := GlyphSet.ofList glyphs
                (.ok set, memo.insert name set)
            | (.error error, memo) => (.error error, memo)
          else (.error (.cyclicClass name), memo)
      | none =>
          match leaf name with
          | .ok set => (.ok set, memo.insert name set)
          | .error error => (.error error, memo)
termination_by (opened.size, 0)
decreasing_by
  exact Prod.Lex.left _ _ (size_erase_lt _h)

/-- The glyphs of all members, up to the first that does not resolve. -/
def resolveMembers (classes : ClassMap) (leaf : String → Except ResolveError GlyphSet) (opened : ClassMap)
    (members : List String) (memo : ClassMemo) : Except ResolveError (List GlyphId) × ClassMemo :=
  match members with
  | [] => (.ok [], memo)
  | member :: members =>
      match resolve classes leaf opened member memo with
      | (.ok set, memo) =>
          match resolveMembers classes leaf opened members memo with
          | (.ok glyphs, memo) => (.ok (set.toList ++ glyphs), memo)
          | (.error error, memo) => (.error error, memo)
      | (.error error, memo) => (.error error, memo)
termination_by (opened.size, members.length + 1)

end

end ClassMap

/-- Class definitions and the results remembered since the last definition. -/
structure ClassTable where
  classes : ClassMap := ∅
  memo : ClassMemo := ∅

namespace ClassTable

/-- Defines or redefines a class. -/
def define (table : ClassTable) (name : String) (members : List String) : ClassTable :=
  ⟨table.classes.insert name members, ∅⟩

def ofList (classes : List (String × List String)) : ClassTable :=
  classes.foldl (fun table (name, members) => table.define name members) {}

/-- Resolves a name, remembering it and every name on the way that resolved. -/
def resolve (table : ClassTable) (order : GlyphOrder) (dialect : PatternDialect) (name : String) :
    Except ResolveError GlyphSet × ClassTable :=
  let (outcome, memo) := table.classes.resolve (order.resolveLeaf dialect) table.classes name table.memo
  (outcome, { table with memo })

/-- The union of several names, up to the first that does not resolve. -/
def resolveAll (table : ClassTable) (order : GlyphOrder) (dialect : PatternDialect) (names : List String) :
    Except ResolveError GlyphSet × ClassTable :=
  let (outcome, memo) := table.classes.resolveMembers (order.resolveLeaf dialect) table.classes names table.memo
  (outcome.map GlyphSet.ofList, { table with memo })

end ClassTable

end Kashida
