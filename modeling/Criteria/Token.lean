/-
A token is a piece of a criterion that the grammar does not look inside: a parenthesis, a
connective, a comparison symbol, a predicate call, a field `[name]`, a date `#…#`, or any other
text. The kind of a token depends on its text alone and is meant for listings of tokens.
-/
import Criteria.Call
import Criteria.Vocabulary

set_option autoImplicit false

namespace Criteria

/-- A token of a criterion. -/
structure Token where
  /-- The text of the token. -/
  text : Text
  deriving DecidableEq

namespace Token

/-- The name of the field `[name]`. -/
def field? (t : Token) : Option Text := t.text.between? '[' ']'

/-- The text of the date `#…#`, without the number signs at its edges, however many there are. -/
def date? (t : Token) : Option Text := (t.text.between? '#' '#').map (Text.trim (· == '#'))

/-! ## Kinds -/

/-- What a token is by its text. -/
inductive Kind where
  | paren (p : Paren)
  | connective
  | comparison
  | predicate (p : Predicate)
  | field
  | date
  | text
  deriving DecidableEq, Repr

/-- The kind of a token. -/
def kind (t : Token) : Kind :=
  match Paren.ofText? t.text with
  | some p => .paren p
  | none =>
    if (Connective.ofText? t.text).isSome then .connective
    else if (Comparison.ofText? t.text).isSome then .comparison
    else match Call.whole? t.text with
      | some c => .predicate c.predicate
      | none =>
        if t.field?.isSome then .field
        else if t.date?.isSome then .date
        else .text

/-- The JSON form of a kind: its name, which for a call is joined by the name of the predicate. -/
def Kind.toJson : Kind → Json
  | .paren .opening => .str "open_paren".toList
  | .paren .closing => .str "close_paren".toList
  | .connective => .str "connective".toList
  | .comparison => .str "comparison".toList
  | .predicate p => .single "predicate".toList (.str p.name)
  | .field => .str "field".toList
  | .date => .str "date_literal".toList
  | .text => .str "text".toList

/-- The JSON form of a token: its text and its kind. -/
def toJson (t : Token) : Json :=
  .obj [("text".toList, .str t.text), ("kind".toList, t.kind.toJson)]

end Token

end Criteria
