import Colourway.Document.Basic

/-!
# Tokens

A token records one value on its way to its final form: an entry of a document under its flat path,
or an intermediate expression under its own text. Tokens are shared: an entry's trail lists the
expressions that it passed through, and a reference depends on the entry that it refers to. So
tokens are named by numbers, and a store holds what stands under each number.
-/

namespace Colourway

/-- The phases of resolution. -/
inductive Scope where
  /-- The palette. -/
  | palette
  /-- The variables. -/
  | vars
  /-- The theme. -/
  | theme
  deriving DecidableEq, Inhabited

namespace Scope

/-- The scopes in the order of resolution. -/
def all : List Scope := [palette, vars, theme]

/-- The name of a scope in answers. -/
def name : Scope → String
  | palette => "palette"
  | vars => "variables"
  | theme => "theme"

/-- The scope with a name. -/
def ofName? (s : Text) : Option Scope := all.find? fun scope => scope.name = s

/-- The scopes whose entries can be seen from a scope: itself and the earlier ones. -/
def visible : Scope → List Scope
  | palette => [palette]
  | vars => [palette, vars]
  | theme => [palette, vars, theme]

end Scope

/-- What a token stands for. -/
inductive TokenKind where
  /-- An entry of a document. -/
  | input
  /-- A hex literal that was spelled out. -/
  | hex
  /-- An expression whose first reference was replaced. -/
  | reference
  /-- An expression whose first call was evaluated. -/
  | call
  /-- Literal text. -/
  | literal
  deriving DecidableEq, Inhabited

namespace TokenKind

/-- The kinds. -/
def all : List TokenKind := [input, hex, reference, call, literal]

/-- The name of a kind in answers. -/
def name : TokenKind → String
  | input => "input"
  | hex => "hex"
  | reference => "reference"
  | call => "function"
  | literal => "literal"

/-- The kind with a name. -/
def ofName? (s : Text) : Option TokenKind := all.find? fun kind => kind.name = s

end TokenKind

/-- The number of a token. -/
abbrev TokenId := Nat

/-- The number of a trail. -/
abbrev TrailId := Nat

/-- What a token is made from. -/
structure Draft where
  /-- The key: a flat path, or the text of an expression. -/
  name : Text
  /-- What the token stands for. -/
  kind : TokenKind
  /-- The value before resolution. -/
  raw : Document := .null
  /-- The value now. -/
  value : Document := .null
  /-- The phase that made the token. -/
  scope : Option Scope := none
  /-- The entry that a reference refers to. -/
  dependency : Option TokenId := none
  /-- The flat path of the entry that last passed through this expression. -/
  parent : Option Text := none
  deriving Inhabited

/-- A token. Its trail stands in the store under a number of its own, since a token and a
checkpoint may hold one and the same trail. -/
structure Token extends Draft where
  /-- The number of the trail. -/
  trail : TrailId
  deriving Inhabited

/-- Whether the token is an entry of a document. -/
def Token.isEntry (t : Token) : Bool := t.kind == .input

end Colourway
