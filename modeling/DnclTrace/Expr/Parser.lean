import DnclTrace.Expr.Tree
import DnclTrace.Expr.Token
import DnclTrace.Expr.Spelling
import DnclTrace.Binary64.Basic

/-!
# Reading expression trees from tokens

Precedence, loosest first:

```
or         := and ("||" and)*
and        := not ("&&" not)*
not        := ("!" | "¬") not | comparison "¬"*
comparison := additive (CMP additive)?        CMP: = == != < > <= >=, "=" read as "=="
additive   := term (("+" | "-") term)*
term       := unary (("*" | "/" | "//" | "%") unary)*
unary      := ("-" | "+") unary | primary
primary    := NUMBER | NAME ["[" or "]"] | "(" or ")"
```

Binary operators group to the left; a prefix `!` or `¬` and a trailing `¬` both mean
logical negation. Each rule is a function of a `depth` budget and the tokens; entering
a rule spends one unit, so brackets and prefix operators can only nest so far before
the reader gives up with `SyntaxError.tooDeep`. A rule returns its tree and the tokens
after it, which are never more than it was given: that bounds the repetitions.

A numeral with a point is a real, rounded to nearest; without, an integer, and one of
more than `digitLimit` digits cannot be read at all (`ParseStop.fault`).
-/

namespace DnclTrace.Expr

/-- Why reading stops: a syntax error, or a fault that ends the whole run. -/
inductive ParseStop where
  | malformed (e : SyntaxError)
  | fault (f : Fault)

/-- A tree read from a prefix of `ts`, with the tokens after it. -/
abbrev Parsed (ts : List Token) :=
  Except ParseStop (Expr × { r : List Token // r.length ≤ ts.length })

/-- The comparison operators, with `=` meaning `==`. -/
def comparisonOp? : String → Option BinOp
  | "=" | "==" => some .eq
  | "!=" => some .ne
  | "<" => some .lt
  | ">" => some .gt
  | "<=" => some .le
  | ">=" => some .ge
  | _ => none

/-- The additive operators. -/
def additiveOp? : String → Option BinOp
  | "+" => some .add
  | "-" => some .sub
  | _ => none

/-- The multiplicative operators. -/
def multiplicativeOp? : String → Option BinOp
  | "*" => some .mul
  | "/" => some .div
  | "//" => some .floorDiv
  | "%" => some .mod
  | _ => none

/-- The value of a numeral token. -/
def numeralValue (text : String) : Except ParseStop Value :=
  let cs := text.toList
  if cs.contains '.' then
    let whole := cs.takeWhile (· != '.')
    let frac := (cs.dropWhile (· != '.')).drop 1
    let num := Text.decimalValue (whole ++ frac)
    pure (.real (Binary64.ofRatio false num (Nat.pow 10 frac.length)))
  else if digitLimit < cs.length then throw (.fault (.tooManyDigitsToRead cs.length))
  else pure (.int (Text.decimalValue cs))

/-- Widens the bound on a suffix. -/
def Parsed.widen {ts us : List Token} (h : us.length ≤ ts.length)
    (r : { r : List Token // r.length ≤ us.length }) : { r : List Token // r.length ≤ ts.length } :=
  ⟨r.1, Nat.le_trans r.2 h⟩

/-- Requires the operator `sym` at the head of the tokens. -/
def expectOp (sym : String) (ts : List Token) :
    Except ParseStop { r : List Token // r.length ≤ ts.length } :=
  match ts with
  | .op s :: rest =>
    if s = sym then pure ⟨rest, by simp⟩ else throw (.malformed (.expected sym (some s)))
  | t :: _ => throw (.malformed (.expected sym (some t.text)))
  | [] => throw (.malformed (.expected sym none))

/-- Applies trailing `¬` signs to a tree. -/
def postfixNot (e : Expr) : (ts : List Token) → Expr × { r : List Token // r.length ≤ ts.length }
  | .op "¬" :: rest =>
    let (e', ⟨r, h⟩) := postfixNot (.unary .not e) rest
    (e', ⟨r, by simp; omega⟩)
  | other => (e, ⟨other, Nat.le_refl _⟩)

mutual

/-- `or := and ("||" and)*` -/
def parseOr (depth : Nat) (ts : List Token) : Parsed ts :=
  match depth with
  | 0 => throw (.malformed .tooDeep)
  | d + 1 => do
    let (l, ⟨r, h⟩) ← parseAnd d ts
    let (e, r') ← orRest d l r
    pure (e, Parsed.widen h r')
termination_by (depth, ts.length, 1)

/-- The repetitions of `("||" and)*` after the tree `l`. -/
def orRest (depth : Nat) (l : Expr) (ts : List Token) : Parsed ts :=
  match ts with
  | .op "||" :: rest => do
    let (rt, ⟨r, h⟩) ← parseAnd depth rest
    let (e, r') ← orRest depth (.binary .or l rt) r
    pure (e, Parsed.widen (by simp; omega) r')
  | other => pure (l, ⟨other, Nat.le_refl _⟩)
termination_by (depth, ts.length, 0)

/-- `and := not ("&&" not)*` -/
def parseAnd (depth : Nat) (ts : List Token) : Parsed ts :=
  match depth with
  | 0 => throw (.malformed .tooDeep)
  | d + 1 => do
    let (l, ⟨r, h⟩) ← parseNot d ts
    let (e, r') ← andRest d l r
    pure (e, Parsed.widen h r')
termination_by (depth, ts.length, 1)

/-- The repetitions of `("&&" not)*` after the tree `l`. -/
def andRest (depth : Nat) (l : Expr) (ts : List Token) : Parsed ts :=
  match ts with
  | .op "&&" :: rest => do
    let (rt, ⟨r, h⟩) ← parseNot depth rest
    let (e, r') ← andRest depth (.binary .and l rt) r
    pure (e, Parsed.widen (by simp; omega) r')
  | other => pure (l, ⟨other, Nat.le_refl _⟩)
termination_by (depth, ts.length, 0)

/-- `not := ("!" | "¬") not | comparison "¬"*` -/
def parseNot (depth : Nat) (ts : List Token) : Parsed ts :=
  match depth with
  | 0 => throw (.malformed .tooDeep)
  | d + 1 =>
    match ts with
    | .op "!" :: rest | .op "¬" :: rest => do
      let (e, r) ← parseNot d rest
      pure (.unary .not e, Parsed.widen (by simp) r)
    | other => do
      let (c, ⟨r, h⟩) ← parseComparison d other
      let (e, r') := postfixNot c r
      pure (e, Parsed.widen h r')
termination_by (depth, ts.length, 1)

/-- `comparison := additive (CMP additive)?` -/
def parseComparison (depth : Nat) (ts : List Token) : Parsed ts :=
  match depth with
  | 0 => throw (.malformed .tooDeep)
  | d + 1 => do
    let (l, ⟨r, h⟩) ← parseAdditive d ts
    match hr : r with
    | .op s :: rest =>
      match comparisonOp? s with
      | some op => do
        let (rt, r') ← parseAdditive d rest
        pure (.binary op l rt, Parsed.widen (by subst hr; simp at h; omega) r')
      | none => pure (l, ⟨r, h⟩)
    | _ => pure (l, ⟨r, h⟩)
termination_by (depth, ts.length, 1)

/-- `additive := term (("+" | "-") term)*` -/
def parseAdditive (depth : Nat) (ts : List Token) : Parsed ts :=
  match depth with
  | 0 => throw (.malformed .tooDeep)
  | d + 1 => do
    let (l, ⟨r, h⟩) ← parseTerm d ts
    let (e, r') ← additiveRest d l r
    pure (e, Parsed.widen h r')
termination_by (depth, ts.length, 1)

/-- The repetitions of `(("+" | "-") term)*` after the tree `l`. -/
def additiveRest (depth : Nat) (l : Expr) (ts : List Token) : Parsed ts :=
  match ts with
  | .op s :: rest =>
    match additiveOp? s with
    | some op => do
      let (rt, ⟨r, h⟩) ← parseTerm depth rest
      let (e, r') ← additiveRest depth (.binary op l rt) r
      pure (e, Parsed.widen (by simp; omega) r')
    | none => pure (l, ⟨.op s :: rest, Nat.le_refl _⟩)
  | other => pure (l, ⟨other, Nat.le_refl _⟩)
termination_by (depth, ts.length, 0)

/-- `term := unary (("*" | "/" | "//" | "%") unary)*` -/
def parseTerm (depth : Nat) (ts : List Token) : Parsed ts :=
  match depth with
  | 0 => throw (.malformed .tooDeep)
  | d + 1 => do
    let (l, ⟨r, h⟩) ← parseUnary d ts
    let (e, r') ← termRest d l r
    pure (e, Parsed.widen h r')
termination_by (depth, ts.length, 1)

/-- The repetitions of `(("*" | "/" | "//" | "%") unary)*` after the tree `l`. -/
def termRest (depth : Nat) (l : Expr) (ts : List Token) : Parsed ts :=
  match ts with
  | .op s :: rest =>
    match multiplicativeOp? s with
    | some op => do
      let (rt, ⟨r, h⟩) ← parseUnary depth rest
      let (e, r') ← termRest depth (.binary op l rt) r
      pure (e, Parsed.widen (by simp; omega) r')
    | none => pure (l, ⟨.op s :: rest, Nat.le_refl _⟩)
  | other => pure (l, ⟨other, Nat.le_refl _⟩)
termination_by (depth, ts.length, 0)

/-- `unary := ("-" | "+") unary | primary` -/
def parseUnary (depth : Nat) (ts : List Token) : Parsed ts :=
  match depth with
  | 0 => throw (.malformed .tooDeep)
  | d + 1 =>
    match ts with
    | .op "-" :: rest => do
      let (e, r) ← parseUnary d rest
      pure (.unary .neg e, Parsed.widen (by simp) r)
    | .op "+" :: rest => do
      let (e, r) ← parseUnary d rest
      pure (.unary .pos e, Parsed.widen (by simp) r)
    | other => parsePrimary d other
termination_by (depth, ts.length, 1)

/-- `primary := NUMBER | NAME ["[" or "]"] | "(" or ")"` -/
def parsePrimary (depth : Nat) (ts : List Token) : Parsed ts :=
  match depth with
  | 0 => throw (.malformed .tooDeep)
  | d + 1 =>
    match ts with
    | [] => throw (.malformed .endedEarly)
    | .number s :: rest => do
      let v ← numeralValue s
      pure (.num v, ⟨rest, by simp⟩)
    | .ident n :: .op "[" :: rest => do
      let (p, ⟨r, h⟩) ← parseOr d rest
      let r' ← expectOp "]" r
      pure (.index n p, ⟨r'.1, by have := r'.2; simp; omega⟩)
    | .ident n :: rest => pure (.var n, ⟨rest, by simp⟩)
    | .op "(" :: rest => do
      let (e, ⟨r, h⟩) ← parseOr d rest
      let r' ← expectOp ")" r
      pure (e, ⟨r'.1, by have := r'.2; simp; omega⟩)
    | t :: _ => throw (.malformed (.unexpected t.text))
termination_by (depth, ts.length, 1)

end

/-- Reads a whole token list as one expression, with rules nested at most `allowance`
deep. -/
def parseTokens (allowance : Nat) (ts : List Token) : Except ParseStop Expr := do
  if ts.isEmpty then throw (.malformed .empty)
  let (e, ⟨r, _⟩) ← parseOr allowance ts
  match r with
  | [] => pure e
  | t :: _ => throw (.malformed (.leftover t.text))

end DnclTrace.Expr
