import DnclTrace.Expr.Parser

/-!
# The grammar of expressions

The reader's grammar, rule by rule, as relations between a list of tokens and the tree
it derives:

```
or         := and ("||" and)*
and        := not ("&&" not)*
not        := ("!" | "¬") not | comparison "¬"*
comparison := additive (CMP additive)?
additive   := term (("+" | "-") term)*
term       := unary (("*" | "/" | "//" | "%") unary)*
unary      := ("-" | "+") unary | primary
primary    := NUMBER | NAME ["[" or "]"] | "(" or ")"
```

A repetition `x (op x)*` is an operand and a tail (`OrTail`, `AndTail`, `AddTail`,
`MulTail`): the tail is given the tree read so far and joins each next operand on its
right, so every chain nests to the left. Every negation, leading or trailing, is
`UnOp.not`; brackets leave no node; a numeral denotes its value at any length
(`numeralDenotes`).

The grammar needs one token of lookahead. A complete operand of a level can only be
continued by one of that level's signs (`orSigns`, …, `primarySigns`): its own
operators, those of the levels inside it, and the `[` after a name. `Ends signs rest`
says that `rest` does not start with one of them, so an operand before it ends there.
-/

namespace DnclTrace.Expr

/-- The value a numeral denotes, at any length: a real rounded to nearest when it has a
point, an integer otherwise. -/
def numeralDenotes (text : String) : Value :=
  let cs := text.toList
  if cs.contains '.' then
    let whole := cs.takeWhile (· != '.')
    let frac := (cs.dropWhile (· != '.')).drop 1
    .real (Binary64.ofRatio false (Text.decimalValue (whole ++ frac)) (Nat.pow 10 frac.length))
  else .int (Text.decimalValue cs)

/-- A numeral the reader can read: a real, or an integer of at most `digitLimit` digits. -/
def NumeralReadable (text : String) : Prop :=
  text.toList.contains '.' = true ∨ text.toList.length ≤ digitLimit

instance : DecidablePred NumeralReadable := fun _ => inferInstanceAs (Decidable (_ ∨ _))

/-- A token the reader can read: anything but an integer numeral of too many digits. -/
def Token.Readable : Token → Prop
  | .number s => NumeralReadable s
  | .ident _ | .op _ => True

@[simp] theorem Token.readable_op (s : String) : (Token.op s).Readable := trivial

@[simp] theorem Token.readable_ident (n : String) : (Token.ident n).Readable := trivial

/-- Every token of `ts` can be read. -/
def AllReadable (ts : List Token) : Prop := ∀ tk ∈ ts, tk.Readable

@[simp] theorem allReadable_nil : AllReadable [] := fun _ h => nomatch h

@[simp] theorem allReadable_append {ts us : List Token} :
    AllReadable (ts ++ us) ↔ AllReadable ts ∧ AllReadable us :=
  List.forall_mem_append

@[simp] theorem allReadable_cons {tk : Token} {ts : List Token} :
    AllReadable (tk :: ts) ↔ tk.Readable ∧ AllReadable ts :=
  List.forall_mem_cons

/-- A numeral is read as what it denotes, unless it is an integer of too many digits. -/
theorem numeralValue_eq (text : String) :
    numeralValue text = if NumeralReadable text then .ok (numeralDenotes text)
      else .error (.fault (.tooManyDigitsToRead text.toList.length)) := by
  unfold numeralValue numeralDenotes NumeralReadable
  by_cases hp : text.toList.contains '.' = true
  · simp only [hp, if_true, true_or]
    rfl
  · by_cases hl : text.toList.length ≤ digitLimit
    · simp only [hp, hl, Bool.false_eq_true, if_false, or_true, if_true, Nat.not_lt.2 hl]
      rfl
    · simp only [hp, hl, Bool.false_eq_true, if_false, or_false, Nat.lt_of_not_le hl, if_true]
      rfl

namespace Grammar

/-- The trailing signs `"¬"*` after the tree `c`: each negates what stands before it. -/
inductive NotTail : Expr → List Token → Expr → Prop
  | nil {c : Expr} : NotTail c [] c
  | cons {c t : Expr} {us : List Token} :
      NotTail (.unary .not c) us t → NotTail c (.op "¬" :: us) t

mutual

/-- The rule `or := and ("||" and)*`: the tokens are an or-expression with tree `t`. -/
inductive OrExpr : List Token → Expr → Prop
  | chain {ts us : List Token} {l t : Expr} : AndExpr ts l → OrTail l us t → OrExpr (ts ++ us) t

/-- The tail `("||" and)*` after the tree `l`: each operand joins the tree so far on its
right. -/
inductive OrTail : Expr → List Token → Expr → Prop
  | nil {l : Expr} : OrTail l [] l
  | cons {ts us : List Token} {l r t : Expr} :
      AndExpr ts r → OrTail (.binary .or l r) us t → OrTail l (.op "||" :: (ts ++ us)) t

/-- The rule `and := not ("&&" not)*`. -/
inductive AndExpr : List Token → Expr → Prop
  | chain {ts us : List Token} {l t : Expr} : NotExpr ts l → AndTail l us t → AndExpr (ts ++ us) t

/-- The tail `("&&" not)*` after the tree `l`. -/
inductive AndTail : Expr → List Token → Expr → Prop
  | nil {l : Expr} : AndTail l [] l
  | cons {ts us : List Token} {l r t : Expr} :
      NotExpr ts r → AndTail (.binary .and l r) us t → AndTail l (.op "&&" :: (ts ++ us)) t

/-- The rule `not := ("!" | "¬") not | comparison "¬"*`. -/
inductive NotExpr : List Token → Expr → Prop
  | leading {s : String} {ts : List Token} {e : Expr} :
      s = "!" ∨ s = "¬" → NotExpr ts e → NotExpr (.op s :: ts) (.unary .not e)
  | trailing {ts us : List Token} {c t : Expr} : CmpExpr ts c → NotTail c us t → NotExpr (ts ++ us) t

/-- The rule `comparison := additive (CMP additive)?`, with the operators of
`comparisonOp?`. -/
inductive CmpExpr : List Token → Expr → Prop
  | single {ts : List Token} {e : Expr} : AddExpr ts e → CmpExpr ts e
  | compare {ts us : List Token} {s : String} {op : BinOp} {l r : Expr} :
      AddExpr ts l → comparisonOp? s = some op → AddExpr us r →
        CmpExpr (ts ++ .op s :: us) (.binary op l r)

/-- The rule `additive := term (("+" | "-") term)*`. -/
inductive AddExpr : List Token → Expr → Prop
  | chain {ts us : List Token} {l t : Expr} : MulExpr ts l → AddTail l us t → AddExpr (ts ++ us) t

/-- The tail `(("+" | "-") term)*` after the tree `l`. -/
inductive AddTail : Expr → List Token → Expr → Prop
  | nil {l : Expr} : AddTail l [] l
  | cons {s : String} {op : BinOp} {ts us : List Token} {l r t : Expr} :
      additiveOp? s = some op → MulExpr ts r → AddTail (.binary op l r) us t →
        AddTail l (.op s :: (ts ++ us)) t

/-- The rule `term := unary (("*" | "/" | "//" | "%") unary)*`. -/
inductive MulExpr : List Token → Expr → Prop
  | chain {ts us : List Token} {l t : Expr} : UnaryExpr ts l → MulTail l us t → MulExpr (ts ++ us) t

/-- The tail `(("*" | "/" | "//" | "%") unary)*` after the tree `l`. -/
inductive MulTail : Expr → List Token → Expr → Prop
  | nil {l : Expr} : MulTail l [] l
  | cons {s : String} {op : BinOp} {ts us : List Token} {l r t : Expr} :
      multiplicativeOp? s = some op → UnaryExpr ts r → MulTail (.binary op l r) us t →
        MulTail l (.op s :: (ts ++ us)) t

/-- The rule `unary := ("-" | "+") unary | primary`. -/
inductive UnaryExpr : List Token → Expr → Prop
  | neg {ts : List Token} {e : Expr} : UnaryExpr ts e → UnaryExpr (.op "-" :: ts) (.unary .neg e)
  | pos {ts : List Token} {e : Expr} : UnaryExpr ts e → UnaryExpr (.op "+" :: ts) (.unary .pos e)
  | primary {ts : List Token} {e : Expr} : PrimaryExpr ts e → UnaryExpr ts e

/-- The rule `primary := NUMBER | NAME ["[" or "]"] | "(" or ")"`. -/
inductive PrimaryExpr : List Token → Expr → Prop
  | number {s : String} : PrimaryExpr [.number s] (.num (numeralDenotes s))
  | name {n : String} : PrimaryExpr [.ident n] (.var n)
  | index {n : String} {ts : List Token} {p : Expr} :
      OrExpr ts p → PrimaryExpr (.ident n :: .op "[" :: (ts ++ [.op "]"])) (.index n p)
  | paren {ts : List Token} {e : Expr} : OrExpr ts e → PrimaryExpr (.op "(" :: (ts ++ [.op ")"])) e

end

/-! ## One token of lookahead -/

/-- The signs that continue a complete primary or unary operand: the `[` after a name. -/
def primarySigns : List String := ["["]

/-- The signs that continue a complete term. -/
def mulSigns : List String := ["*", "/", "//", "%"] ++ primarySigns

/-- The signs that continue a complete additive operand. -/
def addSigns : List String := ["+", "-"] ++ mulSigns

/-- The signs that continue a complete comparison. -/
def cmpSigns : List String := ["=", "==", "!=", "<", ">", "<=", ">="] ++ addSigns

/-- The signs that continue a complete not-operand: a trailing `¬`. -/
def notSigns : List String := "¬" :: cmpSigns

/-- The signs that continue a complete and-operand. -/
def andSigns : List String := "&&" :: notSigns

/-- The signs that continue a complete or-expression. -/
def orSigns : List String := "||" :: andSigns

/-- The tokens `rest` do not start with one of `signs`. -/
def Ends (signs : List String) : List Token → Prop
  | .op s :: _ => s ∉ signs
  | .number _ :: _ | .ident _ :: _ | [] => True

@[simp] theorem ends_nil (signs : List String) : Ends signs [] := trivial

@[simp] theorem ends_op (signs : List String) (s : String) (rest : List Token) :
    Ends signs (.op s :: rest) ↔ s ∉ signs := Iff.rfl

theorem Ends.mono {small big : List String} {rest : List Token} (h : Ends big rest)
    (hsub : small ⊆ big) : Ends small rest := by
  match rest, h with
  | [], _ | .number _ :: _, _ | .ident _ :: _, _ => trivial
  | .op _ :: _, h => exact fun hs => h (hsub hs)

theorem Ends.ne_op {signs : List String} {rest : List Token} (h : Ends signs rest) {s : String}
    (hs : s ∈ signs) (r : List Token) : rest ≠ .op s :: r := by
  rintro rfl
  exact h hs

/-- A tail that is empty or opens with a sign outside `signs` keeps what follows it
ending for `signs`. -/
theorem Ends.append {signs : List String} {us rest : List Token} (hr : Ends signs rest)
    (hus : us = [] ∨ ∃ s tl, us = .op s :: tl ∧ s ∉ signs) : Ends signs (us ++ rest) := by
  rcases hus with rfl | ⟨s, tl, rfl, hs⟩
  · exact hr
  · exact hs

theorem comparisonOp?_some {s : String} {op : BinOp} (h : comparisonOp? s = some op) :
    s ∈ ["=", "==", "!=", "<", ">", "<=", ">="] := by
  unfold comparisonOp? at h
  split at h <;> simp_all

theorem additiveOp?_some {s : String} {op : BinOp} (h : additiveOp? s = some op) :
    s ∈ ["+", "-"] := by
  unfold additiveOp? at h
  split at h <;> simp_all

theorem multiplicativeOp?_some {s : String} {op : BinOp} (h : multiplicativeOp? s = some op) :
    s ∈ ["*", "/", "//", "%"] := by
  unfold multiplicativeOp? at h
  split at h <;> simp_all

/-- What ends a comparison offers no comparison operator. -/
theorem comparisonOp?_of_ends {s : String} {rest : List Token}
    (h : Ends cmpSigns (.op s :: rest)) : comparisonOp? s = none := by
  cases hs : comparisonOp? s with
  | none => rfl
  | some op => exact absurd (List.mem_append_left _ (comparisonOp?_some hs)) h

theorem additiveOp?_of_ends {s : String} {rest : List Token}
    (h : Ends addSigns (.op s :: rest)) : additiveOp? s = none := by
  cases hs : additiveOp? s with
  | none => rfl
  | some op => exact absurd (List.mem_append_left _ (additiveOp?_some hs)) h

theorem multiplicativeOp?_of_ends {s : String} {rest : List Token}
    (h : Ends mulSigns (.op s :: rest)) : multiplicativeOp? s = none := by
  cases hs : multiplicativeOp? s with
  | none => rfl
  | some op => exact absurd (List.mem_append_left _ (multiplicativeOp?_some hs)) h

/-! ## How each form starts

A primary starts with a numeral, a name or `(`; a unary operand, and so every operand of
the levels above it up to a comparison, with one of these or a sign `-` or `+`. So the
reader's choice of branch at a leading token agrees with the grammar's. -/

/-- The tokens `ts` start with a numeral, a name, or an operator among `signs`. -/
def Leads (signs : List String) (ts : List Token) : Prop :=
  ∃ tk tl, ts = tk :: tl ∧ ∀ s, tk = .op s → s ∈ signs

theorem Leads.append {signs : List String} {ts : List Token} (h : Leads signs ts)
    (us : List Token) : Leads signs (ts ++ us) := by
  obtain ⟨tk, tl, rfl, htk⟩ := h
  exact ⟨tk, tl ++ us, rfl, htk⟩

theorem Leads.length_pos {signs : List String} {ts : List Token} (h : Leads signs ts) :
    0 < ts.length := by
  obtain ⟨tk, tl, rfl, -⟩ := h
  exact Nat.succ_pos _

/-- Tokens that lead as `signs` allow do not start with an operator outside them. -/
theorem Leads.ne_op {signs : List String} {ts : List Token} (h : Leads signs ts) {s : String}
    (hs : s ∉ signs) (rest : List Token) : ts ≠ .op s :: rest := by
  obtain ⟨tk, tl, rfl, htk⟩ := h
  intro he
  cases he
  exact hs (htk s rfl)

theorem PrimaryExpr.leads {ts : List Token} {e : Expr} (h : PrimaryExpr ts e) :
    Leads ["("] ts := by
  cases h with
  | number => exact ⟨_, _, rfl, fun _ h => nomatch h⟩
  | name => exact ⟨_, _, rfl, fun _ h => nomatch h⟩
  | index => exact ⟨_, _, rfl, fun _ h => nomatch h⟩
  | paren => exact ⟨_, _, rfl, fun _ h => by cases h; exact List.mem_singleton_self _⟩

theorem UnaryExpr.leads {ts : List Token} {e : Expr} (h : UnaryExpr ts e) :
    Leads ["-", "+", "("] ts := by
  cases h with
  | neg => exact ⟨_, _, rfl, fun _ h => by cases h; simp⟩
  | pos => exact ⟨_, _, rfl, fun _ h => by cases h; simp⟩
  | primary hp =>
    obtain ⟨tk, tl, rfl, htk⟩ := hp.leads
    exact ⟨tk, tl, rfl, fun s hs => .tail _ (.tail _ (htk s hs))⟩

theorem MulExpr.leads {ts : List Token} {e : Expr} (h : MulExpr ts e) :
    Leads ["-", "+", "("] ts := by
  cases h with
  | chain hu _ => exact hu.leads.append _

theorem AddExpr.leads {ts : List Token} {e : Expr} (h : AddExpr ts e) :
    Leads ["-", "+", "("] ts := by
  cases h with
  | chain hm _ => exact hm.leads.append _

theorem CmpExpr.leads {ts : List Token} {e : Expr} (h : CmpExpr ts e) :
    Leads ["-", "+", "("] ts := by
  cases h with
  | single ha => exact ha.leads
  | compare ha _ _ => exact ha.leads.append _

theorem NotExpr.length_pos {ts : List Token} {e : Expr} (h : NotExpr ts e) : 0 < ts.length := by
  cases h with
  | leading => exact Nat.succ_pos _
  | trailing hc _ => exact (hc.leads.append _).length_pos

theorem AndExpr.length_pos {ts : List Token} {e : Expr} (h : AndExpr ts e) : 0 < ts.length := by
  cases h with
  | chain hn _ =>
    rw [List.length_append]
    exact Nat.lt_of_lt_of_le hn.length_pos (Nat.le_add_right _ _)

theorem OrExpr.length_pos {ts : List Token} {e : Expr} (h : OrExpr ts e) : 0 < ts.length := by
  cases h with
  | chain ha _ =>
    rw [List.length_append]
    exact Nat.lt_of_lt_of_le ha.length_pos (Nat.le_add_right _ _)

/-! ## How each tail starts -/

theorem NotTail.opens {c t : Expr} {us : List Token} (h : NotTail c us t) :
    us = [] ∨ ∃ s tl, us = .op s :: tl ∧ s ∉ cmpSigns := by
  cases h with
  | nil => exact .inl rfl
  | cons => exact .inr ⟨_, _, rfl, by decide⟩

theorem OrTail.opens {l t : Expr} {us : List Token} (h : OrTail l us t) :
    us = [] ∨ ∃ s tl, us = .op s :: tl ∧ s ∉ andSigns := by
  cases h with
  | nil => exact .inl rfl
  | cons => exact .inr ⟨_, _, rfl, by decide⟩

theorem AndTail.opens {l t : Expr} {us : List Token} (h : AndTail l us t) :
    us = [] ∨ ∃ s tl, us = .op s :: tl ∧ s ∉ notSigns := by
  cases h with
  | nil => exact .inl rfl
  | cons => exact .inr ⟨_, _, rfl, by decide⟩

theorem AddTail.opens {l t : Expr} {us : List Token} (h : AddTail l us t) :
    us = [] ∨ ∃ s tl, us = .op s :: tl ∧ s ∉ mulSigns := by
  cases h with
  | nil => exact .inl rfl
  | cons hs _ _ =>
    refine .inr ⟨_, _, rfl, ?_⟩
    have := additiveOp?_some hs
    simp only [List.mem_cons, List.not_mem_nil, or_false] at this
    rcases this with rfl | rfl <;> decide

theorem MulTail.opens {l t : Expr} {us : List Token} (h : MulTail l us t) :
    us = [] ∨ ∃ s tl, us = .op s :: tl ∧ s ∉ primarySigns := by
  cases h with
  | nil => exact .inl rfl
  | cons hs _ _ =>
    refine .inr ⟨_, _, rfl, ?_⟩
    have := multiplicativeOp?_some hs
    simp only [List.mem_cons, List.not_mem_nil, or_false] at this
    rcases this with rfl | rfl | rfl | rfl <;> decide

/-- A comparison operator continues no additive operand. -/
theorem not_mem_addSigns {s : String} {op : BinOp} (h : comparisonOp? s = some op) :
    s ∉ addSigns := by
  have := comparisonOp?_some h
  simp only [List.mem_cons, List.not_mem_nil, or_false] at this
  rcases this with rfl | rfl | rfl | rfl | rfl | rfl | rfl <;> decide

/-! ## Each level derives what the level inside it derives -/

theorem MulExpr.of_unary {ts : List Token} {e : Expr} (h : UnaryExpr ts e) : MulExpr ts e := by
  simpa using MulExpr.chain h .nil

theorem AddExpr.of_unary {ts : List Token} {e : Expr} (h : UnaryExpr ts e) : AddExpr ts e := by
  simpa using AddExpr.chain (.of_unary h) .nil

theorem NotExpr.of_unary {ts : List Token} {e : Expr} (h : UnaryExpr ts e) : NotExpr ts e := by
  simpa using NotExpr.trailing (.single (.of_unary h)) .nil

theorem OrExpr.of_unary {ts : List Token} {e : Expr} (h : UnaryExpr ts e) : OrExpr ts e := by
  have ha : AndExpr ts e := by simpa using AndExpr.chain (.of_unary h) .nil
  simpa using OrExpr.chain ha .nil

/-- A sentence in brackets is a sentence with the same tree. -/
theorem OrExpr.paren {ts : List Token} {e : Expr} (h : OrExpr ts e) :
    OrExpr (.op "(" :: (ts ++ [.op ")"])) e :=
  .of_unary (.primary (.paren h))

end Grammar

end DnclTrace.Expr
