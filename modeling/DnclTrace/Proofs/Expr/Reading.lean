import DnclTrace.Proofs.Expr.Grammar

/-!
# What the reader's rules read

Each rule returns a tree and the tokens after it, the latter with a bound on their
length that only serves termination. `Parsed.view` forgets the bound, and each rule gets
one equation per branch in the plain `Except` monad (`parseOr_view`, …): a rule at depth
`d + 1` runs the rule inside it at depth `d` and then its own tail. Later proofs rewrite
with these and never unfold a rule.

Main statement: `reader_sound`. Whatever a rule returns was derived by the grammar from
the tokens it consumed, each of which can be read, and a rule stops with a fault only at
a numeral too long to read. The induction is the reader's own mutual recursion.
-/

namespace DnclTrace.Expr

open Grammar

/-- A rule's answer, without the bound on the tokens left. -/
def Parsed.view {ts : List Token} (x : Parsed ts) : Except ParseStop (Expr × List Token) :=
  x.map fun p => (p.1, p.2.1)

/-- The trailing `¬` signs read after the tree `c`, and the tokens after them. -/
def trailingNots (c : Expr) (r : List Token) : Expr × List Token :=
  ((postfixNot c r).1, (postfixNot c r).2.1)

/-- What the comparison rule reads after its first operand `l`, `d` deep. -/
def compareRest (d : Nat) (l : Expr) : List Token → Except ParseStop (Expr × List Token)
  | .op s :: rest =>
    match comparisonOp? s with
    | some op => (parseAdditive d rest).view >>= fun q => pure (.binary op l q.1, q.2)
    | none => pure (l, .op s :: rest)
  | ts => pure (l, ts)

/-- The closing sign `sym` after the tree `e`. -/
def closeWith (sym : String) (e : Expr) (r : List Token) : Except ParseStop (Expr × List Token) :=
  (fun r' => (e, r'.1)) <$> expectOp sym r

/-! ## One equation per branch of each rule -/

section Equations

variable (d : Nat) (ts rest : List Token) (l : Expr)

theorem parseOr_zero_view : (parseOr 0 ts).view = .error (.malformed .tooDeep) := by
  rw [parseOr.eq_1]; rfl

theorem parseAnd_zero_view : (parseAnd 0 ts).view = .error (.malformed .tooDeep) := by
  rw [parseAnd.eq_1]; rfl

theorem parseNot_zero_view : (parseNot 0 ts).view = .error (.malformed .tooDeep) := by
  rw [parseNot.eq_1]; rfl

theorem parseComparison_zero_view :
    (parseComparison 0 ts).view = .error (.malformed .tooDeep) := by
  rw [parseComparison.eq_1]; rfl

theorem parseAdditive_zero_view : (parseAdditive 0 ts).view = .error (.malformed .tooDeep) := by
  rw [parseAdditive.eq_1]; rfl

theorem parseTerm_zero_view : (parseTerm 0 ts).view = .error (.malformed .tooDeep) := by
  rw [parseTerm.eq_1]; rfl

theorem parseUnary_zero_view : (parseUnary 0 ts).view = .error (.malformed .tooDeep) := by
  rw [parseUnary.eq_1]; rfl

theorem parsePrimary_zero_view : (parsePrimary 0 ts).view = .error (.malformed .tooDeep) := by
  rw [parsePrimary.eq_1]; rfl

/-- A rule that runs `x` and then `k` on what `x` left, widening the bound on what is
left after `k`, answers what `x` and then `k` answer. -/
theorem view_seq {ts us : List Token} (x : Parsed us) (k : (l : Expr) → (r : List Token) → Parsed r)
    (w : ∀ r : List Token, r.length ≤ us.length → r.length ≤ ts.length) :
    Parsed.view (x >>= fun p => match p with
      | (l, ⟨r, h⟩) => k l r >>= fun q => match q with
        | (e, r') => pure (e, Parsed.widen (w r h) r') : Parsed ts) =
      x.view >>= fun p => (k p.1 p.2).view := by
  rcases x with e | ⟨l, r, h⟩
  · rfl
  · show Parsed.view (k l r >>= _ : Parsed ts) = Parsed.view (k l r)
    rcases k l r with e | ⟨t, r', h'⟩ <;> rfl

theorem parseOr_view :
    (parseOr (d + 1) ts).view = (parseAnd d ts).view >>= fun p => (orRest d p.1 p.2).view := by
  rw [parseOr.eq_2]
  exact view_seq _ _ fun _ h => h

theorem orRest_view_or :
    (orRest d l (.op "||" :: rest)).view =
      (parseAnd d rest).view >>= fun p => (orRest d (.binary .or l p.1) p.2).view := by
  rw [orRest.eq_1]
  exact view_seq _ (fun rt r => orRest d (.binary .or l rt) r) (by intro r h; simp; omega)

theorem orRest_view_end (h : ∀ rest, ts ≠ .op "||" :: rest) : (orRest d l ts).view = pure (l, ts) := by
  rw [orRest.eq_2 _ _ _ fun rest he => h rest he]; rfl

theorem parseAnd_view :
    (parseAnd (d + 1) ts).view = (parseNot d ts).view >>= fun p => (andRest d p.1 p.2).view := by
  rw [parseAnd.eq_2]
  exact view_seq _ _ fun _ h => h

theorem andRest_view_and :
    (andRest d l (.op "&&" :: rest)).view =
      (parseNot d rest).view >>= fun p => (andRest d (.binary .and l p.1) p.2).view := by
  rw [andRest.eq_1]
  exact view_seq _ (fun rt r => andRest d (.binary .and l rt) r) (by intro r h; simp; omega)

theorem andRest_view_end (h : ∀ rest, ts ≠ .op "&&" :: rest) :
    (andRest d l ts).view = pure (l, ts) := by
  rw [andRest.eq_2 _ _ _ fun rest he => h rest he]; rfl

theorem parseNot_view_leading {s : String} (hs : s = "!" ∨ s = "¬") :
    (parseNot (d + 1) (.op s :: rest)).view =
      (parseNot d rest).view >>= fun p => pure (.unary .not p.1, p.2) := by
  rcases hs with rfl | rfl
  · rw [parseNot.eq_2]
    rcases parseNot d rest with e | ⟨t, r, h⟩ <;> rfl
  · rw [parseNot.eq_3]
    rcases parseNot d rest with e | ⟨t, r, h⟩ <;> rfl

theorem parseNot_view_trailing (h₁ : ∀ rest, ts ≠ .op "!" :: rest)
    (h₂ : ∀ rest, ts ≠ .op "¬" :: rest) :
    (parseNot (d + 1) ts).view = (parseComparison d ts).view >>= fun p => pure (trailingNots p.1 p.2) := by
  rw [parseNot.eq_4 _ _ (fun rest he => h₁ rest he) (fun rest he => h₂ rest he)]
  rcases parseComparison d ts with e | ⟨c, r, h⟩ <;> rfl

theorem parseComparison_view :
    (parseComparison (d + 1) ts).view =
      (parseAdditive d ts).view >>= fun p => compareRest d p.1 p.2 := by
  rw [parseComparison.eq_2]
  rcases parseAdditive d ts with e | ⟨l, r, h⟩
  · rfl
  · -- the rule's match on the tokens left and `compareRest`'s agree once they are split
    rcases r with _ | ⟨_ | _ | s, rest⟩
    · rfl
    · rfl
    · rfl
    · show Parsed.view (match comparisonOp? s with
        | some op => _ | none => _ : Parsed ts) = compareRest d l (.op s :: rest)
      rw [compareRest]
      rcases comparisonOp? s with _ | op
      · rfl
      · show Parsed.view (parseAdditive d rest >>= _ : Parsed ts) =
          Parsed.view (parseAdditive d rest) >>= _
        rcases parseAdditive d rest with e | ⟨t, r', h'⟩ <;> rfl

theorem parseAdditive_view :
    (parseAdditive (d + 1) ts).view =
      (parseTerm d ts).view >>= fun p => (additiveRest d p.1 p.2).view := by
  rw [parseAdditive.eq_2]
  exact view_seq _ _ fun _ h => h

theorem additiveRest_view_op {s : String} {op : BinOp} (hs : additiveOp? s = some op) :
    (additiveRest d l (.op s :: rest)).view =
      (parseTerm d rest).view >>= fun p => (additiveRest d (.binary op l p.1) p.2).view := by
  rw [additiveRest.eq_1]
  simp only [hs]
  exact view_seq _ (fun rt r => additiveRest d (.binary op l rt) r) (by intro r h; simp; omega)

theorem additiveRest_view_end (h : ∀ s rest, ts = .op s :: rest → additiveOp? s = none) :
    (additiveRest d l ts).view = pure (l, ts) := by
  rcases ts with _ | ⟨_ | _ | s, rest⟩
  case cons.op =>
    rw [additiveRest.eq_1]
    simp only [h s rest rfl]
    rfl
  all_goals
    rw [additiveRest.eq_2]
    · rfl
    · intro s r he; cases he

theorem parseTerm_view :
    (parseTerm (d + 1) ts).view = (parseUnary d ts).view >>= fun p => (termRest d p.1 p.2).view := by
  rw [parseTerm.eq_2]
  exact view_seq _ _ fun _ h => h

theorem termRest_view_op {s : String} {op : BinOp} (hs : multiplicativeOp? s = some op) :
    (termRest d l (.op s :: rest)).view =
      (parseUnary d rest).view >>= fun p => (termRest d (.binary op l p.1) p.2).view := by
  rw [termRest.eq_1]
  simp only [hs]
  exact view_seq _ (fun rt r => termRest d (.binary op l rt) r) (by intro r h; simp; omega)

theorem termRest_view_end (h : ∀ s rest, ts = .op s :: rest → multiplicativeOp? s = none) :
    (termRest d l ts).view = pure (l, ts) := by
  rcases ts with _ | ⟨_ | _ | s, rest⟩
  case cons.op =>
    rw [termRest.eq_1]
    simp only [h s rest rfl]
    rfl
  all_goals
    rw [termRest.eq_2]
    · rfl
    · intro s r he; cases he

theorem parseUnary_view_neg :
    (parseUnary (d + 1) (.op "-" :: rest)).view =
      (parseUnary d rest).view >>= fun p => pure (.unary .neg p.1, p.2) := by
  rw [parseUnary.eq_2]
  rcases parseUnary d rest with e | ⟨t, r, h⟩ <;> rfl

theorem parseUnary_view_pos :
    (parseUnary (d + 1) (.op "+" :: rest)).view =
      (parseUnary d rest).view >>= fun p => pure (.unary .pos p.1, p.2) := by
  rw [parseUnary.eq_3]
  rcases parseUnary d rest with e | ⟨t, r, h⟩ <;> rfl

theorem parseUnary_view_primary (h₁ : ∀ rest, ts ≠ .op "-" :: rest)
    (h₂ : ∀ rest, ts ≠ .op "+" :: rest) :
    (parseUnary (d + 1) ts).view = (parsePrimary d ts).view := by
  rw [parseUnary.eq_4 _ _ (fun rest he => h₁ rest he) (fun rest he => h₂ rest he)]

theorem parsePrimary_view_number (s : String) :
    (parsePrimary (d + 1) (.number s :: rest)).view = (fun v => (.num v, rest)) <$> numeralValue s := by
  rw [parsePrimary.eq_3]
  rcases numeralValue s with e | v <;> rfl

theorem parsePrimary_view_index (n : String) :
    (parsePrimary (d + 1) (.ident n :: .op "[" :: rest)).view =
      (parseOr d rest).view >>= fun p => closeWith "]" (.index n p.1) p.2 := by
  rw [parsePrimary.eq_4]
  rcases parseOr d rest with e | ⟨p, r, h⟩
  · rfl
  · show Parsed.view (expectOp "]" r >>= _ : Parsed (.ident n :: .op "[" :: rest)) = closeWith "]" _ r
    unfold closeWith
    rcases expectOp "]" r with e | r' <;> rfl

theorem parsePrimary_view_name (n : String) (h : ∀ r, rest ≠ .op "[" :: r) :
    (parsePrimary (d + 1) (.ident n :: rest)).view = pure (.var n, rest) := by
  rw [parsePrimary.eq_5 _ _ _ fun r he => h r he]; rfl

theorem parsePrimary_view_paren :
    (parsePrimary (d + 1) (.op "(" :: rest)).view =
      (parseOr d rest).view >>= fun p => closeWith ")" p.1 p.2 := by
  rw [parsePrimary.eq_6]
  rcases parseOr d rest with e | ⟨p, r, h⟩
  · rfl
  · show Parsed.view (expectOp ")" r >>= _ : Parsed (.op "(" :: rest)) = closeWith ")" _ r
    unfold closeWith
    rcases expectOp ")" r with e | r' <;> rfl

end Equations

/-- What the sign rule reads is the sign and what follows it. -/
theorem expectOp_ok {sym : String} {r : List Token} {r' : { u : List Token // u.length ≤ r.length }}
    (h : expectOp sym r = .ok r') : r = .op sym :: r'.1 := by
  unfold expectOp at h
  split at h
  · split at h
    · cases h
      subst_vars
      rfl
    · cases h
  · cases h
  · cases h

/-- A missing sign is a syntax error. -/
theorem expectOp_error {sym : String} {r : List Token} {e : ParseStop}
    (h : expectOp sym r = .error e) : ∃ se, e = .malformed se := by
  unfold expectOp at h
  split at h
  · split at h
    · cases h
    · cases h; exact ⟨_, rfl⟩
  · cases h; exact ⟨_, rfl⟩
  · cases h; exact ⟨_, rfl⟩

theorem closeWith_sign (sym : String) (e : Expr) (rest : List Token) :
    closeWith sym e (.op sym :: rest) = .ok (e, rest) := by
  simp [closeWith, expectOp]
  rfl

/-! ## Soundness -/

/-- Reading `ts` gave `x`: what it returns was derived by `G` from the tokens it
consumed, all of which can be read, and it faults only at a token of `ts` that cannot. -/
structure Derives (G : List Token → Expr → Prop) (ts : List Token)
    (x : Except ParseStop (Expr × List Token)) : Prop where
  ok : ∀ {t r}, x = .ok (t, r) → ∃ pre, ts = pre ++ r ∧ G pre t ∧ AllReadable pre
  fault : ∀ {f}, x = .error (.fault f) → ∃ tk ∈ ts, ¬tk.Readable

namespace Derives

variable {G G' : List Token → Expr → Prop} {ts : List Token}

theorem malformed (e : SyntaxError) : Derives G ts (.error (.malformed e)) :=
  ⟨fun h => (nomatch h), fun h => (nomatch h)⟩

theorem pure {pre r : List Token} {t : Expr} (h : G pre t) (hts : ts = pre ++ r)
    (hn : AllReadable pre) : Derives G ts (Pure.pure (t, r)) :=
  ⟨fun he => by cases he; exact ⟨pre, hts, h, hn⟩, fun he => (nomatch he)⟩

/-- A tail that took no tokens. -/
theorem rest {H : List Token → Expr → Prop} {t : Expr} (h : H [] t) : Derives H ts (Pure.pure (t, ts)) :=
  pure h (List.nil_append _).symm allReadable_nil

theorem imp {x : Except ParseStop (Expr × List Token)} (h : Derives G ts x)
    (himp : ∀ {pre t}, G pre t → G' pre t) : Derives G' ts x :=
  ⟨fun he => by obtain ⟨pre, hts, hg, hn⟩ := h.ok he; exact ⟨pre, hts, himp hg, hn⟩, h.fault⟩

/-- A rule that reads `G` from `us` and then, after a tree `a`, `G' a` from what is
left, reads `H` from `hd ++ us`, the signs `hd` read before. -/
theorem bind {G' : Expr → List Token → Expr → Prop} {H : List Token → Expr → Prop}
    (hd : List Token) (hhd : AllReadable hd) {us : List Token}
    {x : Except ParseStop (Expr × List Token)}
    {k : Expr → List Token → Except ParseStop (Expr × List Token)}
    (hx : Derives G us x) (hk : ∀ a r, r.length ≤ us.length → Derives (G' a) r (k a r))
    (hH : ∀ {pre a q t}, G pre a → G' a q t → H (hd ++ (pre ++ q)) t) :
    Derives H (hd ++ us) (x >>= fun p => k p.1 p.2) := by
  constructor
  · intro t r he
    rcases hxa : x with e | ⟨a, mid⟩
    · rw [hxa] at he; cases he
    · rw [hxa] at he
      obtain ⟨pre, rfl, hg, hn⟩ := hx.ok hxa
      obtain ⟨q, rfl, hg', hn'⟩ := (hk a mid (by simp)).ok he
      exact ⟨hd ++ (pre ++ q), by simp, hH hg hg', by simp [hhd, hn, hn']⟩
  · intro f he
    rcases hxa : x with e | ⟨a, mid⟩
    · rw [hxa] at he
      cases he
      obtain ⟨tk, hm, hr⟩ := hx.fault hxa
      exact ⟨tk, List.mem_append_right _ hm, hr⟩
    · rw [hxa] at he
      obtain ⟨pre, rfl, -⟩ := hx.ok hxa
      obtain ⟨tk, hm, hr⟩ := (hk a mid (by simp)).fault he
      exact ⟨tk, by simp [hm], hr⟩

/-- Binding with no sign read before. -/
theorem seq {G' : Expr → List Token → Expr → Prop} {H : List Token → Expr → Prop}
    {x : Except ParseStop (Expr × List Token)}
    {k : Expr → List Token → Except ParseStop (Expr × List Token)}
    (hx : Derives G ts x) (hk : ∀ a r, r.length ≤ ts.length → Derives (G' a) r (k a r))
    (hH : ∀ {pre a q t}, G pre a → G' a q t → H (pre ++ q) t) :
    Derives H ts (x >>= fun p => k p.1 p.2) := by
  simpa using bind [] allReadable_nil hx hk hH

/-- A rule that reads `G` from `us` and builds `f` of its tree, the signs `hd` read
before. -/
theorem after {H : List Token → Expr → Prop} (hd : List Token) (hhd : AllReadable hd)
    {us : List Token} {x : Except ParseStop (Expr × List Token)} (f : Expr → Expr)
    (hx : Derives G us x) (hH : ∀ {pre a}, G pre a → H (hd ++ pre) (f a)) :
    Derives H (hd ++ us) (x >>= fun p => Pure.pure (f p.1, p.2)) := by
  refine bind hd hhd hx
    (fun a r _ => (rest ⟨rfl, rfl⟩ : Derives (fun q t => q = [] ∧ t = f a) r _)) ?_
  rintro pre a q t hg ⟨rfl, rfl⟩
  simpa using hH hg

end Derives

/-- Trailing `¬` signs read after `c` are a `NotTail` of `c`. -/
theorem trailingNots_derives (c : Expr) (r : List Token) :
    ∃ pre, r = pre ++ (trailingNots c r).2 ∧ NotTail c pre (trailingNots c r).1 ∧
      AllReadable pre := by
  induction r generalizing c with
  | nil => exact ⟨[], rfl, .nil, allReadable_nil⟩
  | cons tk r ih =>
    by_cases htk : tk = .op "¬"
    · subst htk
      obtain ⟨pre, hr, hn, hpre⟩ := ih (.unary .not c)
      refine ⟨.op "¬" :: pre, ?_, ?_, by simpa using hpre⟩
      · simp only [trailingNots, postfixNot] at hr ⊢
        rw [List.cons_append, ← hr]
      · simp only [trailingNots, postfixNot] at hn ⊢
        exact .cons hn
    · have hp : postfixNot c (tk :: r) = (c, ⟨tk :: r, Nat.le_refl _⟩) :=
        postfixNot.eq_2 _ _ fun rest he => htk (List.cons.inj he).1
      refine ⟨[], ?_, ?_, allReadable_nil⟩ <;> simp only [trailingNots, hp]
      · rfl
      · exact .nil

theorem trailingNots_pure (c : Expr) (r : List Token) :
    Derives (NotTail c) r (pure (trailingNots c r)) := by
  obtain ⟨pre, hr, hn, hpre⟩ := trailingNots_derives c r
  exact .pure hn hr hpre

/-- What follows the first operand `l` of a comparison: nothing, or an operator and a
second operand. -/
def CmpRest (l : Expr) (q : List Token) (t : Expr) : Prop :=
  (q = [] ∧ t = l) ∨
    ∃ s op us r, q = .op s :: us ∧ comparisonOp? s = some op ∧ AddExpr us r ∧ t = .binary op l r

theorem compareRest_derives {d : Nat} (h : ∀ ts, Derives AddExpr ts (parseAdditive d ts).view)
    (l : Expr) (r : List Token) : Derives (CmpRest l) r (compareRest d l r) := by
  rcases r with _ | ⟨_ | _ | s, rest⟩
  case cons.op =>
    rcases hs : comparisonOp? s with _ | op
    · simp only [compareRest, hs]
      exact .rest (Or.inl ⟨rfl, rfl⟩)
    · simp only [compareRest, hs]
      exact Derives.after [.op s] (by simp) (.binary op l) (h rest)
        fun ha => .inr ⟨s, op, _, _, rfl, hs, ha, rfl⟩
  all_goals exact .rest (Or.inl ⟨rfl, rfl⟩)

theorem closeWith_derives (sym : String) (e : Expr) (r : List Token) :
    Derives (fun q t => q = [.op sym] ∧ t = e) r (closeWith sym e r) := by
  unfold closeWith
  constructor
  · intro t r' he
    rcases hx : expectOp sym r with err | u
    · rw [hx] at he; cases he
    · rw [hx] at he
      cases he
      exact ⟨[.op sym], expectOp_ok hx, ⟨rfl, rfl⟩, by simp⟩
  · intro f he
    rcases hx : expectOp sym r with err | u
    · rw [hx] at he
      cases he
      obtain ⟨se, hse⟩ := expectOp_error hx
      cases hse
    · rw [hx] at he; cases he

/-- The reader is sound for the grammar at every depth: each rule returns a tree the
grammar derives from the readable tokens it consumed, and faults only at an unreadable
numeral. -/
theorem reader_sound :
    (∀ d ts, Derives OrExpr ts (parseOr d ts).view) ∧
    (∀ d l ts, Derives (OrTail l) ts (orRest d l ts).view) ∧
    (∀ d ts, Derives AndExpr ts (parseAnd d ts).view) ∧
    (∀ d l ts, Derives (AndTail l) ts (andRest d l ts).view) ∧
    (∀ d ts, Derives NotExpr ts (parseNot d ts).view) ∧
    (∀ d ts, Derives CmpExpr ts (parseComparison d ts).view) ∧
    (∀ d ts, Derives AddExpr ts (parseAdditive d ts).view) ∧
    (∀ d l ts, Derives (AddTail l) ts (additiveRest d l ts).view) ∧
    (∀ d ts, Derives MulExpr ts (parseTerm d ts).view) ∧
    (∀ d l ts, Derives (MulTail l) ts (termRest d l ts).view) ∧
    (∀ d ts, Derives UnaryExpr ts (parseUnary d ts).view) ∧
    (∀ d ts, Derives PrimaryExpr ts (parsePrimary d ts).view) := by
  apply parseOr.mutual_induct
    (fun d ts => Derives OrExpr ts (parseOr d ts).view)
    (fun d l ts => Derives (OrTail l) ts (orRest d l ts).view)
    (fun d ts => Derives AndExpr ts (parseAnd d ts).view)
    (fun d l ts => Derives (AndTail l) ts (andRest d l ts).view)
    (fun d ts => Derives NotExpr ts (parseNot d ts).view)
    (fun d ts => Derives CmpExpr ts (parseComparison d ts).view)
    (fun d ts => Derives AddExpr ts (parseAdditive d ts).view)
    (fun d l ts => Derives (AddTail l) ts (additiveRest d l ts).view)
    (fun d ts => Derives MulExpr ts (parseTerm d ts).view)
    (fun d l ts => Derives (MulTail l) ts (termRest d l ts).view)
    (fun d ts => Derives UnaryExpr ts (parseUnary d ts).view)
    (fun d ts => Derives PrimaryExpr ts (parsePrimary d ts).view)
  -- or
  case _ => intro ts; rw [parseOr_zero_view]; exact .malformed _
  case _ =>
    intro ts d ha hr
    rw [parseOr_view]
    exact ha.seq (fun a r _ => hr a r) .chain
  case _ =>
    intro d l rest ha hr
    rw [orRest_view_or]
    exact Derives.bind [_] (by simp) ha hr .cons
  case _ =>
    intro d l ts hts
    rw [orRest_view_end _ _ _ fun rest he => hts rest he]
    exact .rest .nil
  -- and
  case _ => intro ts; rw [parseAnd_zero_view]; exact .malformed _
  case _ =>
    intro ts d hn hr
    rw [parseAnd_view]
    exact hn.seq (fun a r _ => hr a r) .chain
  case _ =>
    intro d l rest hn hr
    rw [andRest_view_and]
    exact Derives.bind [_] (by simp) hn hr .cons
  case _ =>
    intro d l ts hts
    rw [andRest_view_end _ _ _ fun rest he => hts rest he]
    exact .rest .nil
  -- not
  case _ => intro ts; rw [parseNot_zero_view]; exact .malformed _
  case _ =>
    intro d rest hn
    rw [parseNot_view_leading _ _ (.inl rfl)]
    exact Derives.after [_] (by simp) (.unary .not) hn (.leading (.inl rfl))
  case _ =>
    intro d rest hn
    rw [parseNot_view_leading _ _ (.inr rfl)]
    exact Derives.after [_] (by simp) (.unary .not) hn (.leading (.inr rfl))
  case _ =>
    intro d ts h₁ h₂ hc
    rw [parseNot_view_trailing _ _ (fun rest he => h₁ rest he) (fun rest he => h₂ rest he)]
    exact hc.seq (fun c r _ => trailingNots_pure c r) .trailing
  -- comparison
  case _ => intro ts; rw [parseComparison_zero_view]; exact .malformed _
  case _ =>
    intro ts d ha ha'
    rw [parseComparison_view]
    refine ha.seq (fun l r _ => compareRest_derives (fun rest => ha' ts rest) l r) ?_
    rintro pre l q t hl (⟨rfl, rfl⟩ | ⟨s, op, us, r, rfl, hs, hr, rfl⟩)
    · simpa using CmpExpr.single hl
    · exact .compare hl hs hr
  -- additive
  case _ => intro ts; rw [parseAdditive_zero_view]; exact .malformed _
  case _ =>
    intro ts d hm hr
    rw [parseAdditive_view]
    exact hm.seq (fun a r _ => hr a r) .chain
  case _ =>
    intro d l s rest op hs hm hr
    rw [additiveRest_view_op _ _ _ hs]
    exact Derives.bind [_] (by simp) hm hr (.cons hs)
  case _ =>
    intro d l s rest hs
    rw [additiveRest_view_end _ _ _ fun s' rest' he => by cases he; exact hs]
    exact .rest .nil
  case _ =>
    intro d l ts hts
    rw [additiveRest_view_end _ _ _ fun s rest he => absurd he (hts s rest)]
    exact .rest .nil
  -- term
  case _ => intro ts; rw [parseTerm_zero_view]; exact .malformed _
  case _ =>
    intro ts d hu hr
    rw [parseTerm_view]
    exact hu.seq (fun a r _ => hr a r) .chain
  case _ =>
    intro d l s rest op hs hu hr
    rw [termRest_view_op _ _ _ hs]
    exact Derives.bind [_] (by simp) hu hr (.cons hs)
  case _ =>
    intro d l s rest hs
    rw [termRest_view_end _ _ _ fun s' rest' he => by cases he; exact hs]
    exact .rest .nil
  case _ =>
    intro d l ts hts
    rw [termRest_view_end _ _ _ fun s rest he => absurd he (hts s rest)]
    exact .rest .nil
  -- unary
  case _ => intro ts; rw [parseUnary_zero_view]; exact .malformed _
  case _ =>
    intro d rest hu
    rw [parseUnary_view_neg]
    exact Derives.after [_] (by simp) (.unary .neg) hu .neg
  case _ =>
    intro d rest hu
    rw [parseUnary_view_pos]
    exact Derives.after [_] (by simp) (.unary .pos) hu .pos
  case _ =>
    intro d ts h₁ h₂ hp
    rw [parseUnary_view_primary _ _ (fun rest he => h₁ rest he) (fun rest he => h₂ rest he)]
    exact hp.imp .primary
  -- primary
  case _ => intro ts; rw [parsePrimary_zero_view]; exact .malformed _
  case _ => intro d; rw [parsePrimary.eq_2]; exact .malformed _
  case _ =>
    intro d s rest
    rw [parsePrimary_view_number, numeralValue_eq]
    split
    · next hs => exact .pure .number rfl (by simpa [Token.Readable] using hs)
    · next hs => exact ⟨fun he => (nomatch he), fun _ => ⟨.number s, List.mem_cons_self, hs⟩⟩
  case _ =>
    intro d n rest ho
    rw [parsePrimary_view_index]
    exact Derives.bind [_, _] (by simp) ho (fun a r _ => closeWith_derives "]" (.index n a) r)
      fun hg ⟨hq, ht⟩ => by subst hq ht; simpa using PrimaryExpr.index hg
  case _ =>
    intro d n rest hr
    rw [parsePrimary_view_name _ _ _ fun r he => hr r he]
    exact .pure .name rfl (by simp)
  case _ =>
    intro d rest ho
    rw [parsePrimary_view_paren]
    exact Derives.bind [_] (by simp) ho (fun a r _ => closeWith_derives ")" a r)
      fun hg ⟨hq, ht⟩ => by subst hq ht; simpa using PrimaryExpr.paren hg
  case _ =>
    intro d t tail h₁ h₂ h₃ h₄
    rw [parsePrimary.eq_7 _ _ _ h₁ h₂ h₃ h₄]
    exact .malformed _

end DnclTrace.Expr
