import DnclTrace.Proofs.Expr.Reading
import DnclTrace.Expr.Source

/-!
# Every sentence is read

The other direction: what the grammar derives, the reader reads, as long as its rules
may nest deep enough. Each rule entered costs one unit of depth, and from the `or` rule
down to a primary there are eight, so a sentence of `n` tokens, whose brackets and
leading signs nest fewer than `n` deep, is read whole at any depth of at least `8 * n`.
At less depth the reader may stop, but only because the rules nested too deep
(`SyntaxError.tooDeep`): it never takes a sentence for something else.

The induction is on the derivation, with the tokens after the operand left open: they
only have to end it (`Ends`), and the tails' and operands' first tokens see to that
between the parts of a derivation. `Reads` records the answer: the derived tree with
those tokens left, or the stop for depth, when the depth was short of the bound.

Main statement: `parseTokens_grammar`. The reader returns a tree exactly for a sentence
of the grammar, and that sentence's one tree, at any depth that fits its nesting and
when its integer numerals are short enough to read; at less depth it stops only for the
depth, and a list of readable tokens that is no sentence gets a syntax error.

A sentence is thus missed in two ways only: inside more brackets than the allowance
covers (`bracketed_sentence_stops_for_depth`), and with an integer numeral of more than
`digitLimit` digits, where the reading faults (`long_numeral_sentence_faults`).
-/

namespace DnclTrace.Expr

open Grammar

/-- Reading gave the tree `t` with `rest` left; or it stopped because the rules nested
too deep, when `short` says the depth was short. -/
def Reads (x : Except ParseStop (Expr × List Token)) (t : Expr) (rest : List Token)
    (short : Prop) : Prop :=
  x = .ok (t, rest) ∨ (x = .error (.malformed .tooDeep) ∧ short)

namespace Reads

variable {t a : Expr} {rest mid : List Token} {P Q R : Prop}

theorem ok : Reads (.ok (t, rest)) t rest P := .inl rfl

theorem tooDeep (h : P) : Reads (.error (.malformed .tooDeep)) t rest P := .inr ⟨rfl, h⟩

theorem bind {x : Except ParseStop (Expr × List Token)}
    {k : Expr × List Token → Except ParseStop (Expr × List Token)}
    (hx : Reads x a mid P) (hk : Reads (k (a, mid)) t rest Q) (hP : P → R) (hQ : Q → R) :
    Reads (x >>= k) t rest R := by
  rcases hx with rfl | ⟨rfl, hp⟩
  · rcases hk with hk | ⟨hk, hq⟩
    · exact .inl hk
    · exact .inr ⟨hk, hQ hq⟩
  · exact .inr ⟨rfl, hP hp⟩

theorem mono {x : Except ParseStop (Expr × List Token)} (hx : Reads x t rest P) (hP : P → Q) :
    Reads x t rest Q := by
  rcases hx with hx | ⟨hx, hp⟩
  · exact .inl hx
  · exact .inr ⟨hx, hP hp⟩

theorem after {x : Except ParseStop (Expr × List Token)} (f : Expr → Expr)
    (hx : Reads x a rest P) (hP : P → R) :
    Reads (x >>= fun p => pure (f p.1, p.2)) (f a) rest R := by
  rcases hx with rfl | ⟨rfl, hp⟩
  · exact .inl rfl
  · exact .inr ⟨rfl, hP hp⟩

end Reads

namespace Grammar

/-- Trailing `¬` signs that `rest` does not continue are read whole. -/
theorem NotTail.trailingNots_eq {c t : Expr} {us : List Token} (h : NotTail c us t)
    {rest : List Token} (hr : Ends notSigns rest) : trailingNots c (us ++ rest) = (t, rest) := by
  induction h with
  | @nil c =>
    have : postfixNot c rest = (c, ⟨rest, Nat.le_refl _⟩) :=
      postfixNot.eq_2 _ _ fun r he => hr.ne_op (by decide) r he
    simp only [trailingNots, List.nil_append, this]
  | cons _ ih =>
    simp only [trailingNots, List.cons_append] at ih ⊢
    exact ih

end Grammar

/-- A comparison that `rest` does not continue ends after its first operand. -/
theorem compareRest_end (d : Nat) (l : Expr) {rest : List Token} (hr : Ends cmpSigns rest) :
    compareRest d l rest = pure (l, rest) := by
  rcases rest with _ | ⟨_ | _ | s, rest⟩
  case cons.op => simp only [compareRest, comparisonOp?_of_ends hr]
  all_goals rfl

/-! ## Completeness, level by level

Each lemma reads one level's derivation followed by tokens that end it. The depth bound
is `8 * n` less the rules already entered above the level, and the short-depth case
carries the same bound. -/

namespace Grammar

mutual

theorem OrExpr.reads {pre : List Token} {t : Expr} (h : OrExpr pre t) {d : Nat}
    {rest : List Token} (hr : Ends orSigns rest) (hn : AllReadable pre) :
    Reads (parseOr d (pre ++ rest)).view t rest (d < 8 * pre.length) := by
  match h with
  | .chain ha ht =>
    have hpos := ha.length_pos
    simp only [allReadable_append] at hn
    cases d with
    | zero => rw [parseOr_zero_view]; exact .tooDeep (by simp; omega)
    | succ d =>
      rw [List.append_assoc, parseOr_view]
      have hmid := (hr.mono (List.subset_cons_self _ _)).append ht.opens
      exact (ha.reads hmid hn.1).bind (ht.reads hr hn.2) (by simp; omega) (by simp; omega)

theorem OrTail.reads {l : Expr} {pre : List Token} {t : Expr} (h : OrTail l pre t) {d : Nat}
    {rest : List Token} (hr : Ends orSigns rest) (hn : AllReadable pre) :
    Reads (orRest d l (pre ++ rest)).view t rest (d + 1 < 8 * pre.length) := by
  match h with
  | .nil =>
    rw [List.nil_append, orRest_view_end _ _ _ (hr.ne_op (by decide))]
    exact .ok
  | .cons ha ht =>
    simp only [allReadable_cons, allReadable_append] at hn
    rw [List.cons_append, List.append_assoc, orRest_view_or]
    have hmid := (hr.mono (List.subset_cons_self _ _)).append ht.opens
    exact (ha.reads hmid hn.2.1).bind (ht.reads hr hn.2.2) (by simp; omega) (by simp; omega)

theorem AndExpr.reads {pre : List Token} {t : Expr} (h : AndExpr pre t) {d : Nat}
    {rest : List Token} (hr : Ends andSigns rest) (hn : AllReadable pre) :
    Reads (parseAnd d (pre ++ rest)).view t rest (d + 1 < 8 * pre.length) := by
  match h with
  | .chain hnot ht =>
    have hpos := hnot.length_pos
    simp only [allReadable_append] at hn
    cases d with
    | zero => rw [parseAnd_zero_view]; exact .tooDeep (by simp; omega)
    | succ d =>
      rw [List.append_assoc, parseAnd_view]
      have hmid := (hr.mono (List.subset_cons_self _ _)).append ht.opens
      exact (hnot.reads hmid hn.1).bind (ht.reads hr hn.2) (by simp; omega) (by simp; omega)

theorem AndTail.reads {l : Expr} {pre : List Token} {t : Expr} (h : AndTail l pre t) {d : Nat}
    {rest : List Token} (hr : Ends andSigns rest) (hn : AllReadable pre) :
    Reads (andRest d l (pre ++ rest)).view t rest (d + 2 < 8 * pre.length) := by
  match h with
  | .nil =>
    rw [List.nil_append, andRest_view_end _ _ _ (hr.ne_op (by decide))]
    exact .ok
  | .cons hnot ht =>
    simp only [allReadable_cons, allReadable_append] at hn
    rw [List.cons_append, List.append_assoc, andRest_view_and]
    have hmid := (hr.mono (List.subset_cons_self _ _)).append ht.opens
    exact (hnot.reads hmid hn.2.1).bind (ht.reads hr hn.2.2) (by simp; omega) (by simp; omega)

theorem NotExpr.reads {pre : List Token} {t : Expr} (h : NotExpr pre t) {d : Nat}
    {rest : List Token} (hr : Ends notSigns rest) (hn : AllReadable pre) :
    Reads (parseNot d (pre ++ rest)).view t rest (d + 2 < 8 * pre.length) := by
  match h with
  | .leading hs hnot =>
    simp only [allReadable_cons] at hn
    cases d with
    | zero => rw [parseNot_zero_view]; exact .tooDeep (by simp; omega)
    | succ d =>
      rw [List.cons_append, parseNot_view_leading _ _ hs]
      exact (hnot.reads hr hn.2).after _ (by simp; omega)
  | .trailing hc ht =>
    have hlead := hc.leads
    simp only [allReadable_append] at hn
    cases d with
    | zero =>
      have hpos := hlead.length_pos
      rw [parseNot_zero_view]; exact .tooDeep (by simp; omega)
    | succ d =>
      rw [List.append_assoc, parseNot_view_trailing _ _
        (fun r => (hlead.append _).ne_op (by decide) r) (fun r => (hlead.append _).ne_op (by decide) r)]
      have hmid := (hr.mono (List.subset_cons_self _ _)).append ht.opens
      refine (hc.reads hmid hn.1).bind ?_ (by simp; omega) False.elim
      rw [ht.trailingNots_eq hr]
      exact .ok

theorem CmpExpr.reads {pre : List Token} {t : Expr} (h : CmpExpr pre t) {d : Nat}
    {rest : List Token} (hr : Ends cmpSigns rest) (hn : AllReadable pre) :
    Reads (parseComparison d (pre ++ rest)).view t rest (d + 3 < 8 * pre.length) := by
  have hpos := h.leads.length_pos
  cases d with
  | zero => rw [parseComparison_zero_view]; exact .tooDeep (by omega)
  | succ d =>
    rw [parseComparison_view]
    match h with
    | .single ha =>
      refine (ha.reads (hr.mono (List.subset_append_right _ _)) hn).bind ?_ (by omega) False.elim
      rw [compareRest_end _ _ hr]
      exact .ok
    | @CmpExpr.compare _ us s _ _ _ ha hs hb =>
      simp only [allReadable_append, allReadable_cons] at hn
      rw [List.append_assoc, List.cons_append]
      have hmid : Ends addSigns (.op s :: (us ++ rest)) := not_mem_addSigns hs
      refine (ha.reads hmid hn.1).bind ?_ (by simp; omega) id
      simp only [compareRest, hs]
      exact (hb.reads (hr.mono (List.subset_append_right _ _)) hn.2.2).after _ (by simp; omega)

theorem AddExpr.reads {pre : List Token} {t : Expr} (h : AddExpr pre t) {d : Nat}
    {rest : List Token} (hr : Ends addSigns rest) (hn : AllReadable pre) :
    Reads (parseAdditive d (pre ++ rest)).view t rest (d + 4 < 8 * pre.length) := by
  match h with
  | .chain hm ht =>
    have hpos := hm.leads.length_pos
    simp only [allReadable_append] at hn
    cases d with
    | zero => rw [parseAdditive_zero_view]; exact .tooDeep (by simp; omega)
    | succ d =>
      rw [List.append_assoc, parseAdditive_view]
      have hmid := (hr.mono (List.subset_append_right _ _)).append ht.opens
      exact (hm.reads hmid hn.1).bind (ht.reads hr hn.2) (by simp; omega) (by simp; omega)

theorem AddTail.reads {l : Expr} {pre : List Token} {t : Expr} (h : AddTail l pre t) {d : Nat}
    {rest : List Token} (hr : Ends addSigns rest) (hn : AllReadable pre) :
    Reads (additiveRest d l (pre ++ rest)).view t rest (d + 5 < 8 * pre.length) := by
  match h with
  | .nil =>
    rw [List.nil_append, additiveRest_view_end _ _ _ fun s r he => by
      subst he; exact additiveOp?_of_ends hr]
    exact .ok
  | .cons hs hm ht =>
    simp only [allReadable_cons, allReadable_append] at hn
    rw [List.cons_append, List.append_assoc, additiveRest_view_op _ _ _ hs]
    have hmid := (hr.mono (List.subset_append_right _ _)).append ht.opens
    exact (hm.reads hmid hn.2.1).bind (ht.reads hr hn.2.2) (by simp; omega) (by simp; omega)

theorem MulExpr.reads {pre : List Token} {t : Expr} (h : MulExpr pre t) {d : Nat}
    {rest : List Token} (hr : Ends mulSigns rest) (hn : AllReadable pre) :
    Reads (parseTerm d (pre ++ rest)).view t rest (d + 5 < 8 * pre.length) := by
  match h with
  | .chain hu ht =>
    have hpos := hu.leads.length_pos
    simp only [allReadable_append] at hn
    cases d with
    | zero => rw [parseTerm_zero_view]; exact .tooDeep (by simp; omega)
    | succ d =>
      rw [List.append_assoc, parseTerm_view]
      have hmid := (hr.mono (List.subset_append_right _ _)).append ht.opens
      exact (hu.reads hmid hn.1).bind (ht.reads hr hn.2) (by simp; omega) (by simp; omega)

theorem MulTail.reads {l : Expr} {pre : List Token} {t : Expr} (h : MulTail l pre t) {d : Nat}
    {rest : List Token} (hr : Ends mulSigns rest) (hn : AllReadable pre) :
    Reads (termRest d l (pre ++ rest)).view t rest (d + 6 < 8 * pre.length) := by
  match h with
  | .nil =>
    rw [List.nil_append, termRest_view_end _ _ _ fun s r he => by
      subst he; exact multiplicativeOp?_of_ends hr]
    exact .ok
  | .cons hs hu ht =>
    simp only [allReadable_cons, allReadable_append] at hn
    rw [List.cons_append, List.append_assoc, termRest_view_op _ _ _ hs]
    have hmid := (hr.mono (List.subset_append_right _ _)).append ht.opens
    exact (hu.reads hmid hn.2.1).bind (ht.reads hr hn.2.2) (by simp; omega) (by simp; omega)

theorem UnaryExpr.reads {pre : List Token} {t : Expr} (h : UnaryExpr pre t) {d : Nat}
    {rest : List Token} (hr : Ends primarySigns rest) (hn : AllReadable pre) :
    Reads (parseUnary d (pre ++ rest)).view t rest (d + 6 < 8 * pre.length) := by
  have hpos := h.leads.length_pos
  cases d with
  | zero => rw [parseUnary_zero_view]; exact .tooDeep (by omega)
  | succ d =>
    match h with
    | .neg hu =>
      simp only [allReadable_cons] at hn
      rw [List.cons_append, parseUnary_view_neg]
      exact (hu.reads hr hn.2).after _ (by simp; omega)
    | .pos hu =>
      simp only [allReadable_cons] at hn
      rw [List.cons_append, parseUnary_view_pos]
      exact (hu.reads hr hn.2).after _ (by simp; omega)
    | .primary hp =>
      have hlead := hp.leads.append rest
      rw [parseUnary_view_primary _ _ (hlead.ne_op (by decide)) (hlead.ne_op (by decide))]
      exact (hp.reads hr hn).mono (by omega)

theorem PrimaryExpr.reads {pre : List Token} {t : Expr} (h : PrimaryExpr pre t) {d : Nat}
    {rest : List Token} (hr : Ends primarySigns rest) (hn : AllReadable pre) :
    Reads (parsePrimary d (pre ++ rest)).view t rest (d + 7 < 8 * pre.length) := by
  have hpos := h.leads.length_pos
  cases d with
  | zero => rw [parsePrimary_zero_view]; exact .tooDeep (by omega)
  | succ d =>
    match h with
    | .number =>
      simp only [allReadable_cons] at hn
      rw [List.cons_append, List.nil_append, parsePrimary_view_number, numeralValue_eq,
        if_pos (show NumeralReadable _ from hn.1)]
      exact .ok
    | .name =>
      rw [List.cons_append, List.nil_append,
        parsePrimary_view_name _ _ _ (hr.ne_op (by decide))]
      exact .ok
    | .index ho =>
      simp only [allReadable_cons, allReadable_append] at hn
      rw [List.cons_append, List.cons_append, List.append_assoc, List.singleton_append,
        parsePrimary_view_index]
      have hclose : Ends orSigns (.op "]" :: rest) := show "]" ∉ orSigns by decide
      refine (ho.reads hclose hn.2.2.1).bind ?_ (by simp; omega) False.elim
      rw [closeWith_sign]
      exact .ok
    | .paren ho =>
      simp only [allReadable_cons, allReadable_append] at hn
      rw [List.cons_append, List.append_assoc, List.singleton_append, parsePrimary_view_paren]
      have hclose : Ends orSigns (.op ")" :: rest) := show ")" ∉ orSigns by decide
      refine (ho.reads hclose hn.2.1).bind ?_ (by simp; omega) False.elim
      rw [closeWith_sign]
      exact .ok

end

end Grammar

/-! ## Whole token lists -/

/-- A whole token list is read as its first expression, which must take every token. -/
theorem parseTokens_view (a : Nat) {ts : List Token} (h : ts ≠ []) :
    parseTokens a ts = (parseOr a ts).view >>= fun p =>
      match p.2 with
      | [] => pure p.1
      | tk :: _ => throw (.malformed (.leftover tk.text)) := by
  have hne : ts.isEmpty = false := List.isEmpty_eq_false_iff.2 h
  unfold parseTokens
  rw [hne]
  rcases parseOr a ts with e | ⟨t, r, hr⟩
  · rfl
  · rcases r with _ | ⟨tk, r⟩ <;> rfl

/-- A tree read from a whole token list is the tree of a sentence, and every token of it
can be read. -/
theorem parseTokens_sound {a : Nat} {ts : List Token} {t : Expr} (h : parseTokens a ts = .ok t) :
    OrExpr ts t ∧ AllReadable ts := by
  have hne : ts ≠ [] := by
    rintro rfl
    cases h
  rw [parseTokens_view a hne] at h
  rcases hv : (parseOr a ts).view with e | ⟨t', r⟩
  · rw [hv] at h; cases h
  · rw [hv] at h
    rcases r with _ | ⟨tk, r⟩
    · cases h
      obtain ⟨pre, hts, hd, hn⟩ := (reader_sound.1 a ts).ok hv
      rw [List.append_nil] at hts
      exact hts ▸ ⟨hd, hn⟩
    · cases h

/-- Reading a whole token list faults only at a numeral it cannot read. -/
theorem parseTokens_fault {a : Nat} {ts : List Token} {f : Fault}
    (h : parseTokens a ts = .error (.fault f)) : ¬AllReadable ts := by
  have hne : ts ≠ [] := by
    rintro rfl
    cases h
  rw [parseTokens_view a hne] at h
  rcases hv : (parseOr a ts).view with e | ⟨t', r⟩
  · rw [hv] at h
    cases h
    obtain ⟨tk, hm, hr⟩ := (reader_sound.1 a ts).fault hv
    exact fun hn => hr (hn tk hm)
  · rw [hv] at h
    rcases r with _ | ⟨tk, r⟩ <;> cases h

/-- A sentence of readable tokens is read as its tree, unless the allowance is short of
eight levels for each token and the rules nested too deep for it. -/
theorem parseTokens_reads {a : Nat} {ts : List Token} {t : Expr} (h : OrExpr ts t)
    (hn : AllReadable ts) : parseTokens a ts = .ok t ∨
      (parseTokens a ts = .error (.malformed .tooDeep) ∧ a < 8 * ts.length) := by
  have hne : ts ≠ [] := List.ne_nil_of_length_pos h.length_pos
  have hr := h.reads (d := a) (ends_nil orSigns) hn
  rw [List.append_nil] at hr
  rw [parseTokens_view a hne]
  rcases hr with hv | ⟨hv, hshort⟩
  · rw [hv]
    exact .inl rfl
  · rw [hv]
    exact .inr ⟨rfl, hshort⟩

/-- A sentence of readable tokens has one tree: at an allowance of eight levels per token
the reader returns the tree of every derivation of it. -/
theorem Grammar.OrExpr.tree_unique {ts : List Token} {t t' : Expr} (hn : AllReadable ts)
    (h : OrExpr ts t) (h' : OrExpr ts t') : t = t' := by
  have whole : ∀ {u}, OrExpr ts u → parseTokens (8 * ts.length) ts = .ok u := fun hu =>
    (parseTokens_reads hu hn).resolve_right fun ⟨_, hlt⟩ => Nat.lt_irrefl _ hlt
  have := (whole h).symm.trans (whole h')
  cases this
  rfl

/-- The reader and the grammar agree on whole token lists. A tree the reader returns is
the tree of a derivation of the tokens, whose numerals can all be read. For tokens whose
integer numerals are short enough to read: a sentence is read as its tree unless the
rules nest deeper than the allowance, and then only if the allowance is short of eight
levels per token; a sentence has one tree; and tokens that are no sentence get a syntax
error. -/
theorem parseTokens_grammar (a : Nat) (ts : List Token) :
    (∀ t, parseTokens a ts = .ok t → OrExpr ts t ∧ AllReadable ts) ∧
    (AllReadable ts → ∀ t, OrExpr ts t → parseTokens a ts = .ok t ∨
      (parseTokens a ts = .error (.malformed .tooDeep) ∧ a < 8 * ts.length)) ∧
    (AllReadable ts → ∀ t t', OrExpr ts t → OrExpr ts t' → t = t') ∧
    (AllReadable ts → (∀ t, ¬OrExpr ts t) → ∃ e, parseTokens a ts = .error (.malformed e)) := by
  refine ⟨fun t => parseTokens_sound, fun hn t h => parseTokens_reads h hn,
    fun hn t t' h h' => h.tree_unique hn h', ?_⟩
  · intro hn hnot
    rcases hp : parseTokens a ts with e | t
    · cases e with
      | malformed e => exact ⟨e, rfl⟩
      | fault f => exact absurd hn (parseTokens_fault hp)
    · exact absurd (parseTokens_sound hp).1 (hnot t)

/-! ## A sentence nested too deep -/

namespace Grammar

/-- A sentence in `n` pairs of brackets is a sentence with the same tree. -/
theorem OrExpr.nested {ts : List Token} {e : Expr} (h : OrExpr ts e) (n : Nat) :
    OrExpr (List.replicate n (.op "(") ++ ts ++ List.replicate n (.op ")")) e := by
  induction n with
  | zero => simpa using h
  | succ n ih =>
    have hsplit : List.replicate (n + 1) (Token.op "(") ++ ts ++ List.replicate (n + 1) (.op ")") =
        .op "(" :: ((List.replicate n (.op "(") ++ ts ++ List.replicate n (.op ")")) ++ [.op ")"]) := by
      rw [List.replicate_succ, List.replicate_succ']
      simp only [List.cons_append, List.append_assoc]
    rw [hsplit]
    exact ih.paren

end Grammar

theorem paren_ne_op {ys : List Token} {s : String} (hs : s ≠ "(") (r : List Token) :
    Token.op "(" :: ys ≠ .op s :: r := fun he => hs (Token.op.inj (List.cons.inj he).1).symm

/-- An opening bracket is read eight rules down, by a primary: an error there ends the
reading. -/
theorem parseOr_paren_error {k : Nat} {ys : List Token} {e : ParseStop}
    (h : (parseOr k ys).view = .error e) : (parseOr (k + 8) (.op "(" :: ys)).view = .error e := by
  rw [parseOr_view, parseAnd_view, parseNot_view_trailing _ _ (paren_ne_op (by decide))
      (paren_ne_op (by decide)), parseComparison_view, parseAdditive_view, parseTerm_view,
    parseUnary_view_primary _ _ (paren_ne_op (by decide)) (paren_ne_op (by decide)),
    parsePrimary_view_paren, h]
  rfl

/-- Opening brackets, `n` of them, nest the rules more than `8 * n` deep. -/
theorem parseOr_opens_tooDeep (n : Nat) :
    ∀ d rest, d ≤ 8 * n →
      (parseOr d (List.replicate n (.op "(") ++ rest)).view = .error (.malformed .tooDeep) := by
  induction n with
  | zero =>
    intro d rest hd
    obtain rfl : d = 0 := by omega
    exact parseOr_zero_view _
  | succ n ih =>
    intro d rest hd
    rw [List.replicate_succ, List.cons_append]
    by_cases hge : 8 ≤ d
    · obtain ⟨k, rfl⟩ : ∃ k, d = k + 8 := ⟨d - 8, by omega⟩
      exact parseOr_paren_error (ih k rest (by omega))
    · -- the depth runs out before the bracket is read
      generalize List.replicate n (Token.op "(") ++ rest = ys
      have h₁ : ∀ r, Token.op "(" :: ys ≠ .op "!" :: r := paren_ne_op (by decide)
      have h₂ : ∀ r, Token.op "(" :: ys ≠ .op "¬" :: r := paren_ne_op (by decide)
      have h₃ : ∀ r, Token.op "(" :: ys ≠ .op "-" :: r := paren_ne_op (by decide)
      have h₄ : ∀ r, Token.op "(" :: ys ≠ .op "+" :: r := paren_ne_op (by decide)
      rcases d with _ | _ | _ | _ | _ | _ | _ | _ | d
      all_goals first
        | omega
        | simp only [parseOr_view, parseAnd_view, parseNot_view_trailing _ _ h₁ h₂,
            parseComparison_view, parseAdditive_view, parseTerm_view,
            parseUnary_view_primary _ _ h₃ h₄, parseOr_zero_view, parseAnd_zero_view,
            parseNot_zero_view, parseComparison_zero_view, parseAdditive_zero_view,
            parseTerm_zero_view, parseUnary_zero_view, parsePrimary_zero_view] <;> rfl

/-- A sentence in `n` pairs of brackets is a sentence with the same tree; but at an
allowance of at most eight levels per bracket the reader stops because the rules nested
too deep, before it reaches the sentence inside. -/
theorem bracketed_sentence_stops_for_depth {ts : List Token} {e : Expr} (h : OrExpr ts e)
    (n : Nat) :
    OrExpr (List.replicate n (.op "(") ++ ts ++ List.replicate n (.op ")")) e ∧
      ∀ a ≤ 8 * n,
        parseTokens a (List.replicate n (.op "(") ++ ts ++ List.replicate n (.op ")")) =
          .error (.malformed .tooDeep) := by
  refine ⟨h.nested n, fun a ha => ?_⟩
  have hne : List.replicate n (Token.op "(") ++ ts ++ List.replicate n (.op ")") ≠ [] :=
    List.append_ne_nil_of_left_ne_nil
      (List.append_ne_nil_of_right_ne_nil _ (List.ne_nil_of_length_pos h.length_pos)) _
  rw [parseTokens_view _ hne, List.append_assoc, parseOr_opens_tooDeep n a _ ha]
  rfl

/-! ## A numeral too long to read -/

/-- An integer numeral of more than `digitLimit` digits cannot be read. -/
theorem numeral_unreadable_of_long {n : Nat} (h : digitLimit < n) :
    ¬NumeralReadable (String.ofList (List.replicate n '1')) := by
  unfold NumeralReadable
  rw [String.toList_ofList, List.length_replicate, List.contains_replicate,
    show ('.' == '1') = false from rfl, Bool.false_and]
  simp only [Bool.false_eq_true, false_or, Nat.not_le]
  exact h

/-- An integer numeral of 4301 digits is a sentence, whose tree is the numeral's; but the
reader, at the allowance of an expression read from the top of a statement, cannot turn
more than `digitLimit` digits into an integer, and faults instead of giving the tree. -/
theorem long_numeral_sentence_faults :
    OrExpr [.number (String.ofList (List.replicate 4301 '1'))]
        (.num (numeralDenotes (String.ofList (List.replicate 4301 '1')))) ∧
      parseTokens (SourceExpr.allowance 5) [.number (String.ofList (List.replicate 4301 '1'))] =
        .error (.fault (.tooManyDigitsToRead 4301)) := by
  refine ⟨OrExpr.of_unary (.primary .number), ?_⟩
  have hvalue : numeralValue (String.ofList (List.replicate 4301 '1')) =
      .error (.fault (.tooManyDigitsToRead 4301)) := by
    rw [numeralValue_eq, if_neg (numeral_unreadable_of_long (by decide)), String.toList_ofList,
      List.length_replicate]
  have hallow : SourceExpr.allowance 5 = 983 + 8 := rfl
  -- the numeral is no operator, so each rule passes it down to a primary
  have hop : ∀ t r, [Token.number (String.ofList (List.replicate 4301 '1'))] ≠ .op t :: r :=
    fun _ _ h => by cases h
  rw [parseTokens_view _ (List.cons_ne_nil _ _), hallow, parseOr_view, parseAnd_view,
    parseNot_view_trailing _ _ (hop _) (hop _), parseComparison_view, parseAdditive_view,
    parseTerm_view, parseUnary_view_primary _ _ (hop _) (hop _), parsePrimary_view_number, hvalue]
  rfl

end DnclTrace.Expr
