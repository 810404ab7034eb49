import DnclTrace.Proofs.Expr.Reprint

/-!
# Trees read from a text read back from their text

Every tree read from a text whose numerals are integers is reprintable
(`reprintable_of_read`): its names come from the scanner, out of a normalised text, and
its numerals from numerals short enough to read. The derivation of the tree from its
tokens gives each leaf its token (`Grammar.OrExpr.atoms`).

Main statement: `reprint_reads_back`. Reading the text of such a tree gives the tree
again, unless the brackets nest deeper than the reader's allowance; normalising leaves
that text alone; and no two such trees have the same text.
-/

namespace DnclTrace.Expr

open Grammar

/-- Every numeral of the tree is an integer. -/
def intLeaves : Expr → Bool
  | .num (.int _) => true
  | .num (.real _) => false
  | .var _ => true
  | .index _ p => intLeaves p
  | .unary _ e => intLeaves e
  | .binary _ l r => intLeaves l && intLeaves r

/-! ## The leaves of a tree that was read -/

/-- Every numeral of the tree is what a number token satisfying `P` denotes, and every
name is that of a name token satisfying `P`. -/
def Atoms (P : Token → Prop) : Expr → Prop
  | .num v => ∃ s, P (.number s) ∧ numeralDenotes s = v
  | .var n => P (.ident n)
  | .index n p => P (.ident n) ∧ Atoms P p
  | .unary _ e => Atoms P e
  | .binary _ l r => Atoms P l ∧ Atoms P r

namespace Grammar

variable {P : Token → Prop}

theorem NotTail.atoms {c t : Expr} {us : List Token} (h : NotTail c us t) (hc : c.Atoms P) :
    t.Atoms P := by
  induction h with
  | nil => exact hc
  | cons _ ih => exact ih hc

/-! Each leaf of a derived tree is read from one of the derivation's tokens; the
induction follows the derivation, and a tail carries the leaves of the tree so far. -/

mutual

theorem OrExpr.atoms {ts : List Token} {t : Expr} (h : OrExpr ts t) (hts : ∀ tk ∈ ts, P tk) :
    t.Atoms P := by
  match h with
  | .chain ha ht =>
    exact ht.atoms (ha.atoms fun tk hm => hts tk (List.mem_append_left _ hm))
      fun tk hm => hts tk (List.mem_append_right _ hm)

theorem OrTail.atoms {l t : Expr} {ts : List Token} (h : OrTail l ts t) (hl : l.Atoms P)
    (hts : ∀ tk ∈ ts, P tk) : t.Atoms P := by
  match h with
  | .nil => exact hl
  | .cons ha ht =>
    exact ht.atoms ⟨hl, ha.atoms fun tk hm => hts tk (.tail _ (List.mem_append_left _ hm))⟩
      fun tk hm => hts tk (.tail _ (List.mem_append_right _ hm))

theorem AndExpr.atoms {ts : List Token} {t : Expr} (h : AndExpr ts t) (hts : ∀ tk ∈ ts, P tk) :
    t.Atoms P := by
  match h with
  | .chain hn ht =>
    exact ht.atoms (hn.atoms fun tk hm => hts tk (List.mem_append_left _ hm))
      fun tk hm => hts tk (List.mem_append_right _ hm)

theorem AndTail.atoms {l t : Expr} {ts : List Token} (h : AndTail l ts t) (hl : l.Atoms P)
    (hts : ∀ tk ∈ ts, P tk) : t.Atoms P := by
  match h with
  | .nil => exact hl
  | .cons hn ht =>
    exact ht.atoms ⟨hl, hn.atoms fun tk hm => hts tk (.tail _ (List.mem_append_left _ hm))⟩
      fun tk hm => hts tk (.tail _ (List.mem_append_right _ hm))

theorem NotExpr.atoms {ts : List Token} {t : Expr} (h : NotExpr ts t) (hts : ∀ tk ∈ ts, P tk) :
    t.Atoms P := by
  match h with
  | .leading _ hn => exact hn.atoms fun tk hm => hts tk (.tail _ hm)
  | .trailing hc ht => exact ht.atoms (hc.atoms fun tk hm => hts tk (List.mem_append_left _ hm))

theorem CmpExpr.atoms {ts : List Token} {t : Expr} (h : CmpExpr ts t) (hts : ∀ tk ∈ ts, P tk) :
    t.Atoms P := by
  match h with
  | .single ha => exact ha.atoms hts
  | .compare ha _ hb =>
    exact ⟨ha.atoms fun tk hm => hts tk (List.mem_append_left _ hm),
      hb.atoms fun tk hm => hts tk (List.mem_append_right _ (.tail _ hm))⟩

theorem AddExpr.atoms {ts : List Token} {t : Expr} (h : AddExpr ts t) (hts : ∀ tk ∈ ts, P tk) :
    t.Atoms P := by
  match h with
  | .chain hm ht =>
    exact ht.atoms (hm.atoms fun tk hk => hts tk (List.mem_append_left _ hk))
      fun tk hk => hts tk (List.mem_append_right _ hk)

theorem AddTail.atoms {l t : Expr} {ts : List Token} (h : AddTail l ts t) (hl : l.Atoms P)
    (hts : ∀ tk ∈ ts, P tk) : t.Atoms P := by
  match h with
  | .nil => exact hl
  | .cons _ hm ht =>
    exact ht.atoms ⟨hl, hm.atoms fun tk hk => hts tk (.tail _ (List.mem_append_left _ hk))⟩
      fun tk hk => hts tk (.tail _ (List.mem_append_right _ hk))

theorem MulExpr.atoms {ts : List Token} {t : Expr} (h : MulExpr ts t) (hts : ∀ tk ∈ ts, P tk) :
    t.Atoms P := by
  match h with
  | .chain hu ht =>
    exact ht.atoms (hu.atoms fun tk hk => hts tk (List.mem_append_left _ hk))
      fun tk hk => hts tk (List.mem_append_right _ hk)

theorem MulTail.atoms {l t : Expr} {ts : List Token} (h : MulTail l ts t) (hl : l.Atoms P)
    (hts : ∀ tk ∈ ts, P tk) : t.Atoms P := by
  match h with
  | .nil => exact hl
  | .cons _ hu ht =>
    exact ht.atoms ⟨hl, hu.atoms fun tk hk => hts tk (.tail _ (List.mem_append_left _ hk))⟩
      fun tk hk => hts tk (.tail _ (List.mem_append_right _ hk))

theorem UnaryExpr.atoms {ts : List Token} {t : Expr} (h : UnaryExpr ts t)
    (hts : ∀ tk ∈ ts, P tk) : t.Atoms P := by
  match h with
  | .neg hu => exact hu.atoms fun tk hk => hts tk (.tail _ hk)
  | .pos hu => exact hu.atoms fun tk hk => hts tk (.tail _ hk)
  | .primary hp => exact hp.atoms hts

theorem PrimaryExpr.atoms {ts : List Token} {t : Expr} (h : PrimaryExpr ts t)
    (hts : ∀ tk ∈ ts, P tk) : t.Atoms P := by
  match h with
  | .number => exact ⟨_, hts _ List.mem_cons_self, rfl⟩
  | .name => exact hts _ List.mem_cons_self
  | .index ho =>
    exact ⟨hts _ List.mem_cons_self,
      ho.atoms fun tk hk => hts tk (.tail _ (.tail _ (List.mem_append_left _ hk)))⟩
  | .paren ho => exact ho.atoms fun tk hk => hts tk (.tail _ (List.mem_append_left _ hk))

end

end Grammar

/-- A token of a text that was normalised and scanned, and that the reader can read. -/
def Token.Plain : Token → Prop
  | .number s => NumeralReadable s
  | .ident n => IsName n
  | .op _ => True

/-- A tree whose leaves stand for plain tokens and whose numerals are integers is
reprintable. -/
theorem reprintable_of_atoms {t : Expr} (h : t.Atoms Token.Plain) (hint : t.intLeaves = true) :
    t.Reprintable := by
  induction t with
  | num v =>
    obtain ⟨s, hs, hv⟩ := h
    cases v with
    | real x => cases hint
    | int i => exact numeralDenotes_int hs hv
  | var n => exact h
  | index n p ih => exact ⟨h.1, ih h.2 hint⟩
  | unary op e ih => exact ih h hint
  | binary op l r ihl ihr =>
    obtain ⟨hl, hr⟩ := Bool.and_eq_true_iff.mp hint
    exact ⟨ihl h.1 hl, ihr h.2 hr⟩

/-- A tree read from a text is what the reader made of the tokens of the normalised,
trimmed text. -/
theorem read_tree {depth : Nat} {s : String} {e : SourceExpr} {t : Expr}
    (hs : SourceExpr.read depth s = .ok e) (ht : e.tree = .ok t) :
    ∃ ts, tokenize (normalize (Text.trimText s)) = .ok ts ∧
      parseTokens (SourceExpr.allowance depth) ts = .ok t := by
  unfold SourceExpr.read at hs
  rcases htok : tokenize (normalize (Text.trimText s)) with err | ts
  · simp only [htok] at hs
    cases hs
    cases ht
  · simp only [htok] at hs
    rcases hp : parseTokens (SourceExpr.allowance depth) ts with stop | t'
    · rw [hp] at hs
      cases stop with
      | malformed err =>
        cases hs
        cases ht
      | fault f => cases hs
    · rw [hp] at hs
      cases hs
      cases ht
      exact ⟨ts, rfl, hp⟩

/-- Every token the reader made a tree of is plain: its names come out of a normalised
text, its numerals can be read. -/
theorem plain_of_read {src : String} {ts : List Token} {a : Nat} {t : Expr}
    (hscan : tokenize (normalize src) = .ok ts) (hp : parseTokens a ts = .ok t) :
    ∀ tk ∈ ts, tk.Plain := by
  have hread := (parseTokens_sound hp).2
  intro tk hm
  cases tk with
  | number s => exact hread _ hm
  | ident n =>
    obtain ⟨hshape, hin⟩ := scan_idents hscan n hm
    exact ⟨hshape, (normalize_spellingFree src).of_within hin⟩
  | op s => trivial

/-- A tree read from a text, whose numerals are integers, is reprintable. -/
theorem reprintable_of_read {depth : Nat} {s : String} {e : SourceExpr} {t : Expr}
    (hs : SourceExpr.read depth s = .ok e) (ht : e.tree = .ok t) (hint : t.intLeaves = true) :
    t.Reprintable := by
  obtain ⟨ts, hscan, hp⟩ := read_tree hs ht
  exact reprintable_of_atoms ((parseTokens_sound hp).1.atoms (plain_of_read hscan hp)) hint

/-- The text of a tree read from a text, whose numerals are integers, reads back as the
tree at every depth, unless the reader's allowance there is short of eight levels for
each of its tokens and its brackets nest too deep; normalising leaves that text as it is;
and another such tree with the same text is the same tree. -/
theorem reprint_reads_back {depth : Nat} {s : String} {e : SourceExpr} {t : Expr}
    (hs : SourceExpr.read depth s = .ok e) (ht : e.tree = .ok t) (hint : t.intLeaves = true) :
    normalize (render t) = render t ∧
      (∀ d, SourceExpr.read d (render t) = .ok ⟨render t, .ok t⟩ ∨
        (SourceExpr.read d (render t) = .ok ⟨render t, .error .tooDeep⟩ ∧
          SourceExpr.allowance d < 8 * t.tokens.length)) ∧
      ∀ {depth₂ : Nat} {s₂ : String} {e₂ : SourceExpr} {t₂ : Expr},
        SourceExpr.read depth₂ s₂ = .ok e₂ → e₂.tree = .ok t₂ → t₂.intLeaves = true →
          render t₂ = render t → t₂ = t := by
  have hre := reprintable_of_read hs ht hint
  refine ⟨normalize_render hre, read_render hre, ?_⟩
  intro depth₂ s₂ e₂ t₂ hs₂ ht₂ hint₂ hsame
  exact render_injective (reprintable_of_read hs₂ ht₂ hint₂) hre hsame

/-- The tree of `x かつ A[1] でない`: a name and the negation of an array element. -/
def nameAndNotElement : Expr :=
  .binary .and (.var "x") (.unary .not (.index "A" (.num (.int 1))))

theorem reprint_reads_back_name_and_not_element :
    SourceExpr.read 0 "(x && (! A[1]))" = .ok ⟨"(x && (! A[1]))", .ok nameAndNotElement⟩ ∧
      nameAndNotElement.intLeaves = true ∧
      (normalize (render nameAndNotElement) = render nameAndNotElement ∧
        (∀ d, SourceExpr.read d (render nameAndNotElement) =
            .ok ⟨render nameAndNotElement, .ok nameAndNotElement⟩ ∨
          (SourceExpr.read d (render nameAndNotElement) =
              .ok ⟨render nameAndNotElement, .error .tooDeep⟩ ∧
            SourceExpr.allowance d < 8 * nameAndNotElement.tokens.length)) ∧
        ∀ {depth₂ : Nat} {s₂ : String} {e₂ : SourceExpr} {t₂ : Expr},
          SourceExpr.read depth₂ s₂ = .ok e₂ → e₂.tree = .ok t₂ → t₂.intLeaves = true →
            render t₂ = render nameAndNotElement → t₂ = nameAndNotElement) := by
  have hname : ∀ n : String, n ∈ ["x", "A"] → IsName n := by
    intro n hn
    simp only [List.mem_cons, List.not_mem_nil, or_false] at hn
    rcases hn with rfl | rfl
    · exact ⟨⟨⟨'x', [], rfl, rfl⟩, List.all_eq_true.mp (by decide), by decide⟩,
        by unfold SpellingFree; decide⟩
    · exact ⟨⟨⟨'A', [], rfl, rfl⟩, List.all_eq_true.mp (by decide), by decide⟩,
        by unfold SpellingFree; decide⟩
  have hre : nameAndNotElement.Reprintable :=
    ⟨hname "x" (by decide), hname "A" (by decide), by decide, by decide +kernel⟩
  have htext : render nameAndNotElement = "(x && (! A[1]))" := by decide
  have hread := (read_render hre 0).resolve_right fun h => absurd h.2 (by decide)
  rw [htext] at hread
  exact ⟨hread, rfl, reprint_reads_back hread rfl rfl⟩

end DnclTrace.Expr
