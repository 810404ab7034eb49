import DnclTrace.Expr.Source
import DnclTrace.Proofs.Expr.Sentences
import DnclTrace.Proofs.Expr.Scanning

/-!
# The text of a tree, read back

`Expr.render` writes every operator application in brackets with blanks around the
operator, so the text of a tree scans to one canonical list of tokens (`Expr.tokens`,
`scan_render`), that list is a primary of the grammar deriving the tree
(`primary_tokens`), and normalising leaves the text alone (`normalize_render`). A tree
whose text reads back so is `Reprintable`: its numerals are integers the reader can read,
and its names are read as names and hold no operator spelling.

Main statements: `read_render`, reading the text of a reprintable tree gives the tree
unless its brackets nest deeper than the reader's allowance; and `render_injective`, two
reprintable trees with one text are one tree.
-/

namespace DnclTrace.Expr

/-- The tokens of a tree's text. -/
def tokens : Expr → List Token
  | .num v => [.number v.literalText]
  | .var n => [.ident n]
  | .index n p => .ident n :: .op "[" :: (tokens p ++ [.op "]"])
  | .unary op e => .op "(" :: ((.op op.symbol :: tokens e) ++ [.op ")"])
  | .binary op l r => .op "(" :: ((tokens l ++ .op op.symbol :: tokens r) ++ [.op ")"])

/-- A name that the scanner reads as itself and that normalising leaves alone. -/
structure IsName (n : String) : Prop extends NameShaped n where
  free : SpellingFree n.toList

/-- A tree whose text reads back: its numerals are integers, not negative, of at most
`digitLimit` digits, and its names are names. -/
def Reprintable : Expr → Prop
  | .num (.int i) => 0 ≤ i ∧ i.natAbs < Nat.pow 10 digitLimit
  | .num (.real _) => False
  | .var n => IsName n
  | .index n p => IsName n ∧ Reprintable p
  | .unary _ e => Reprintable e
  | .binary _ l r => Reprintable l ∧ Reprintable r

/-! ## Numerals -/

theorem digitValue?_digitChar : ∀ d < 10, Text.digitValue? (Nat.digitChar d) = some d := by
  decide

theorem decimalValue_append_digit (cs : List Char) (d : Char) :
    Text.decimalValue (cs ++ [d]) = Text.decimalValue cs * 10 + (Text.digitValue? d).getD 0 := by
  simp only [Text.decimalValue, List.foldl_append, List.foldl_cons, List.foldl_nil]

/-- The decimal digits of a number, read back, are the number. -/
theorem decimalValue_toDigits (m : Nat) : Text.decimalValue (Nat.toDigits 10 m) = m := by
  induction m using Nat.strongRecOn with
  | ind m ih =>
    rw [Nat.toDigits_eq_if (by decide)]
    split
    · rename_i hm
      rw [← List.nil_append [_], decimalValue_append_digit, digitValue?_digitChar m hm]
      simp [Text.decimalValue]
    · rename_i hm
      rw [decimalValue_append_digit, ih (m / 10) (by omega),
        digitValue?_digitChar (m % 10) (Nat.mod_lt m (by decide))]
      simp only [Option.getD_some]
      omega

theorem mem_toDigits {x : Char} (m : Nat) (h : x ∈ Nat.toDigits 10 m) :
    ∃ d < 10, x = Nat.digitChar d := by
  induction m using Nat.strongRecOn with
  | ind m ih =>
    rw [Nat.toDigits_eq_if (by decide)] at h
    split at h
    · rename_i hm
      exact ⟨m, hm, List.mem_singleton.mp h⟩
    · rcases List.mem_append.mp h with h | h
      · exact ih (m / 10) (by omega) h
      · exact ⟨m % 10, Nat.mod_lt m (by decide), List.mem_singleton.mp h⟩

theorem digitChar_facts : ∀ d < 10, Text.isDecimal (Nat.digitChar d) = true ∧
    (Nat.digitChar d).toNat < 128 ∧ Text.isBlank (Nat.digitChar d) = false ∧
      Nat.digitChar d ≠ '.' := by
  decide

/-- Every character of a decimal text is a digit: ASCII, not blank and not a point. -/
theorem toDigits_char {x : Char} {m : Nat} (h : x ∈ Nat.toDigits 10 m) :
    Text.isDecimal x = true ∧ x.toNat < 128 ∧ Text.isBlank x = false ∧ x ≠ '.' := by
  obtain ⟨d, hd, rfl⟩ := mem_toDigits _ h
  exact digitChar_facts d hd

theorem digitValue?_lt {c : Char} {v : Nat} (h : Text.digitValue? c = some v) : v < 10 := by
  obtain ⟨r, -, hsome⟩ := List.exists_of_findSome?_eq_some h
  by_cases hin : r.1 ≤ c.toNat ∧ c.toNat ≤ r.2
  · rw [if_pos hin] at hsome
    cases hsome
    exact Nat.mod_lt _ (by decide)
  · rw [if_neg hin] at hsome
    cases hsome

/-- A run of `n` characters reads as a value below `10 ^ n`. -/
theorem decimalValue_lt (cs : List Char) : Text.decimalValue cs < Nat.pow 10 cs.length := by
  -- the fold carries its accumulator: `acc` before `cs` stays below `(acc + 1) * 10 ^ |cs|`
  have fold : ∀ (cs : List Char) (acc : Nat),
      cs.foldl (fun a d => a * 10 + (Text.digitValue? d).getD 0) acc <
        (acc + 1) * Nat.pow 10 cs.length := by
    intro cs
    induction cs with
    | nil =>
      intro acc
      show acc < (acc + 1) * 1
      omega
    | cons d cs ih =>
      intro acc
      have hd : (Text.digitValue? d).getD 0 < 10 := by
        cases hv : Text.digitValue? d with
        | none => decide
        | some v => exact digitValue?_lt hv
      calc (d :: cs).foldl (fun a d => a * 10 + (Text.digitValue? d).getD 0) acc
          _ < (acc * 10 + (Text.digitValue? d).getD 0 + 1) * Nat.pow 10 cs.length := ih _
          _ ≤ (acc + 1) * 10 * Nat.pow 10 cs.length := Nat.mul_le_mul_right _ (by omega)
          _ = (acc + 1) * (Nat.pow 10 cs.length * 10) := by
            rw [Nat.mul_comm (Nat.pow 10 _) 10, Nat.mul_assoc]
  have h := fold cs 0
  rw [Nat.zero_add, Nat.one_mul] at h
  exact h

/-- A numeral the reader can read that denotes an integer denotes one of at most
`digitLimit` digits. -/
theorem numeralDenotes_int {s : String} {i : Int} (hr : NumeralReadable s)
    (h : numeralDenotes s = .int i) : 0 ≤ i ∧ i.natAbs < Nat.pow 10 digitLimit := by
  unfold numeralDenotes at h
  by_cases hp : s.toList.contains '.' = true
  · rw [if_pos hp] at h
    cases h
  · rw [if_neg hp] at h
    cases h
    have hlen : s.toList.length ≤ digitLimit := hr.resolve_left hp
    refine ⟨Int.natCast_nonneg _, ?_⟩
    generalize digitLimit = L at hlen ⊢
    calc (Text.decimalValue s.toList : Int).natAbs
        _ = Text.decimalValue s.toList := Int.natAbs_natCast _
        _ < Nat.pow 10 s.toList.length := decimalValue_lt _
        _ ≤ Nat.pow 10 L := Nat.pow_le_pow_right (by decide) hlen

theorem literalText_int {i : Int} (hi : 0 ≤ i) :
    (Value.int i).literalText.toList = Nat.toDigits 10 i.natAbs := by
  simp [Value.literalText, intDigits, Int.not_lt.mpr hi]

/-- An integer's text is a numeral that denotes it. -/
theorem numeralDenotes_literalText {i : Int} (hi : 0 ≤ i) :
    numeralDenotes (Value.int i).literalText = .int i := by
  have hdot : (Value.int i).literalText.toList.contains '.' = false := by
    rw [literalText_int hi]
    cases hc : (Nat.toDigits 10 i.natAbs).contains '.' with
    | false => rfl
    | true =>
      exact absurd rfl (toDigits_char (List.contains_iff_mem.mp hc)).2.2.2
  unfold numeralDenotes
  rw [if_neg (Bool.eq_false_iff.mp hdot), literalText_int hi, decimalValue_toDigits,
    Int.natAbs_of_nonneg hi]

theorem numeralReadable_literalText {i : Int} (hi : 0 ≤ i)
    (hlt : i.natAbs < Nat.pow 10 digitLimit) : NumeralReadable (Value.int i).literalText := by
  refine .inr ?_
  rw [literalText_int hi]
  have hpos : 0 < digitLimit := by decide
  generalize digitLimit = L at hlt hpos ⊢
  exact (Nat.length_toDigits_le_iff (by decide) hpos).mpr hlt

/-! ## The text of a tree -/

theorem render_int_toList {i : Int} (hi : 0 ≤ i) :
    (render (.num (.int i))).toList = Nat.toDigits 10 i.natAbs :=
  literalText_int hi

theorem render_index_toList (n : String) (p : Expr) :
    (render (.index n p)).toList = n.toList ++ '[' :: ((render p).toList ++ [']']) := by
  simp [render]

theorem render_unary_toList (op : UnOp) (e : Expr) :
    (render (.unary op e)).toList =
      '(' :: (op.symbol.toList ++ ' ' :: ((render e).toList ++ [')'])) := by
  simp [render]

theorem render_binary_toList (op : BinOp) (l r : Expr) :
    (render (.binary op l r)).toList =
      '(' :: ((render l).toList ++ ' ' :: (op.symbol.toList ++ ' ' :: ((render r).toList ++ [')']))) := by
  simp [render]

theorem unOp_symbol_ascii (op : UnOp) : ∀ c ∈ op.symbol.toList, c.toNat < 128 := by
  have hcodes : ∀ n ∈ op.symbol.toList.map Char.toNat, n < 128 := by
    cases op <;> decide
  exact fun c hc => hcodes _ (List.mem_map_of_mem hc)

theorem binOp_symbol_ascii (op : BinOp) : ∀ c ∈ op.symbol.toList, c.toNat < 128 := by
  have hcodes : ∀ n ∈ op.symbol.toList.map Char.toNat, n < 128 := by
    cases op <;> decide
  exact fun c hc => hcodes _ (List.mem_map_of_mem hc)

/-- Every character of a tree's text is a name character or ASCII. -/
theorem render_chars {t : Expr} (ht : t.Reprintable) :
    ∀ c ∈ (render t).toList, isNameChar c = true ∨ c.toNat < 128 := by
  induction t with
  | num v =>
    cases v with
    | real x => exact ht.elim
    | int i =>
      intro c hc
      rw [render_int_toList ht.1] at hc
      exact .inr (toDigits_char hc).2.1
  | var n => exact fun c hc => .inl (ht.chars c hc)
  | index n p ih =>
    intro c hc
    rw [render_index_toList] at hc
    simp only [List.mem_append, List.mem_cons, List.not_mem_nil, or_false] at hc
    rcases hc with hc | rfl | hc | rfl
    · exact .inl (ht.1.chars c hc)
    · exact .inr (by decide)
    · exact ih ht.2 c hc
    · exact .inr (by decide)
  | unary op e ih =>
    intro c hc
    rw [render_unary_toList] at hc
    simp only [List.mem_append, List.mem_cons, List.not_mem_nil, or_false] at hc
    rcases hc with rfl | hc | rfl | hc | rfl
    · exact .inr (by decide)
    · exact .inr (unOp_symbol_ascii op c hc)
    · exact .inr (by decide)
    · exact ih ht c hc
    · exact .inr (by decide)
  | binary op l r ihl ihr =>
    intro c hc
    rw [render_binary_toList] at hc
    simp only [List.mem_append, List.mem_cons, List.not_mem_nil, or_false] at hc
    rcases hc with rfl | hc | rfl | hc | rfl | hc | rfl
    · exact .inr (by decide)
    · exact ihl ht.1 c hc
    · exact .inr (by decide)
    · exact .inr (binOp_symbol_ascii op c hc)
    · exact .inr (by decide)
    · exact ihr ht.2 c hc
    · exact .inr (by decide)

/-- No operator spelling occurs in a tree's text: its names hold none, and the rest of
it is ASCII. -/
theorem render_spellingFree {t : Expr} (ht : t.Reprintable) : SpellingFree (render t).toList := by
  have hnil : SpellingFree [] := SpellingFree.of_ascii fun _ h => nomatch h
  induction t with
  | num v =>
    cases v with
    | real x => exact ht.elim
    | int i =>
      refine SpellingFree.of_ascii fun c hc => ?_
      rw [render_int_toList ht.1] at hc
      exact (toDigits_char hc).2.1
  | var n => exact ht.free
  | index n p ih =>
    rw [render_index_toList]
    exact SpellingFree.append_cons ht.1.free (SpellingFree.append_cons (ih ht.2) hnil (by decide))
      (by decide)
  | unary op e ih =>
    rw [render_unary_toList]
    refine SpellingFree.append_cons (a := []) hnil ?_ (by decide)
    exact SpellingFree.append_cons (SpellingFree.of_ascii (unOp_symbol_ascii op))
      (SpellingFree.append_cons (ih ht) hnil (by decide)) (by decide)
  | binary op l r ihl ihr =>
    rw [render_binary_toList]
    refine SpellingFree.append_cons (a := []) hnil ?_ (by decide)
    refine SpellingFree.append_cons (ihl ht.1) ?_ (by decide)
    exact SpellingFree.append_cons (SpellingFree.of_ascii (binOp_symbol_ascii op))
      (SpellingFree.append_cons (ihr ht.2) hnil (by decide)) (by decide)

/-- Normalising leaves the text of a reprintable tree as it is. -/
theorem normalize_render {t : Expr} (ht : t.Reprintable) : normalize (render t) = render t := by
  refine normalize_eq_self (fun c hc => ?_) (render_spellingFree ht)
  rcases render_chars ht c hc with hname | hascii
  · exact narrowChar_of_isNameChar hname
  · exact narrowChar_of_lt hascii

/-- A tree's text starts and ends with a character that is not blank. -/
theorem render_ends {t : Expr} (ht : t.Reprintable) :
    (∀ c ∈ (render t).toList.head?, Text.isBlank c = false) ∧
      (∀ c ∈ (render t).toList.getLast?, Text.isBlank c = false) := by
  cases t with
  | num v =>
    cases v with
    | real x => exact ht.elim
    | int i =>
      have hdig : ∀ c ∈ (render (.num (.int i))).toList, Text.isBlank c = false := by
        intro c hc
        rw [render_int_toList ht.1] at hc
        exact (toDigits_char hc).2.2.1
      exact ⟨fun c hc => hdig c (List.mem_of_mem_head? hc),
        fun c hc => hdig c (List.mem_of_getLast? hc)⟩
  | var n =>
    exact ⟨fun c hc => isBlank_of_isNameChar (ht.chars c (List.mem_of_mem_head? hc)),
      fun c hc => isBlank_of_isNameChar (ht.chars c (List.mem_of_getLast? hc))⟩
  | index n p =>
    obtain ⟨c, cs, hn, hc⟩ := ht.1.first
    have hlast : (render (.index n p)).toList = (n.toList ++ '[' :: (render p).toList) ++ [']'] := by
      simp [render_index_toList]
    refine ⟨fun x hx => ?_, fun x hx => ?_⟩
    · rw [render_index_toList, hn] at hx
      cases hx
      exact isBlank_of_isNameChar (isNameChar_of_isNameStart hc)
    · rw [hlast, List.getLast?_concat] at hx
      cases hx
      decide
  | unary op e =>
    have hlast : (render (.unary op e)).toList =
        ('(' :: (op.symbol.toList ++ ' ' :: (render e).toList)) ++ [')'] := by
      simp [render_unary_toList]
    refine ⟨fun x hx => ?_, fun x hx => ?_⟩
    · rw [render_unary_toList] at hx
      cases hx
      decide
    · rw [hlast, List.getLast?_concat] at hx
      cases hx
      decide
  | binary op l r =>
    have hlast : (render (.binary op l r)).toList =
        ('(' :: ((render l).toList ++ ' ' :: (op.symbol.toList ++ ' ' :: (render r).toList))) ++
          [')'] := by
      simp [render_binary_toList]
    refine ⟨fun x hx => ?_, fun x hx => ?_⟩
    · rw [render_binary_toList] at hx
      cases hx
      decide
    · rw [hlast, List.getLast?_concat] at hx
      cases hx
      decide

/-- A text that starts and ends with a character that is not blank is trimmed. -/
theorem trim_of_ends {cs : List Char} (hh : ∀ c ∈ cs.head?, Text.isBlank c = false)
    (hl : ∀ c ∈ cs.getLast?, Text.isBlank c = false) : Text.trim cs = cs := by
  have hstart : cs.dropWhile Text.isBlank = cs := by
    cases cs with
    | nil => rfl
    | cons c cs => exact List.dropWhile_cons_of_neg (by simp [hh c rfl])
  have hend : cs.reverse.dropWhile Text.isBlank = cs.reverse := by
    cases hrev : cs.reverse with
    | nil => rfl
    | cons d ds =>
      have hd : d ∈ cs.getLast? := by
        rw [← List.head?_reverse, hrev]
        rfl
      exact List.dropWhile_cons_of_neg (by simp [hl d hd])
  unfold Text.trim Text.trimEnd Text.trimStart
  rw [hstart, hend, List.reverse_reverse]

/-- The text of a reprintable tree scans to its tokens, whatever follows it from a
character that ends a name or a numeral. -/
theorem scan_render {t : Expr} (ht : t.Reprintable) {rest : List Char} {us : List Token}
    (hrest : ∀ c ∈ rest.head?, WordBreak c) (hus : scan rest = .ok us) :
    scan ((render t).toList ++ rest) = .ok (t.tokens ++ us) := by
  induction t generalizing rest us with
  | num v =>
    cases v with
    | real x => exact ht.elim
    | int i =>
      obtain ⟨d, ds, hds⟩ := List.exists_cons_of_ne_nil (@Nat.toDigits_ne_nil i.natAbs 10)
      have hd := toDigits_char (hds ▸ List.mem_cons_self)
      have hrun : ∀ x ∈ ds, Text.isDecimal x = true :=
        fun x hx => (toDigits_char (hds ▸ List.mem_cons_of_mem d hx)).1
      have htext : String.ofList (d :: ds) = (Value.int i).literalText := by
        rw [← hds, ← literalText_int ht.1, String.ofList_toList]
      rw [render_int_toList ht.1, hds, List.cons_append, scan_token hd.2.2.1 (tokenAt_numeral hd.1 hrun hrest),
        List.drop_left, hus, htext]
      rfl
  | var n => exact scan_name ht.toNameShaped hrest hus
  | index n p ih =>
    have hclose : scan (']' :: rest) = .ok (.op "]" :: us) := by
      rw [scan_bracket (by decide), hus]
      rfl
    have hinner := ih ht.2 (WordBreak.cons (by decide) _) hclose
    have hopen : scan ('[' :: ((render p).toList ++ ']' :: rest)) =
        .ok (.op "[" :: (p.tokens ++ .op "]" :: us)) := by
      rw [scan_bracket (by decide), hinner]
      rfl
    have hlist : (render (.index n p)).toList ++ rest =
        n.toList ++ '[' :: ((render p).toList ++ ']' :: rest) := by
      simp [render_index_toList]
    rw [hlist, scan_name ht.1.toNameShaped (WordBreak.cons (by decide) _) hopen]
    simp [tokens]
  | unary op e ih =>
    have hclose : scan (')' :: rest) = .ok (.op ")" :: us) := by
      rw [scan_bracket (by decide), hus]
      rfl
    have hinner := ih ht (WordBreak.cons (by decide) _) hclose
    have hlist : (render (.unary op e)).toList ++ rest =
        '(' :: (op.symbol.toList ++ ' ' :: ((render e).toList ++ ')' :: rest)) := by
      simp [render_unary_toList]
    rw [hlist, scan_bracket (by decide), scan_unOp, hinner]
    simp [tokens, Functor.map, Except.map]
  | binary op l r ihl ihr =>
    have hclose : scan (')' :: rest) = .ok (.op ")" :: us) := by
      rw [scan_bracket (by decide), hus]
      rfl
    have hright := ihr ht.2 (WordBreak.cons (by decide) _) hclose
    have hafter : scan (' ' :: (op.symbol.toList ++ ' ' :: ((render r).toList ++ ')' :: rest))) =
        .ok (.op op.symbol :: (r.tokens ++ .op ")" :: us)) := by
      rw [scan_blank (by decide), scan_binOp, hright]
      rfl
    have hleft := ihl ht.1 (WordBreak.cons (by decide) _) hafter
    have hlist : (render (.binary op l r)).toList ++ rest =
        '(' :: ((render l).toList ++ ' ' :: (op.symbol.toList ++ ' ' :: ((render r).toList ++
          ')' :: rest))) := by
      simp [render_binary_toList]
    rw [hlist, scan_bracket (by decide), hleft]
    simp [tokens, Functor.map, Except.map]

theorem tokenize_render {t : Expr} (ht : t.Reprintable) : tokenize (render t) = .ok t.tokens := by
  have h := @scan_render t ht [] [] (by intro x hx; cases hx) scan_nil
  rw [List.append_nil, List.append_nil] at h
  exact h

/-! ## The grammar of a tree's tokens -/

namespace Grammar

theorem AndExpr.of_not {ts : List Token} {e : Expr} (h : NotExpr ts e) : AndExpr ts e := by
  simpa using AndExpr.chain h .nil

theorem OrExpr.of_and {ts : List Token} {e : Expr} (h : AndExpr ts e) : OrExpr ts e := by
  simpa using OrExpr.chain h .nil

theorem OrExpr.of_cmp {ts : List Token} {e : Expr} (h : CmpExpr ts e) : OrExpr ts e := by
  have hn : NotExpr ts e := by simpa using NotExpr.trailing h .nil
  exact .of_and (.of_not hn)

theorem OrExpr.of_mul {ts : List Token} {e : Expr} (h : MulExpr ts e) : OrExpr ts e := by
  have ha : AddExpr ts e := by simpa using AddExpr.chain h .nil
  exact .of_cmp (.single ha)

/-- A unary operator's sign before a primary derives the operator applied to it. -/
theorem OrExpr.unOp (op : UnOp) {ts : List Token} {e : Expr} (h : PrimaryExpr ts e) :
    OrExpr (.op op.symbol :: ts) (.unary op e) := by
  cases op with
  | neg => exact .of_unary (.neg (.primary h))
  | pos => exact .of_unary (.pos (.primary h))
  | not => exact .of_and (.of_not (.leading (.inl rfl) (.of_unary (.primary h))))

/-- A binary operator's sign between two primaries derives the operator applied to
them, each operator at the level of the grammar that reads it. -/
theorem OrExpr.binOp (op : BinOp) {ls rs : List Token} {l r : Expr} (hl : PrimaryExpr ls l)
    (hr : PrimaryExpr rs r) : OrExpr (ls ++ .op op.symbol :: rs) (.binary op l r) := by
  have mul : ∀ {s : String} {o : BinOp}, multiplicativeOp? s = some o →
      OrExpr (ls ++ .op s :: rs) (.binary o l r) := by
    intro s o hs
    have h := MulExpr.chain (.primary hl) (MulTail.cons hs (.primary hr) .nil)
    exact .of_mul (by simpa using h)
  have add : ∀ {s : String} {o : BinOp}, additiveOp? s = some o →
      OrExpr (ls ++ .op s :: rs) (.binary o l r) := by
    intro s o hs
    have h := AddExpr.chain (.of_unary (.primary hl)) (AddTail.cons hs (.of_unary (.primary hr)) .nil)
    exact .of_cmp (.single (by simpa using h))
  have cmp : ∀ {s : String} {o : BinOp}, comparisonOp? s = some o →
      OrExpr (ls ++ .op s :: rs) (.binary o l r) := fun hs =>
    .of_cmp (.compare (.of_unary (.primary hl)) hs (.of_unary (.primary hr)))
  cases op with
  | add | sub => exact add rfl
  | mul | div | floorDiv | mod => exact mul rfl
  | eq | ne | lt | gt | le | ge => exact cmp rfl
  | and =>
    show OrExpr (ls ++ .op "&&" :: rs) _
    have h := AndExpr.chain (.of_unary (.primary hl))
      (AndTail.cons (.of_unary (.primary hr)) .nil)
    exact .of_and (by simpa using h)
  | or =>
    show OrExpr (ls ++ .op "||" :: rs) _
    have h := OrExpr.chain (.of_not (.of_unary (.primary hl)))
      (OrTail.cons (.of_not (.of_unary (.primary hr))) .nil)
    simpa using h

end Grammar

open Grammar

/-- The tokens of a reprintable tree are a primary that derives the tree. -/
theorem primary_tokens {t : Expr} (ht : t.Reprintable) : PrimaryExpr t.tokens t := by
  induction t with
  | num v =>
    cases v with
    | real x => exact ht.elim
    | int i =>
      have h := PrimaryExpr.number (s := (Value.int i).literalText)
      rwa [numeralDenotes_literalText ht.1] at h
  | var n => exact .name
  | index n p ih => exact .index (.of_unary (.primary (ih ht.2)))
  | unary op e ih => exact .paren (.unOp op (ih ht))
  | binary op l r ihl ihr => exact .paren (.binOp op (ihl ht.1) (ihr ht.2))

theorem allReadable_tokens {t : Expr} (ht : t.Reprintable) : AllReadable t.tokens := by
  induction t with
  | num v =>
    cases v with
    | real x => exact ht.elim
    | int i =>
      simp only [tokens, allReadable_cons, allReadable_nil, and_true]
      exact numeralReadable_literalText ht.1 ht.2
  | var n => simp [tokens]
  | index n p ih => simp [tokens, ih ht.2]
  | unary op e ih => simp [tokens, ih ht]
  | binary op l r ihl ihr => simp [tokens, ihl ht.1, ihr ht.2]

/-- Reading the text of a reprintable tree gives the tree, unless the reader's allowance is
short of eight levels for each token and the brackets nest too deep for it. -/
theorem read_render {t : Expr} (ht : t.Reprintable) (depth : Nat) :
    SourceExpr.read depth (render t) = .ok ⟨render t, .ok t⟩ ∨
      (SourceExpr.read depth (render t) = .ok ⟨render t, .error .tooDeep⟩ ∧
        SourceExpr.allowance depth < 8 * t.tokens.length) := by
  have htrim : Text.trimText (render t) = render t := by
    unfold Text.trimText
    rw [trim_of_ends (render_ends ht).1 (render_ends ht).2, String.ofList_toList]
  have hd := OrExpr.of_unary (.primary (primary_tokens ht))
  unfold SourceExpr.read
  simp only [htrim, normalize_render ht, tokenize_render ht]
  rcases parseTokens_reads hd (allReadable_tokens ht) with hp | ⟨hp, hshort⟩
  · rw [hp]
    exact .inl rfl
  · rw [hp]
    exact .inr ⟨rfl, hshort⟩

/-- Two reprintable trees with one text are one tree. -/
theorem render_injective {t₁ t₂ : Expr} (h₁ : t₁.Reprintable) (h₂ : t₂.Reprintable)
    (he : render t₁ = render t₂) : t₁ = t₂ := by
  have htok : t₁.tokens = t₂.tokens := by
    have h := tokenize_render h₁
    rw [he, tokenize_render h₂] at h
    exact (Except.ok.inj h).symm
  have hd₂ : OrExpr t₁.tokens t₂ := htok ▸ OrExpr.of_unary (.primary (primary_tokens h₂))
  exact OrExpr.tree_unique (allReadable_tokens h₁) (.of_unary (.primary (primary_tokens h₁)))
    hd₂

end DnclTrace.Expr
