import DnclTrace.Expr.Token
import DnclTrace.Value.Arith
import DnclTrace.Proofs.Expr.Normalize

/-!
# What the scanner reads

One equation per branch of `scan` (`scan_blank`, `scan_token`) and one per kind of token
at `tokenAt`: a numeral or a name runs up to the first character that cannot continue it
(`WordBreak`), a bracket is a token whatever follows it, and an operator sign followed by
a blank is a token of its own. Later proofs scan texts through these and never unfold
`scan`.

Main statement: `scan_idents`. Every name the scanner returns is shaped as a name (a
letter, then name characters, and no logical word) and stands in the scanned text.
-/

namespace DnclTrace.Expr

/-- A character that ends a numeral or a name: no digit, point or name character. -/
def WordBreak (c : Char) : Prop :=
  Text.isDecimal c = false ∧ c ≠ '.' ∧ isNameChar c = false

instance : DecidablePred WordBreak := fun _ => inferInstanceAs (Decidable (_ ∧ _ ∧ _))

theorem WordBreak.cons {c : Char} (h : WordBreak c) (rest : List Char) :
    ∀ x ∈ (c :: rest).head?, WordBreak x := by
  intro x hx
  cases hx
  exact h

/-- A name as the scanner reads one: a letter, then letters, digits and underscores, and
not one of the logical words. -/
structure NameShaped (n : String) : Prop where
  first : ∃ c cs, n.toList = c :: cs ∧ isNameStart c = true
  chars : ∀ c ∈ n.toList, isNameChar c = true
  notWord : wordToken n = .ident n

/-! ## Classes of characters -/

theorem isNameChar_of_isNameStart {c : Char} (h : isNameStart c = true) : isNameChar c = true := by
  simp [isNameChar, h]

/-- Every decimal digit is an ASCII digit or lies in one of two bands of code points that
no letter of a name reaches. -/
theorem isDecimal_codes {c : Char} (h : Text.isDecimal c = true) :
    (0x30 ≤ c.toNat ∧ c.toNat ≤ 0x39) ∨ (0x660 ≤ c.toNat ∧ c.toNat ≤ 0x1C59) ∨
      0xA620 ≤ c.toNat := by
  obtain ⟨v, hv⟩ := Option.isSome_iff_exists.mp h
  obtain ⟨r, hr, hsome⟩ := List.exists_of_findSome?_eq_some hv
  have hin : r.1 ≤ c.toNat ∧ c.toNat ≤ r.2 := by
    by_cases hin : r.1 ≤ c.toNat ∧ c.toNat ≤ r.2
    · exact hin
    · rw [if_neg hin] at hsome
      cases hsome
  have hruns : ∀ r ∈ Text.decimalRanges, (0x30 ≤ r.1 ∧ r.2 ≤ 0x39) ∨
      (0x660 ≤ r.1 ∧ r.2 ≤ 0x1C59) ∨ 0xA620 ≤ r.1 := by
    decide
  rcases hruns r hr with hrun | hrun | hrun <;> omega

theorem isNameStart_codes {c : Char} (h : isNameStart c = true) :
    (0x41 ≤ c.toNat ∧ c.toNat ≤ 0x5A) ∨ (0x61 ≤ c.toNat ∧ c.toNat ≤ 0x7A) ∨
      (0x3005 ≤ c.toNat ∧ c.toNat ≤ 0x9FFF) := by
  simp only [isNameStart, Bool.or_eq_true, Bool.and_eq_true, decide_eq_true_eq,
    beq_iff_eq] at h
  omega

/-- A letter of a name is no decimal digit. -/
theorem isDecimal_of_isNameStart {c : Char} (h : isNameStart c = true) :
    Text.isDecimal c = false := by
  cases hd : Text.isDecimal c with
  | false => rfl
  | true =>
    have := isDecimal_codes hd
    have := isNameStart_codes h
    omega

/-- No character of a name is blank. -/
theorem isBlank_of_isNameChar {c : Char} (h : isNameChar c = true) : Text.isBlank c = false := by
  have hcodes : ∀ k ∈ Text.blankCodes, isNameChar (Char.ofNat k) = false := by
    decide
  cases hb : Text.isBlank c with
  | false => rfl
  | true =>
    have hk : c.toNat ∈ Text.blankCodes := List.contains_iff_mem.mp hb
    have hname := hcodes c.toNat hk
    rw [Char.ofNat_toNat, h] at hname
    cases hname

/-- Narrowing leaves every character of a name alone. -/
theorem narrowChar_of_isNameChar {c : Char} (h : isNameChar c = true) : narrowChar c = c := by
  unfold narrowChar
  split
  all_goals first
    | rfl
    | exact absurd h (by decide)

/-- The operators of two characters all start with one of these signs. -/
theorem pairOps_first {c d : Char} (h : pairOps.contains (String.ofList [c, d]) = true) :
    c ∈ ['&', '|', '/', '<', '>', '!', '='] := by
  have hm := List.contains_iff_mem.mp h
  have hc : (String.ofList [c, d]).toList.head? = some c := by simp
  simp only [pairOps, List.mem_cons, List.not_mem_nil, or_false] at hm
  rcases hm with he | he | he | he | he | he | he
  all_goals
    rw [he] at hc
    obtain rfl := Option.some.inj hc
    decide

/-! ## One token at a time -/

theorem scan_blank {c : Char} {cs : List Char} (h : Text.isBlank c = true) :
    scan (c :: cs) = scan cs := by
  rw [scan, if_pos h]

theorem scan_token {c : Char} {cs : List Char} {t : Token} {k : Nat}
    (hb : Text.isBlank c = false) (h : tokenAt c cs = .ok (t, k)) :
    scan (c :: cs) = (t :: ·) <$> scan (cs.drop k) := by
  rw [scan, if_neg (by simp [hb])]
  split
  · simp_all
  · simp_all

/-- `takeWhile` over a run of `p` stops where `rest` starts, at a character outside `p`. -/
theorem takeWhile_append_stop {p : Char → Bool} {xs rest : List Char} (hx : ∀ a ∈ xs, p a)
    (hr : ∀ c ∈ rest.head?, p c = false) : (xs ++ rest).takeWhile p = xs := by
  rw [List.takeWhile_append_of_pos hx]
  cases rest with
  | nil => simp
  | cons c rest =>
    have hstop : ¬p c = true := by simp [hr c rfl]
    rw [List.takeWhile_cons_of_neg hstop, List.append_nil]

/-- A numeral's digits run up to a character that is neither a digit nor a point. -/
theorem numeralTail_stop {ds rest : List Char} (hds : ∀ x ∈ ds, Text.isDecimal x = true)
    (hr : ∀ c ∈ rest.head?, Text.isDecimal c = false ∧ c ≠ '.') :
    numeralTail (ds ++ rest) = ds.length := by
  have hw : ((ds ++ rest).takeWhile Text.isDecimal).length = ds.length := by
    rw [takeWhile_append_stop hds fun c hc => (hr c hc).1]
  unfold numeralTail
  simp only [hw, List.drop_left]
  rcases rest with _ | ⟨c, rest⟩
  · rfl
  · have hc : c ≠ '.' := (hr c rfl).2
    split
    · rename_i heq
      exact absurd (List.cons.inj heq).1 hc
    · rfl

theorem tokenAt_numeral {d : Char} {ds rest : List Char} (hd : Text.isDecimal d = true)
    (hds : ∀ x ∈ ds, Text.isDecimal x = true) (hrest : ∀ c ∈ rest.head?, WordBreak c) :
    tokenAt d (ds ++ rest) = .ok (.number (String.ofList (d :: ds)), ds.length) := by
  have htail := numeralTail_stop hds fun c hc => ⟨(hrest c hc).1, (hrest c hc).2.1⟩
  unfold tokenAt
  rw [if_pos hd]
  simp only [htail, List.take_left]
  rfl

theorem tokenAt_name {c : Char} {cs rest : List Char} (hc : isNameStart c = true)
    (hcs : ∀ x ∈ cs, isNameChar x = true) (hrest : ∀ x ∈ rest.head?, WordBreak x) :
    tokenAt c (cs ++ rest) = .ok (wordToken (String.ofList (c :: cs)), cs.length) := by
  have hd : ¬Text.isDecimal c = true := by simp [isDecimal_of_isNameStart hc]
  unfold tokenAt
  rw [if_neg hd, if_pos hc]
  simp only [takeWhile_append_stop hcs fun x hx => (hrest x hx).2.2, List.take_left]
  rfl

/-- A sign that starts no operator of two characters with what follows it is a token of
its own. -/
theorem tokenAt_single {c : Char} {cs : List Char} (hs : singleOps.contains c = true)
    (hd : Text.isDecimal c = false) (hn : isNameStart c = false)
    (hp : ∀ d ∈ cs.head?, pairOps.contains (String.ofList [c, d]) = false) :
    tokenAt c cs = .ok (.op (String.singleton c), 0) := by
  unfold tokenAt
  rw [if_neg (by simp [hd]), if_neg (by simp [hn])]
  rcases cs with _ | ⟨d, cs⟩
  · simp only [Bool.false_eq_true, if_false, if_pos hs]
    rfl
  · simp only [hp d rfl, Bool.false_eq_true, if_false, if_pos hs]
    rfl

theorem tokenAt_pair {c d : Char} {cs : List Char} (hd : Text.isDecimal c = false)
    (hn : isNameStart c = false) (hp : pairOps.contains (String.ofList [c, d]) = true) :
    tokenAt c (d :: cs) = .ok (.op (String.ofList [c, d]), 1) := by
  unfold tokenAt
  rw [if_neg (by simp [hd]), if_neg (by simp [hn])]
  simp only [hp, if_true]
  rfl

/-- A bracket is a token whatever follows it. -/
theorem scan_bracket {c : Char} (hc : c ∈ ['(', ')', '[', ']']) (cs : List Char) :
    scan (c :: cs) = (.op (String.singleton c) :: ·) <$> scan cs := by
  have hfacts : Text.isBlank c = false ∧ singleOps.contains c = true ∧
      Text.isDecimal c = false ∧ isNameStart c = false ∧
      c ∉ ['&', '|', '/', '<', '>', '!', '='] := by
    simp only [List.mem_cons, List.not_mem_nil, or_false] at hc
    rcases hc with rfl | rfl | rfl | rfl <;> decide
  obtain ⟨hb, hs, hd, hn, hfirst⟩ := hfacts
  have hp : ∀ d ∈ cs.head?, pairOps.contains (String.ofList [c, d]) = false := by
    intro d _
    cases hpair : pairOps.contains (String.ofList [c, d]) with
    | false => rfl
    | true => exact absurd (pairOps_first hpair) hfirst
  rw [scan_token hb (tokenAt_single hs hd hn hp), List.drop_zero]

/-- A sign followed by a blank is a token of its own. -/
theorem scan_single_blank {c : Char} (hs : singleOps.contains c = true)
    (hd : Text.isDecimal c = false) (hn : isNameStart c = false) (hb : Text.isBlank c = false)
    (hp : pairOps.contains (String.ofList [c, ' ']) = false) (cs : List Char) :
    scan (c :: ' ' :: cs) = (.op (String.singleton c) :: ·) <$> scan cs := by
  rw [scan_token hb (tokenAt_single hs hd hn fun d hd' => by cases hd'; exact hp),
    List.drop_zero, scan_blank (by decide)]

/-- An operator of two characters followed by a blank is one token. -/
theorem scan_pair_blank {c d : Char} (hd : Text.isDecimal c = false)
    (hn : isNameStart c = false) (hb : Text.isBlank c = false)
    (hp : pairOps.contains (String.ofList [c, d]) = true) (cs : List Char) :
    scan (c :: d :: ' ' :: cs) = (.op (String.ofList [c, d]) :: ·) <$> scan cs := by
  rw [scan_token hb (tokenAt_pair hd hn hp), List.drop_one, List.tail_cons, scan_blank (by decide)]

theorem scan_binOp (op : BinOp) (cs : List Char) :
    scan (op.symbol.toList ++ ' ' :: cs) = (.op op.symbol :: ·) <$> scan cs := by
  cases op
  all_goals first
    | exact scan_single_blank (by decide) (by decide) (by decide) (by decide) (by decide) cs
    | exact scan_pair_blank (by decide) (by decide) (by decide) (by decide) cs

theorem scan_unOp (op : UnOp) (cs : List Char) :
    scan (op.symbol.toList ++ ' ' :: cs) = (.op op.symbol :: ·) <$> scan cs := by
  cases op
  all_goals exact scan_single_blank (by decide) (by decide) (by decide) (by decide) (by decide) cs

/-- A name followed by a character that ends it is one name token. -/
theorem scan_name {n : String} (h : NameShaped n) {rest : List Char} {us : List Token}
    (hrest : ∀ x ∈ rest.head?, WordBreak x) (hus : scan rest = .ok us) :
    scan (n.toList ++ rest) = .ok (.ident n :: us) := by
  obtain ⟨c, cs, hn, hc⟩ := h.first
  have hrun : ∀ x ∈ cs, isNameChar x = true := fun x hx => h.chars x (hn ▸ List.mem_cons_of_mem c hx)
  rw [hn, List.cons_append, scan_token (isBlank_of_isNameChar (isNameChar_of_isNameStart hc))
    (tokenAt_name hc hrun hrest), List.drop_left, hus, ← hn, String.ofList_toList, h.notWord]
  rfl

/-! ## The names the scanner returns -/

theorem wordToken_ident {w n : String} (h : wordToken w = .ident n) :
    n = w ∧ wordToken n = .ident n := by
  unfold wordToken at h
  by_cases hand : w = "and" ∨ w = "AND"
  · rw [if_pos hand] at h
    cases h
  · by_cases hor : w = "or" ∨ w = "OR"
    · rw [if_neg hand, if_pos hor] at h
      cases h
    · by_cases hnot : w = "not" ∨ w = "NOT"
      · rw [if_neg hand, if_neg hor, if_pos hnot] at h
        cases h
      · rw [if_neg hand, if_neg hor, if_neg hnot] at h
        cases h
        unfold wordToken
        rw [if_neg hand, if_neg hor, if_neg hnot]
        exact ⟨rfl, rfl⟩

/-- A token that starts with neither a digit nor a letter is an operator. -/
theorem tokenAt_sign {c : Char} {cs : List Char} {t : Token} {k : Nat}
    (hd : ¬Text.isDecimal c = true) (hs : ¬isNameStart c = true) (h : tokenAt c cs = .ok (t, k)) :
    ∃ s, t = .op s := by
  unfold tokenAt at h
  rw [if_neg hd, if_neg hs] at h
  have hsingle : (if singleOps.contains c = true then pure (Token.op (String.singleton c), 0)
      else throw (SyntaxError.badChar c) : Except SyntaxError (Token × Nat)) = .ok (t, k) →
      ∃ s, t = .op s := by
    intro hsingle
    by_cases hc : singleOps.contains c = true
    · rw [if_pos hc] at hsingle
      cases hsingle
      exact ⟨_, rfl⟩
    · rw [if_neg hc] at hsingle
      cases hsingle
  rcases cs with _ | ⟨d, cs⟩
  · simp only [Bool.false_eq_true, if_false] at h
    exact hsingle h
  · simp only at h
    by_cases hp : pairOps.contains (String.ofList [c, d]) = true
    · rw [if_pos hp] at h
      cases h
      exact ⟨_, rfl⟩
    · rw [if_neg hp] at h
      exact hsingle h

/-- A name token is read by the name branch: its text is a letter and the name characters
after it. -/
theorem tokenAt_ident {c : Char} {cs : List Char} {n : String} {k : Nat}
    (h : tokenAt c cs = .ok (.ident n, k)) : NameShaped n ∧ n.toList <+: c :: cs := by
  by_cases hd : Text.isDecimal c = true
  · unfold tokenAt at h
    rw [if_pos hd] at h
    cases h
  by_cases hs : isNameStart c = true
  · unfold tokenAt at h
    rw [if_neg hd, if_pos hs] at h
    obtain ⟨hw, -⟩ := Prod.mk.inj (Except.ok.inj h)
    obtain ⟨rfl, hword⟩ := wordToken_ident hw
    have hpre := List.takeWhile_prefix isNameChar (l := cs)
    have htake : cs.take (cs.takeWhile isNameChar).length = cs.takeWhile isNameChar :=
      (List.prefix_iff_eq_take.mp hpre).symm
    rw [htake] at hword ⊢
    refine ⟨⟨⟨c, _, String.toList_ofList, hs⟩, ?_, hword⟩, ?_⟩
    · intro x hx
      rw [String.toList_ofList] at hx
      rcases List.mem_cons.mp hx with rfl | hx
      · exact isNameChar_of_isNameStart hs
      · exact List.all_eq_true.mp List.all_takeWhile x hx
    · rw [String.toList_ofList]
      exact List.cons_prefix_cons.mpr ⟨rfl, List.takeWhile_prefix isNameChar⟩
  · obtain ⟨s, hs'⟩ := tokenAt_sign hd hs h
    cases hs'

/-- Every name the scanner returns is shaped as a name and stands in the text. -/
theorem scan_idents {cs : List Char} {ts : List Token} (h : scan cs = .ok ts) :
    ∀ n, Token.ident n ∈ ts → NameShaped n ∧ n.toList <:+: cs := by
  fun_induction scan cs generalizing ts with
  | case1 =>
    cases h
    intro n hn
    cases hn
  | case2 c cs hb ih =>
    intro n hn
    obtain ⟨hshape, hin⟩ := ih h n hn
    exact ⟨hshape, List.infix_cons hin⟩
  | case3 c cs hb e he => cases h
  | case4 c cs hb t k hk _ ih =>
    rcases hrest : scan (cs.drop k) with e | us
    · rw [hrest] at h
      cases h
    · rw [hrest] at h
      cases h
      intro n hn
      rcases List.mem_cons.mp hn with rfl | hn
      · obtain ⟨hshape, hpre⟩ := tokenAt_ident hk
        exact ⟨hshape, hpre.isInfix⟩
      · obtain ⟨hshape, hin⟩ := ih hrest n hn
        exact ⟨hshape, List.infix_cons (hin.trans (List.drop_suffix k cs).isInfix)⟩

end DnclTrace.Expr
