import DnclTrace.Expr.Spelling

/-!
# What normalising leaves in a text

`replaceAll` copies a text and writes `rep` where `pat` starts. When `rep` is not empty
and shares no character with a word `q`, an occurrence of `q` in the copy can neither
start in a replacement nor run into one, so it is an occurrence in the text; and it is
not `pat`, which would have been replaced where it starts (`infix_of_infix_replaceAll`).
No canonical form of `wordSpellings` shares a character with a spelling, so after
normalising no spelling occurs in a text (`normalize_spellingFree`), and a text without
spellings or full-width forms is its own normal form (`normalize_eq_self`). No spelling
holds an ASCII character, so texts without spellings joined at an ASCII character hold
none (`SpellingFree.append_cons`).
-/

namespace DnclTrace.Expr

/-- No operator spelling occurs in the text. -/
def SpellingFree (cs : List Char) : Prop := ∀ sp ∈ wordSpellings, ¬sp.1.toList <:+: cs

namespace SpellingFree

/-- No spelling is empty, and every character of a spelling lies outside ASCII. -/
theorem spelling_codes : ∀ sp ∈ wordSpellings,
    sp.1.toList ≠ [] ∧ ∀ n ∈ sp.1.toList.map Char.toNat, 128 ≤ n := by
  decide

theorem spelling_ne_nil {sp : String × String} (hsp : sp ∈ wordSpellings) : sp.1.toList ≠ [] :=
  (spelling_codes sp hsp).1

theorem spelling_chars {sp : String × String} (hsp : sp ∈ wordSpellings) {y : Char}
    (hy : y ∈ sp.1.toList) : 128 ≤ y.toNat :=
  (spelling_codes sp hsp).2 _ (List.mem_map_of_mem hy)

theorem of_within {cs xs : List Char} (h : SpellingFree cs) (hi : xs <:+: cs) : SpellingFree xs :=
  fun sp hsp hx => h sp hsp (hx.trans hi)

/-- A text of ASCII characters holds no spelling. -/
theorem of_ascii {cs : List Char} (h : ∀ c ∈ cs, c.toNat < 128) : SpellingFree cs := by
  intro sp hsp hi
  obtain ⟨y, ys, hy⟩ := List.exists_cons_of_ne_nil (spelling_ne_nil hsp)
  have hbig := spelling_chars hsp (hy ▸ List.mem_cons_self)
  have hsmall := h y (hi.sublist.subset (hy ▸ List.mem_cons_self))
  omega

/-- A prefix of `a ++ x :: b` without `x` is a prefix of `a`. -/
theorem prefix_of_prefix_append_cons {x : Char} {b : List Char} :
    ∀ {a q : List Char}, x ∉ q → q <+: a ++ x :: b → q <+: a
  | [], q, hx, h => by
    rcases List.prefix_cons_iff.mp h with rfl | ⟨t, rfl, -⟩
    · exact List.nil_prefix
    · exact absurd List.mem_cons_self hx
  | y :: a, [], _, _ => List.nil_prefix
  | y :: a, z :: q, hx, h => by
    obtain ⟨rfl, hq⟩ := List.cons_prefix_cons.mp h
    exact List.cons_prefix_cons.mpr
      ⟨rfl, prefix_of_prefix_append_cons (fun hm => hx (List.mem_cons_of_mem z hm)) hq⟩

/-- A word without `x` that occurs in `a ++ x :: b` occurs in `a` or in `b`. -/
theorem infix_of_infix_append_cons {x : Char} {b : List Char} :
    ∀ {a q : List Char}, x ∉ q → q <:+: a ++ x :: b → q <:+: a ∨ q <:+: b
  | [], q, hx, h => by
    rcases List.infix_cons_iff.mp h with hp | hi
    · rcases List.prefix_cons_iff.mp hp with rfl | ⟨t, rfl, -⟩
      · exact .inl List.nil_infix
      · exact absurd List.mem_cons_self hx
    · exact .inr hi
  | y :: a, q, hx, h => by
    rcases List.infix_cons_iff.mp h with hp | hi
    · exact .inl (prefix_of_prefix_append_cons (a := y :: a) hx hp).isInfix
    · rcases infix_of_infix_append_cons hx hi with ha | hb
      · exact .inl (List.infix_cons ha)
      · exact .inr hb

/-- Texts without spellings joined at an ASCII character hold none. -/
theorem append_cons {a b : List Char} {x : Char} (ha : SpellingFree a) (hb : SpellingFree b)
    (hx : x.toNat < 128) : SpellingFree (a ++ x :: b) := by
  intro sp hsp hi
  have hxq : x ∉ sp.1.toList := fun hm => by
    have := spelling_chars hsp hm
    omega
  rcases infix_of_infix_append_cons hxq hi with hin | hin
  · exact ha sp hsp hin
  · exact hb sp hsp hin

end SpellingFree

theorem replaceAll_cons_kept {pat rep : List Char} {c : Char} {cs : List Char}
    (h : ¬(pat ≠ [] ∧ pat.isPrefixOf (c :: cs))) :
    replaceAll pat rep (c :: cs) = c :: replaceAll pat rep cs := by
  rw [replaceAll, dif_neg h]

/-- A text in which `pat` does not occur is copied unchanged. -/
theorem replaceAll_of_absent {pat rep : List Char} :
    ∀ {s : List Char}, ¬pat <:+: s → replaceAll pat rep s = s
  | [], _ => replaceAll_nil_source pat rep
  | c :: cs, h => by
    have hstart : ¬(pat ≠ [] ∧ pat.isPrefixOf (c :: cs)) := by
      intro hp
      have hpre := List.isPrefixOf_iff_prefix.mp hp.2
      exact h hpre.isInfix
    rw [replaceAll_cons_kept hstart, replaceAll_of_absent (fun hi => h (List.infix_cons hi))]

/-- A word whose first character is not in `a` occurs in `a ++ b` only inside `b`. -/
theorem infix_of_infix_append_left {q b : List Char} (hq : q ≠ []) :
    ∀ {a : List Char}, (∀ x ∈ q, x ∉ a) → q <:+: a ++ b → q <:+: b
  | [], _, h => h
  | y :: a, hd, h => by
    rcases List.infix_cons_iff.mp h with hp | hi
    · -- an occurrence at the front would start with `y`
      obtain ⟨x, q', rfl⟩ := List.exists_cons_of_ne_nil hq
      obtain ⟨rfl, -⟩ := List.cons_prefix_cons.mp hp
      exact absurd List.mem_cons_self (hd x List.mem_cons_self)
    · exact infix_of_infix_append_left hq (fun x hx hxa => hd x hx (List.mem_cons_of_mem y hxa)) hi

/-- A word of characters outside a nonempty `rep` that starts the copy starts the text. -/
theorem prefix_of_prefix_replaceAll {pat rep p : List Char} (hrep : rep ≠ [])
    (hp : ∀ x ∈ p, x ∉ rep) (s : List Char) (h : p <+: replaceAll pat rep s) : p <+: s := by
  fun_induction replaceAll pat rep s generalizing p with
  | case1 => exact h
  | case2 c cs hstart ih =>
    -- a nonempty `p` would start with the first character of `rep`
    rcases p with _ | ⟨x, p'⟩
    · exact List.nil_prefix
    · obtain ⟨r, rs, rfl⟩ := List.exists_cons_of_ne_nil hrep
      obtain ⟨rfl, -⟩ := List.cons_prefix_cons.mp h
      exact absurd List.mem_cons_self (hp x List.mem_cons_self)
  | case3 c cs hstart ih =>
    rcases p with _ | ⟨x, p'⟩
    · exact List.nil_prefix
    · obtain ⟨rfl, hrest⟩ := List.cons_prefix_cons.mp h
      exact List.cons_prefix_cons.mpr ⟨rfl, ih (fun y hy => hp y (List.mem_cons_of_mem x hy)) hrest⟩

/-- An occurrence in the copy of a word that shares no character with a nonempty `rep`
is an occurrence in the text, and the word is not `pat`. -/
theorem infix_of_infix_replaceAll {pat rep q : List Char} (hrep : rep ≠ []) (hq : q ≠ [])
    (hd : ∀ x ∈ q, x ∉ rep) (s : List Char) (h : q <:+: replaceAll pat rep s) :
    q <:+: s ∧ q ≠ pat := by
  fun_induction replaceAll pat rep s with
  | case1 => exact absurd (List.eq_nil_of_infix_nil h) hq
  | case2 c cs hstart ih =>
    obtain ⟨hin, hne⟩ := ih (infix_of_infix_append_left hq hd h)
    exact ⟨hin.trans (List.drop_suffix _ _).isInfix, hne⟩
  | case3 c cs hstart ih =>
    rcases List.infix_cons_iff.mp h with hp | hi
    · -- an occurrence at the front of the copy is one at the front of the text
      obtain ⟨x, q', rfl⟩ := List.exists_cons_of_ne_nil hq
      obtain ⟨rfl, hrest⟩ := List.cons_prefix_cons.mp hp
      have hfront : x :: q' <+: x :: cs := List.cons_prefix_cons.mpr
        ⟨rfl, prefix_of_prefix_replaceAll hrep (fun y hy => hd y (List.mem_cons_of_mem x hy)) cs hrest⟩
      refine ⟨hfront.isInfix, ?_⟩
      rintro rfl
      exact hstart ⟨hq, List.isPrefixOf_iff_prefix.mpr hfront⟩
    · obtain ⟨hin, hne⟩ := ih hi
      exact ⟨List.infix_cons hin, hne⟩

/-- The replacements of `sps`, one after another. -/
def replaceEach (sps : List (String × String)) (cs : List Char) : List Char :=
  sps.foldl (fun acc sp => replaceAll sp.1.toList sp.2.toList acc) cs

theorem normalize_toList (s : String) :
    (normalize s).toList = replaceEach wordSpellings (s.toList.map narrowChar) := by
  simp only [normalize, replaceEach, String.toList_ofList]

/-- A word kept apart from every canonical form is absent after the replacements if it
was absent before them or is one of the spellings replaced. -/
theorem not_infix_replaceEach {q : List Char} (hq : q ≠ []) :
    ∀ {sps : List (String × String)}, (∀ sp ∈ sps, sp.2.toList ≠ [] ∧ ∀ x ∈ q, x ∉ sp.2.toList) →
      ∀ {cs : List Char}, (¬q <:+: cs ∨ q ∈ sps.map (·.1.toList)) → ¬q <:+: replaceEach sps cs
  | [], _, _, h => h.resolve_right (fun hm => nomatch hm)
  | sp :: sps, hreps, cs, h => by
    obtain ⟨hrep, hd⟩ := hreps sp List.mem_cons_self
    -- after the first replacement the word is absent, or one of the later spellings
    have hnext : ¬q <:+: replaceAll sp.1.toList sp.2.toList cs ∨ q ∈ sps.map (·.1.toList) := by
      by_cases hsp : q = sp.1.toList
      · exact .inl fun hi => (infix_of_infix_replaceAll hrep hq hd cs hi).2 hsp
      · rcases h with habs | hm
        · exact .inl fun hi => habs (infix_of_infix_replaceAll hrep hq hd cs hi).1
        · exact .inr ((List.mem_cons.mp hm).resolve_left hsp)
    exact not_infix_replaceEach hq (fun sp' hm => hreps sp' (List.mem_cons_of_mem sp hm)) hnext

/-- A text in which no spelling of `sps` occurs goes through the replacements unchanged. -/
theorem replaceEach_of_free : ∀ {sps : List (String × String)} {cs : List Char},
    (∀ sp ∈ sps, ¬sp.1.toList <:+: cs) → replaceEach sps cs = cs
  | [], _, _ => rfl
  | sp :: sps, cs, h => by
    have hstep : replaceAll sp.1.toList sp.2.toList cs = cs :=
      replaceAll_of_absent (h sp List.mem_cons_self)
    show replaceEach sps (replaceAll sp.1.toList sp.2.toList cs) = cs
    rw [hstep]
    exact replaceEach_of_free fun sp' hm => h sp' (List.mem_cons_of_mem sp hm)

/-- Each canonical form is nonempty and shares no character with any spelling. -/
theorem wordSpellings_apart {sp sp' : String × String} (hsp : sp ∈ wordSpellings)
    (hsp' : sp' ∈ wordSpellings) : sp'.2.toList ≠ [] ∧ ∀ x ∈ sp.1.toList, x ∉ sp'.2.toList := by
  have hcodes : ∀ sp ∈ wordSpellings, ∀ sp' ∈ wordSpellings, sp'.2.toList ≠ [] ∧
      ∀ n ∈ sp.1.toList.map Char.toNat, n ∉ sp'.2.toList.map Char.toNat := by
    decide
  obtain ⟨hne, hapart⟩ := hcodes sp hsp sp' hsp'
  exact ⟨hne, fun x hx hx' => hapart _ (List.mem_map_of_mem hx) (List.mem_map_of_mem hx')⟩

/-- After normalising, no operator spelling is left anywhere in the text, inside names
included. -/
theorem normalize_spellingFree (s : String) : SpellingFree (normalize s).toList := by
  intro sp hsp
  rw [normalize_toList]
  exact not_infix_replaceEach (SpellingFree.spelling_ne_nil hsp)
    (fun sp' hm => wordSpellings_apart hsp hm) (.inr (List.mem_map_of_mem hsp))

/-- Narrowing changes only the full-width forms, the minus sign, the multiplication sign
and the ideographic space, none of which is ASCII. -/
theorem narrowChar_of_lt {c : Char} (h : c.toNat < 128) : narrowChar c = c := by
  unfold narrowChar
  split
  all_goals first
    | rfl
    | exact absurd h (by decide)

/-- A text that narrowing leaves alone and where no spelling occurs is normal. -/
theorem normalize_eq_self {s : String} (hn : ∀ c ∈ s.toList, narrowChar c = c)
    (hf : SpellingFree s.toList) : normalize s = s := by
  apply String.toList_inj.mp
  have hmap : s.toList.map narrowChar = s.toList := by
    simpa using List.map_congr_left hn
  rw [normalize_toList, hmap, replaceEach_of_free hf]

end DnclTrace.Expr
