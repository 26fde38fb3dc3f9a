import MetaPostEditor.Proofs.Freshness
import Mathlib.Algebra.GroupWithZero.Nat
import Mathlib.Data.List.DropRight
import Mathlib.Data.String.Basic

/-!
# The tag of a character, without a scanner

The scanner goes from state to state, and a character is tagged when its token is complete.  Where
comments are not shown, the outcome can be said without states.  Three things decide:

* the number of quotes before the character, which tells whether it is inside a string
  (`Scanner.State.inString_run_iff`);
* the character itself;
* for a letter, the longest stretch of letters around it (`wordAround`), which is a token of its own
  wherever it stands outside a string (`classify_of_lettersAt`).

Words are looked up by halving a table.  The tables are in ascending order, so this finds just the
words that are in them (`Lexicon.isKeyword_iff`, `Lexicon.isDatatype_iff`).  The main result is
`tokenize_exactly`.
-/

namespace MetaPostEditor

/-! ## Looking up words -/

namespace Lexicon

/-- In a table in ascending order, the words on the other side of the middle need no look. -/
lemma search_iff {word : String} {table : List String} (hsorted : table.Pairwise (· < ·))
    {steps : Nat} (hsteps : table.length ≤ steps) :
    search word steps table = true ↔ word ∈ table := by
  induction steps generalizing table with
  | zero =>
    obtain rfl : table = [] := List.length_eq_zero_iff.1 (Nat.le_zero.1 hsteps)
    simp [search]
  | succ steps ih =>
    have hsplit := List.take_append_drop (table.length / 2) table
    have hfront : (table.take (table.length / 2)).length ≤ table.length / 2 :=
      List.length_take_le _ _
    rw [search]
    cases hdrop : table.drop (table.length / 2) with
    | nil =>
      have hlen : table.length ≤ table.length / 2 := List.drop_eq_nil_iff.1 hdrop
      obtain rfl : table = [] := List.length_eq_zero_iff.1 (by omega)
      simp
    | cons middle behind =>
      rw [hdrop] at hsplit
      generalize table.take (table.length / 2) = front at hsplit hfront
      have hlen := congrArg List.length hsplit
      rw [List.length_append, List.length_cons] at hlen
      rw [← hsplit, List.pairwise_append, List.pairwise_cons] at hsorted
      obtain ⟨hsorted₁, ⟨hmiddle, hsorted₂⟩, hacross⟩ := hsorted
      have hmem : word ∈ table ↔ word ∈ front ∨ word = middle ∨ word ∈ behind := by
        rw [← hsplit, List.mem_append, List.mem_cons]
      rw [hmem]
      rcases lt_trichotomy word middle with hlt | rfl | hgt
      · have hbehind : word ∉ behind := fun h => lt_asymm hlt (hmiddle word h)
        simp only [compare_lt_iff_lt.2 hlt, ih hsorted₁ (by omega), hlt.ne, hbehind, or_false]
      · simp
      · have hnot : word ∉ front := fun h => lt_asymm hgt (hacross word h middle (by simp))
        simp only [compare_gt_iff_gt.2 hgt, ih hsorted₂ (by omega), hgt.ne', hnot, false_or]

lemma keywords_ascending : keywords.Pairwise (· < ·) :=
  List.isChain_iff_pairwise.1 (by decide +kernel)

lemma datatypes_ascending : datatypes.Pairwise (· < ·) :=
  List.isChain_iff_pairwise.1 (by decide +kernel)

lemma isKeyword_iff (word : String) : isKeyword word = true ↔ word ∈ keywords :=
  search_iff keywords_ascending le_rfl

lemma isDatatype_iff (word : String) : isDatatype word = true ↔ word ∈ datatypes :=
  search_iff datatypes_ascending le_rfl

end Lexicon

/-! ## The rule -/

/-- A character that words are made of.  What is a digit as well counts as a digit. -/
def isLetter (c : Char) : Bool :=
  Unicode.isAlphabetic c && !Unicode.isNumeric c

/-- The longest stretch of letters that goes over the place `i`. -/
def wordAround (text : List Char) (i : Nat) : List Char :=
  (text.take i).rtakeWhile isLetter ++ (text.drop i).takeWhile isLetter

/-- The tag of a word. -/
def wordTag (word : List Char) : Tag :=
  if String.ofList word ∈ Lexicon.keywords then .keyword
  else if String.ofList word ∈ Lexicon.datatypes then .datatype
  else .normal

/-- The number of quotes before the place `i`.  For a scan that starts inside a string, the quote
that opens the string counts. -/
def quotesBefore (s : Scanner.State) (text : List Char) (i : Nat) : Nat :=
  (text.take i).count '"' + if s.inString then 1 else 0

/-- The tag of the character `c` at the place `i`, where comments are not shown. -/
def tagAt (s : Scanner.State) (text : List Char) (i : Nat) (c : Char) : Tag :=
  if c = '"' then .normal
  else if quotesBefore s text i % 2 = 1 then .quoted
  else if Unicode.isNumeric c then .digits
  else if Unicode.isAlphabetic c then wordTag (wordAround text i)
  else .normal

/-! ## Longest stretches of letters -/

/-- A longest stretch `w` of letters in a text, with what stands before and behind it. -/
structure LettersAt (text p w q : List Char) : Prop where
  split : text = p ++ w ++ q
  letters : ∀ c ∈ w, isLetter c = true
  before : ∀ c, p.getLast? = some c → isLetter c = false
  behind : ∀ c, q.head? = some c → isLetter c = false

/-- The stretch around a place is one of the longest, and the place is in it or at one of its
ends. -/
lemma lettersAt_wordAround (a b : List Char) :
    ∃ p l r q, a = p ++ l ∧ b = r ++ q ∧ wordAround (a ++ b) a.length = l ++ r ∧
      LettersAt (a ++ b) p (l ++ r) q ∧ r = b.takeWhile isLetter := by
  have ha : a = a.rdropWhile isLetter ++ a.rtakeWhile isLetter :=
    List.rdropWhile_append_rtakeWhile.symm
  have hb : b = b.takeWhile isLetter ++ b.dropWhile isLetter :=
    List.takeWhile_append_dropWhile.symm
  refine ⟨_, _, _, _, ha, hb, by rw [wordAround, List.take_left, List.drop_left], ?_, rfl⟩
  constructor
  · conv => lhs; rw [ha, hb]
    simp only [List.append_assoc]
  · intro c hc
    rcases List.mem_append.1 hc with hc | hc
    · exact List.mem_rtakeWhile_imp hc
    · exact List.all_eq_true.1 List.all_takeWhile c hc
  · intro c hc
    have hne : a.rdropWhile isLetter ≠ [] := by
      intro hnil
      simp [hnil] at hc
    rw [List.getLast?_eq_some_getLast hne, Option.some.injEq] at hc
    have hlast := List.rdropWhile_last_not isLetter a hne
    rw [hc] at hlast
    simpa using hlast
  · intro c hc
    have hhead := List.head?_dropWhile_not isLetter b
    rw [hc] at hhead
    exact hhead

namespace Scanner

/-- Where comments are not shown, a state matters by its side of a string only. -/
lemma State.step_plain (s : State) (c : Char) :
    s.step false c =
      if s.inString then if c = '"' then .closeQuote else .quoted
      else if Unicode.isNumeric c then .digits
      else if Unicode.isAlphabetic c then .word
      else if c = '"' then .openQuote
      else .normal := by
  simp [State.step]

lemma State.step_letter {s : State} (hs : s.inString = false) {c : Char}
    (hc : isLetter c = true) : s.step false c = .word := by
  rw [isLetter, Bool.and_eq_true, Bool.not_eq_true'] at hc
  simp [State.step_plain, hs, hc]

/-- Only letters lead into a word. -/
lemma State.isLetter_of_step {s : State} {c : Char} (h : s.step false c = .word) :
    isLetter c = true := by
  rw [State.step_plain] at h
  split at h
  · split at h <;> cases h
  · split at h
    · cases h
    · next hnum =>
      split at h
      · next halpha => simp [isLetter, hnum, halpha]
      · split at h <;> cases h

/-- The quotes before a place tell whether it is inside a string. -/
lemma State.inString_run_iff (s : State) (text : List Char) (i : Nat) :
    (s.run false (text.take i)).inString = true ↔ quotesBefore s text i % 2 = 1 := by
  rw [State.inString_run, quotesBefore]
  rcases Nat.mod_two_eq_zero_or_one ((text.take i).count '"') with hn | hn <;>
    cases s.inString <;> simp [hn, Nat.add_mod]

lemma trace_letters {s : State} (hs : s.inString = false) {w : List Char}
    (hw : ∀ c ∈ w, isLetter c = true) : trace false s w = w.map (Prod.mk .word) := by
  induction w generalizing s with
  | nil => rfl
  | cons c w ih =>
    have hc := State.step_letter hs (hw c List.mem_cons_self)
    rw [trace, hc, ih rfl fun d hd => hw d (List.mem_cons_of_mem _ hd), List.map_cons]

end Scanner

lemma Scanner.State.tag_word_eq (w : List Char) : State.word.tag w = wordTag w := by
  simp only [State.tag, wordTag, Lexicon.isKeyword_iff, Lexicon.isDatatype_iff]

/-- **A longest stretch of letters outside strings is tagged as one word.** -/
lemma classify_of_lettersAt {text p w q : List Char} (h : LettersAt text p w q) (hne : w ≠ [])
    {s : Scanner.State} (hs : (s.run false p).inString = false) :
    ∃ y, classify false s text = classify false s p ++ w.map (⟨·, wordTag w⟩) ++ y := by
  have hword : Scanner.paint (Scanner.trace false (s.run false p) w) =
      w.map (⟨·, wordTag w⟩) := by
    rw [Scanner.trace_letters hs h.letters, Scanner.paint, runs_map_mk hne]
    simp [Scanner.State.tag_word_eq]
  refine ⟨classify false ((s.run false p).run false w) q, ?_⟩
  rw [h.split, List.append_assoc, classify, Scanner.trace_append, Scanner.trace_append,
    Scanner.paint_append, Scanner.paint_append, List.append_assoc, ← hword]
  · rfl
  · -- behind the stretch stands no letter
    intro c d _ hd
    obtain ⟨hhead, hstep⟩ := Scanner.head?_trace hd
    have hletter := Scanner.State.isLetter_of_step hstep.symm
    rw [h.behind d hhead] at hletter
    exact Bool.false_ne_true hletter
  · -- before the stretch stands no letter
    intro c d hc _
    obtain ⟨hlast, u, hstep⟩ := Scanner.getLast?_trace hc
    have hletter := Scanner.State.isLetter_of_step hstep.symm
    rw [h.before c hlast] at hletter
    exact Bool.false_ne_true hletter

/-! ## The rule is what a scan gives -/

/-- The cell of a character has a tag that the state behind the character can give. -/
lemma exists_getElem?_classify (s : Scanner.State) (a : List Char) (c : Char) (b : List Char) :
    ∃ w, (classify false s (a ++ c :: b))[a.length]? =
      some ⟨c, ((s.run false a).step false c).tag w⟩ := by
  have htinted := forall₂_classify false s (a ++ c :: b)
  rw [Scanner.trace_append] at htinted
  have hlen : (Scanner.trace false s a).length = a.length := by
    rw [← List.length_map Prod.snd, Scanner.map_snd_trace]
  have hrest := List.forall₂_drop_append _ _ _ htinted
  rw [hlen, Scanner.trace] at hrest
  obtain ⟨⟨d, tag⟩, cells, ⟨hchar, w, htag⟩, -, hcells⟩ := List.forall₂_cons_right_iff.1 hrest
  obtain rfl : d = c := hchar
  obtain rfl : tag = ((s.run false a).step false d).tag w := htag
  exact ⟨w, by rw [← List.head?_drop, hcells, List.head?_cons]⟩

/-- Outside strings, a letter has the tag of the word around it. -/
lemma getElem?_classify_letter {s : Scanner.State} {a : List Char} {c : Char}
    (hs : (s.run false a).inString = false) (hc : isLetter c = true) (b : List Char) :
    (classify false s (a ++ c :: b))[a.length]? =
      some ⟨c, wordTag (wordAround (a ++ c :: b) a.length)⟩ := by
  obtain ⟨p, l, r, q, rfl, -, hword, hat, hr⟩ := lettersAt_wordAround a (c :: b)
  rw [List.takeWhile_cons_of_pos hc] at hr
  -- there is no quote among the letters before the place
  have hquote : '"' ∉ l := by
    intro hmem
    have hletter := hat.letters '"' (List.mem_append_left _ hmem)
    exact absurd hletter (by decide +kernel)
  have hside : (s.run false p).inString = false := by
    refine Eq.trans ((Scanner.State.inString_run_eq_iff s p (p ++ l)).2 ?_) hs
    rw [List.count_append, List.count_eq_zero.2 hquote, Nat.add_zero]
  obtain ⟨y, hy⟩ := classify_of_lettersAt hat (by simp [hr]) hside
  have hlen : (classify false s p).length ≤ (p ++ l).length := by simp
  have hplace : (p ++ l).length - (classify false s p).length = l.length := by simp
  rw [hy, hword, List.append_assoc, List.getElem?_append_right hlen, hplace, hr, List.map_append,
    List.append_assoc, List.getElem?_append_right (by simp)]
  simp

lemma getElem?_classify (s : Scanner.State) (a : List Char) (c : Char) (b : List Char) :
    (classify false s (a ++ c :: b))[a.length]? =
      some ⟨c, tagAt s (a ++ c :: b) a.length c⟩ := by
  have hside := Scanner.State.inString_run_iff s (a ++ c :: b) a.length
  rw [List.take_left] at hside
  obtain ⟨w, hcell⟩ := exists_getElem?_classify s a c b
  rw [Scanner.State.step_plain] at hcell
  rw [tagAt]
  by_cases hquote : c = '"'
  · subst hquote
    have hnum : Unicode.isNumeric '"' = false := by decide +kernel
    have halpha : Unicode.isAlphabetic '"' = false := by decide +kernel
    rw [hcell, if_pos rfl]
    cases (s.run false a).inString <;> simp [hnum, halpha, Scanner.State.tag]
  · rw [if_neg hquote]
    cases hstring : (s.run false a).inString with
    | true =>
      rw [hcell, if_pos (hside.1 hstring), if_pos hstring, if_neg hquote]
      rfl
    | false =>
      rw [if_neg (by rw [← hside, hstring]; exact Bool.false_ne_true)]
      rw [hstring, if_neg Bool.false_ne_true] at hcell
      cases hnum : Unicode.isNumeric c with
      | true =>
        rw [hcell, if_pos hnum]
        rfl
      | false =>
        cases halpha : Unicode.isAlphabetic c with
        | true => exact getElem?_classify_letter hstring (by simp [isLetter, hnum, halpha]) b
        | false =>
          rw [hcell]
          simp [hnum, halpha, hquote, Scanner.State.tag]

/-- Where comments are not shown, each character is tagged by the rule. -/
lemma tagsOf_tokenize (s : Scanner.State) (text : List Char) :
    tagsOf (tokenize false s text) = text.mapIdx (tagAt s text) := by
  rw [← map_tag_classify]
  refine List.ext_getElem? fun i => ?_
  rw [List.getElem?_map, List.getElem?_mapIdx]
  cases hi : text[i]? with
  | none =>
    have hle : text.length ≤ i := List.getElem?_eq_none_iff.1 hi
    rw [List.getElem?_eq_none (by simpa using hle)]
    rfl
  | some c =>
    obtain ⟨hlt, hc⟩ := List.getElem?_eq_some_iff.1 hi
    have hsplit : text.take i ++ c :: text.drop (i + 1) = text := by
      rw [← hc, List.getElem_cons_drop, List.take_append_drop]
    have hcell := getElem?_classify s (text.take i) c (text.drop (i + 1))
    rw [hsplit, List.length_take_of_le hlt.le] at hcell
    rw [hcell]
    rfl

/-! ## Tokens lie side by side -/

namespace Scanner

lemma length_of_mem_tokensFrom {start : Nat} {rs : List (State × List Char)} {t : Token}
    (hne : ∀ r ∈ rs, r.2 ≠ []) (ht : t ∈ tokensFrom start rs) :
    0 < t.length ∧ t.length = t.text.length := by
  induction rs generalizing start with
  | nil => simp [tokensFrom] at ht
  | cons r rest ih =>
    rw [tokensFrom, List.mem_cons] at ht
    rcases ht with rfl | ht
    · exact ⟨List.length_pos_iff.2 (hne r List.mem_cons_self), rfl⟩
    · exact ih (fun r' hr' => hne r' (List.mem_cons_of_mem _ hr')) ht

/-- A token starts where the tokens before it end. -/
lemma start_of_tokensFrom {start : Nat} {rs : List (State × List Char)} {before after : List Token}
    {t : Token} (h : tokensFrom start rs = before ++ t :: after) :
    t.start = start + (before.map (·.length)).sum := by
  induction rs generalizing start before with
  | nil => simp [tokensFrom] at h
  | cons r rest ih =>
    rw [tokensFrom] at h
    cases before with
    | nil =>
      rw [List.nil_append, List.cons.injEq] at h
      rw [← h.1]
      rfl
    | cons u before =>
      rw [List.cons_append, List.cons.injEq] at h
      rw [ih h.2, List.map_cons, List.sum_cons, ← h.1, Nat.add_assoc]

end Scanner

/-- **What a scan gives, from every state.**  The tokens lie side by side and make up the text, and
none is empty.  Where comments are not shown, a character has the tag that `tagAt` says, from the
quotes before it, from itself and, for a letter, from the word around it.  Words are looked up in
tables, which finds those that are in them and no others. -/
theorem tokenize_exactly (comments : Bool) (s : Scanner.State) (text : List Char) :
    (tokenize comments s text).flatMap (·.text) = text ∧
    (∀ t ∈ tokenize comments s text, 0 < t.length ∧ t.length = t.text.length) ∧
    (∀ before t after, tokenize comments s text = before ++ t :: after →
      t.start = (before.map (·.length)).sum) ∧
    tagsOf (tokenize false s text) = text.mapIdx (tagAt s text) ∧
    ∀ word, (Lexicon.isKeyword word = true ↔ word ∈ Lexicon.keywords) ∧
      (Lexicon.isDatatype word = true ↔ word ∈ Lexicon.datatypes) := by
  refine ⟨flatMap_text_tokenize comments s text, ?_, ?_, tagsOf_tokenize s text, ?_⟩
  · intro t ht
    rw [tokenize_eq] at ht
    exact Scanner.length_of_mem_tokensFrom (fun _ hr => ne_nil_of_mem_runs hr) ht
  · intro before t after h
    rw [tokenize_eq] at h
    rw [Scanner.start_of_tokensFrom h, Nat.zero_add]
  · intro word
    exact ⟨Lexicon.isKeyword_iff word, Lexicon.isDatatype_iff word⟩

/-- A string that was opened before the text ends in it, and a number parts two words. -/
theorem tokenize_exactly_open_string :
    tokenize false .openQuote ['a', '"', 'i', 'f', '1', 'f', 'i', 'x'] =
        [⟨.quoted, ['a'], 0, 1⟩, ⟨.normal, ['"'], 1, 1⟩, ⟨.keyword, ['i', 'f'], 2, 2⟩] ++
          ⟨.digits, ['1'], 4, 1⟩ :: [⟨.normal, ['f', 'i', 'x'], 5, 3⟩] ∧
      (Token.mk .digits ['1'] 4 1).start = ([1, 1, 2] : List Nat).sum ∧
      0 < (Token.mk .normal ['f', 'i', 'x'] 5 3).length ∧
      ['a', '"', 'i', 'f', '1', 'f', 'i', 'x'].mapIdx
          (tagAt .openQuote ['a', '"', 'i', 'f', '1', 'f', 'i', 'x']) =
        [.quoted, .normal, .keyword, .keyword, .digits, .normal, .normal, .normal] := by
  have htokens : tokenize false .openQuote ['a', '"', 'i', 'f', '1', 'f', 'i', 'x'] =
      [⟨.quoted, ['a'], 0, 1⟩, ⟨.normal, ['"'], 1, 1⟩, ⟨.keyword, ['i', 'f'], 2, 2⟩] ++
        ⟨.digits, ['1'], 4, 1⟩ :: [⟨.normal, ['f', 'i', 'x'], 5, 3⟩] := by decide
  obtain ⟨-, hlength, hstart, htags, -⟩ :=
    tokenize_exactly false .openQuote ['a', '"', 'i', 'f', '1', 'f', 'i', 'x']
  refine ⟨htokens, hstart _ _ _ htokens, ?_, ?_⟩
  · exact (hlength _ (by rw [htokens]; simp)).1
  · rw [← htags, htokens]
    rfl

end MetaPostEditor
