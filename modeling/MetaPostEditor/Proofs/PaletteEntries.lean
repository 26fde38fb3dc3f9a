import MetaPostEditor.Proofs.Cutting
import MetaPostEditor.Proofs.HexColors
import MetaPostEditor.Terminal.Palette

/-!
# Entries of a palette

An entry gives a tag a colour and attributes: `keyword = Cyan, bold + underline`.  It is cut at its
first equals sign, at the first comma behind that, and at all plus signs behind the comma.  Around
the words stands white space, and their letters may be of either case (`Text.Spells`).

* `Text.Spells.lower_trim`: in spite of that the words are recognised, and no word is cut apart
  (`Text.Spells.notMem`).
* `Terminal.Color.parse?_render`: a colour is read as it is shown.  Names are tried before numbers
  and numbers before hexadecimal digits, but what is shown is never one of another kind.
* `Terminal.Attributes.parse?_intercalate`: attribute names are read as the union of what they name.

The main result is `Terminal.Palette.setEntry_written`.
-/

namespace MetaPostEditor

namespace Terminal

/-! ## Colours -/

namespace Color

lemma parse?_congr {t u : List Char} (h : Text.lower t = Text.lower u) : parse? t = parse? u := by
  rw [parse?, parse?, h]

/-- A name starts with a small letter. -/
lemma isLower_of_named? {s : String} {c : Color} (h : named? s = some c) :
    ∃ d, s.toList.head? = some d ∧ d.isLower = true := by
  unfold named? at h
  split at h
  all_goals cases h
  all_goals exact ⟨_, rfl, by decide⟩

lemma named?_of_head {d : Char} (hd : d.isLower = false) (ds : List Char) :
    named? (String.ofList (d :: ds)) = none := by
  rw [Option.eq_none_iff_forall_ne_some]
  intro c h
  obtain ⟨e, he, hlower⟩ := isLower_of_named? h
  rw [String.toList_ofList, List.head?_cons, Option.some.injEq] at he
  rw [← he, hd] at hlower
  cases hlower

lemma toList_render_rgb (r g b : UInt8) :
    (rgb r g b).render.toList =
      '#' :: [(r.toNat / 16).digitChar, (r.toNat % 16).digitChar, (g.toNat / 16).digitChar,
        (g.toNat % 16).digitChar, (b.toNat / 16).digitChar, (b.toNat % 16).digitChar] := by
  simp [render, hexByte]

lemma toList_render_indexed (n : UInt8) :
    (indexed n).render.toList = Nat.toDigits 10 n.toNat := by
  simp [render, toString]

lemma pair_digitChar (n : UInt8) :
    Pair (n.toNat / 16).digitChar (n.toNat % 16).digitChar n := by
  have hn : n.toNat < 256 := n.toNat_lt
  exact ⟨n.toNat / 16, n.toNat % 16, ⟨by omega, .inl rfl⟩, ⟨by omega, .inl rfl⟩, by omega⟩

/-- A colour is shown in small letters, and nothing in it is white space or a comma. -/
lemma mem_render {c : Color} {d : Char} (h : d ∈ c.render.toList) :
    d.toLower = d ∧ 33 ≤ d.toNat ∧ d.toNat ≤ 126 ∧ d ≠ ',' := by
  have hdigit : ∀ n < 16, n.digitChar.toLower = n.digitChar ∧ 33 ≤ n.digitChar.toNat ∧
      n.digitChar.toNat ≤ 126 ∧ n.digitChar ≠ ',' := by decide
  cases c with
  | rgb r g b =>
    have hr := r.toNat_lt
    have hg := g.toNat_lt
    have hb := b.toNat_lt
    rw [toList_render_rgb] at h
    simp only [List.mem_cons, List.not_mem_nil, or_false] at h
    rcases h with rfl | rfl | rfl | rfl | rfl | rfl | rfl
    · decide
    all_goals exact hdigit _ (by omega)
  | indexed n =>
    rw [toList_render_indexed] at h
    have hd := Nat.isDigit_of_mem_toDigits (by decide) (by decide) h
    obtain ⟨hge, hle⟩ := Text.toNat_of_isDigit hd
    refine ⟨?_, by omega, by omega, ?_⟩
    · unfold Char.toLower
      rw [dif_neg]
      rintro ⟨hcapital, -⟩
      have hcode : 65 ≤ d.toNat := UInt32.le_iff_toNat_le.1 hcapital
      omega
    · rintro rfl
      exact absurd hge (by decide)
  | default =>
    have hall : "default".toList.all (fun d => d.toLower == d && decide (33 ≤ d.toNat) &&
        decide (d.toNat ≤ 126) && d != ',') = true := by decide
    simpa [and_assoc] using List.all_eq_true.1 hall d h

lemma lower_render (c : Color) : Text.lower c.render.toList = c.render.toList := by
  rw [Text.lower]
  conv_rhs => rw [← List.map_id c.render.toList]
  exact List.map_congr_left fun d hd => (mem_render hd).1

lemma solid_render (c : Color) : Solid c.render.toList :=
  fun _ hd => Unicode.isWhiteSpace_of_visible (mem_render hd).2.1 (mem_render hd).2.2.1

/-- A colour is read as it is shown. -/
lemma parse?_render (c : Color) : parse? c.render.toList = some c := by
  rw [parse?, lower_render]
  cases c with
  | rgb r g b =>
    rw [toList_render_rgb, named?_of_head (by decide), Numeral.read?_of_head (by decide)]
    have hhex := hex?_iff.2 ⟨r, g, b, rfl, _, _, _, _, _, _, .inr rfl, .inl (pair_digitChar r),
      .inl (pair_digitChar g), .inl (pair_digitChar b)⟩
    exact hhex
  | indexed n =>
    have hname : named? (String.ofList (Nat.toDigits 10 n.toNat)) = none := by
      obtain ⟨d, ds, hds⟩ :=
        List.exists_cons_of_ne_nil (Nat.toDigits_ne_nil (n := n.toNat) (b := 10))
      have hdigit : d.isDigit = true := by
        refine Nat.isDigit_of_mem_toDigits (n := n.toNat) (b := 10) (by decide) (by decide) ?_
        rw [hds]
        exact List.mem_cons_self
      have hlower : d.isLower = false := by
        obtain ⟨-, hle⟩ := Text.toNat_of_isDigit hdigit
        unfold Char.isLower
        rw [Bool.and_eq_false_iff, decide_eq_false_iff_not]
        left
        intro hsmall
        have hge : 97 ≤ d.toNat := UInt32.le_iff_toNat_le.1 hsmall
        omega
      rw [hds, named?_of_head hlower]
    have hread : Numeral.read? 10 UInt8.size (Nat.toDigits 10 n.toNat) = some n.toNat :=
      Numeral.read?_toDigits (by decide) (by decide) n.toNat_lt_size
    rw [toList_render_indexed, hname, hread, Option.map_some, UInt8.ofNat_toNat]
    rfl
  | default => rfl

end Color

/-! ## Attributes -/

/-- A name of an attribute, or of no attribute. -/
inductive AttributeName where
  | bold
  | dim
  | italic
  | underline
  | inverse
  | reverse
  | strikethrough
  | none
deriving DecidableEq

namespace AttributeName

/-- The name as it is written. -/
def word : AttributeName → String
  | bold => "bold"
  | dim => "dim"
  | italic => "italic"
  | underline => "underline"
  | inverse => "inverse"
  | reverse => "reverse"
  | strikethrough => "strikethrough"
  | none => "none"

/-- What has the name. -/
def attribute? : AttributeName → Option Attribute
  | bold => some .bold
  | dim => some .dim
  | italic => some .italic
  | underline => some .underline
  | inverse | reverse => some .inverse
  | strikethrough => some .strikethrough
  | none => Option.none

lemma solid_word (n : AttributeName) : Solid n.word.toList := by
  cases n <;> decide

lemma lower_word (n : AttributeName) : Text.lower n.word.toList = n.word.toList := by
  cases n <;> decide

lemma word_ne_nil (n : AttributeName) : n.word.toList ≠ [] := by
  cases n <;> decide

lemma plus_notMem_word (n : AttributeName) : '+' ∉ n.word.toList := by
  cases n <;> decide

end AttributeName

namespace Attributes

/-- The set of listed attributes. -/
def ofList (as : List Attribute) : Attributes :=
  as.foldr (fun a s => (single a).union s) empty

lemma empty_union (s : Attributes) : empty.union s = s := by
  simp [union, empty]

lemma named?_word (n : AttributeName) :
    named? n.word = some (n.attribute?.elim empty single) := by
  cases n <;> rfl

/-- Names are read as the union of what they name. -/
lemma unionNamed?_eq {ws : List (List Char)} {names : List AttributeName}
    (h : List.Forall₂ (fun w n => Text.lower w = n.word.toList) ws names) :
    unionNamed? ws = some (ofList (names.filterMap (·.attribute?))) := by
  induction h with
  | nil => rfl
  | @cons w n ws names hw _ ih =>
    rw [unionNamed?, hw, String.ofList_toList, named?_word, ih, List.filterMap_cons]
    cases n.attribute? with
    | none => simp [empty_union]
    | some a => rfl

/-- Names with plus signs between them, each in its own spelling, are told apart and read. -/
lemma parse?_intercalate {pieces : List (List Char)} {names : List AttributeName}
    (h : List.Forall₂ (fun piece n => Text.Spells piece n.word.toList) pieces names) :
    parse? (['+'].intercalate pieces) = some (ofList (names.filterMap (·.attribute?))) := by
  have hlower : List.Forall₂ (fun piece n => Text.lower (Text.trim piece) = n.word.toList) pieces
      names := h.imp fun piece n hn => (hn.lower_trim n.solid_word).trans n.lower_word
  have hplus : ∀ piece ∈ pieces, '+' ∉ piece := by
    refine ((List.forall₂_and_left pieces names).1 (h.imp fun piece n hn => ⟨?_, hn⟩)).1
    refine hn.notMem (by decide) ?_
    rw [n.lower_word]
    exact n.plus_notMem_word
  have hne : ∀ piece ∈ pieces, Text.trim piece ≠ [] := by
    refine ((List.forall₂_and_left pieces names).1 (hlower.imp fun piece n hn => ⟨?_, hn⟩)).1
    intro hnil
    rw [hnil] at hn
    exact n.word_ne_nil hn.symm
  cases pieces with
  | nil =>
    cases h
    rfl
  | cons piece pieces =>
    have hfilter : ((piece :: pieces).map Text.trim).filter (fun name => !name.isEmpty) =
        (piece :: pieces).map Text.trim := by
      rw [List.filter_eq_self, List.forall_mem_map]
      intro a ha
      simpa using hne a ha
    rw [parse?, Text.split_intercalate (List.cons_ne_nil _ _) hplus, hfilter]
    refine unionNamed?_eq ?_
    rwa [List.forall₂_map_left_iff]

end Attributes

/-! ## Palettes -/

namespace Palette

lemma tagNamed?_of_lower {name : List Char} {tag : Tag}
    (h : Text.lower name = Text.lower tag.name.toList) : tagNamed? name = some tag := by
  rw [tagNamed?, h]
  cases tag <;> rfl

lemma solid_name (tag : Tag) : Solid tag.name.toList := by
  cases tag <;> decide

lemma equals_notMem_name (tag : Tag) : '=' ∉ Text.lower tag.name.toList := by
  cases tag <;> decide

/-- An entry that is accepted gives one tag a look, and an entry that is refused is refused for one
reason, whatever the palette is. -/
lemma setEntry_cases (entry : String) :
    (∃ tag look, ∀ p : Palette, p.setEntry entry = .ok (p.set tag look)) ∨
      ∃ e, ∀ p : Palette, p.setEntry entry = .error e := by
  cases hcut : Text.cut? '=' entry.toList with
  | none =>
    refine .inr ⟨.malformed entry, fun p => ?_⟩
    rw [setEntry, hcut]
    rfl
  | some parts =>
    obtain ⟨name, value⟩ := parts
    cases htag : tagNamed? (Text.trim name) with
    | none =>
      refine .inr ⟨.unknownTag (String.ofList name), fun p => ?_⟩
      simp only [setEntry, hcut, htag]
      rfl
    | some tag =>
      cases hvalue : (Text.cut? ',' value).getD (value, []) with
      | mk color attributes =>
        cases hcolor : Color.parse? (Text.trim color) with
        | none =>
          refine .inr ⟨.badColor (String.ofList color), fun p => ?_⟩
          simp only [setEntry, hcut, htag, hvalue, hcolor]
          rfl
        | some c =>
          cases hattributes : Attributes.parse? attributes with
          | none =>
            refine .inr ⟨.badAttributes (String.ofList attributes), fun p => ?_⟩
            simp only [setEntry, hcut, htag, hvalue, hcolor, hattributes]
            rfl
          | some s =>
            refine .inl ⟨tag, ⟨c, s⟩, fun p => ?_⟩
            simp only [setEntry, hcut, htag, hvalue, hcolor, hattributes]
            rfl

/-- The palette after an entry, whether the entry is accepted or not. -/
def after (p : Palette) (entry : String) : Palette :=
  match p.setEntry entry with
  | .ok p' => p'
  | .error _ => p

/-- The entry asks for a colour and attributes for a tag. -/
inductive Written (tag : Tag) (color : Color) : List AttributeName → List Char → Prop
  /-- No attributes are asked for, and the comma is left out. -/
  | bare {name shown : List Char} (hname : Text.Spells name tag.name.toList)
      (hcolor : Text.Spells shown color.render.toList) :
      Written tag color [] (name ++ '=' :: shown)
  /-- The names of the attributes, of which there may be none, follow behind a comma. -/
  | full {name shown : List Char} {pieces : List (List Char)} {names : List AttributeName}
      (hname : Text.Spells name tag.name.toList)
      (hcolor : Text.Spells shown color.render.toList)
      (hnames : List.Forall₂ (fun piece n => Text.Spells piece n.word.toList) pieces names) :
      Written tag color names (name ++ '=' :: (shown ++ ',' :: ['+'].intercalate pieces))

variable {tag : Tag} {color : Color} {names : List AttributeName} {entry : List Char}

lemma equals_notMem_of_spells {name : List Char} (h : Text.Spells name tag.name.toList) :
    '=' ∉ name :=
  h.notMem (by decide) (equals_notMem_name tag)

lemma tagNamed?_of_spells {name : List Char} (h : Text.Spells name tag.name.toList) :
    tagNamed? (Text.trim name) = some tag :=
  tagNamed?_of_lower (h.lower_trim (solid_name tag))

lemma comma_notMem_of_spells {shown : List Char} (h : Text.Spells shown color.render.toList) :
    ',' ∉ shown := by
  refine h.notMem (by decide) ?_
  rw [color.lower_render]
  exact fun hmem => (Color.mem_render hmem).2.2.2 rfl

lemma parse?_of_spells {shown : List Char} (h : Text.Spells shown color.render.toList) :
    Color.parse? (Text.trim shown) = some color :=
  (Color.parse?_congr (h.lower_trim color.solid_render)).trans color.parse?_render

/-- A written entry is accepted and gives the tag what it asks for. -/
lemma Written.setEntry (h : Written tag color names entry) (p : Palette) :
    p.setEntry (String.ofList entry) =
      .ok (p.set tag ⟨color, .ofList (names.filterMap (·.attribute?))⟩) := by
  cases h with
  | bare hname hcolor =>
    rw [Palette.setEntry, String.toList_ofList, Text.cut?_append (equals_notMem_of_spells hname)]
    simp only [tagNamed?_of_spells hname, Text.cut?_eq_none (comma_notMem_of_spells hcolor),
      Option.getD_none, parse?_of_spells hcolor]
    rfl
  | full hname hcolor hnames =>
    rw [Palette.setEntry, String.toList_ofList, Text.cut?_append (equals_notMem_of_spells hname)]
    simp only [tagNamed?_of_spells hname, Text.cut?_append (comma_notMem_of_spells hcolor),
      Option.getD_some, parse?_of_spells hcolor, Attributes.parse?_intercalate hnames]
    rfl

lemma look_set_self (p : Palette) (tag : Tag) (look : Look) : (p.set tag look).look tag = look :=
  if_pos rfl

lemma look_set_of_ne (p : Palette) {tag t : Tag} (h : t ≠ tag) (look : Look) :
    (p.set tag look).look t = p.look t :=
  if_neg h

/-- **Entries of a palette are read as they are written.**  An entry with the name of a tag, a
colour as it is shown, and any names of attributes is accepted, whatever the case of its letters and
the white space around its words.  It gives the tag exactly that colour and the union of the named
attributes, and leaves all other tags alone.  An entry that is refused leaves the palette as it is,
and every other palette refuses it for the same reason.  Whatever else is accepted changes one tag
only. -/
theorem setEntry_written (p : Palette) (entry : String) :
    (∀ tag color names, Written tag color names entry.toList →
      p.setEntry entry = .ok (p.after entry) ∧
        (p.after entry).look tag = ⟨color, .ofList (names.filterMap (·.attribute?))⟩ ∧
        ∀ t, t ≠ tag → (p.after entry).look t = p.look t) ∧
    (∀ e, p.setEntry entry = .error e →
      p.after entry = p ∧ ∀ q : Palette, q.setEntry entry = .error e) ∧
    (∀ p', p.setEntry entry = .ok p' →
      p.after entry = p' ∧ ∃ tag, ∀ t, t ≠ tag → p'.look t = p.look t) := by
  refine ⟨fun tag color names h => ?_, fun e h => ?_, fun p' h => ?_⟩
  · have hset := h.setEntry p
    rw [String.ofList_toList] at hset
    have hafter : p.after entry = p.set tag ⟨color, .ofList (names.filterMap (·.attribute?))⟩ := by
      rw [after, hset]
    rw [hafter]
    exact ⟨hset, look_set_self _ _ _, fun t ht => look_set_of_ne _ ht _⟩
  · refine ⟨by rw [after, h], ?_⟩
    rcases setEntry_cases entry with ⟨tag, look, hok⟩ | ⟨e', herror⟩
    · rw [hok] at h
      cases h
    · rw [herror] at h
      cases h
      exact herror
  · refine ⟨by rw [after, h], ?_⟩
    rcases setEntry_cases entry with ⟨tag, look, hok⟩ | ⟨e', herror⟩
    · rw [hok] at h
      cases h
      exact ⟨tag, fun t ht => look_set_of_ne _ ht _⟩
    · rw [herror] at h
      cases h

/-- Capital letters, an ideographic space and a tab, and an attribute that is named twice; and an
entry that is refused for an attribute without a name. -/
theorem setEntry_written_capitals :
    Written .keyword (.rgb 10 255 16) [.bold, .none, .reverse, .bold]
        "\u3000KeyWord =\t#0aFF10 ,Bold+ NONE +reverse+BOLD".toList ∧
      (default.after "\u3000KeyWord =\t#0aFF10 ,Bold+ NONE +reverse+BOLD").look .keyword =
        ⟨.rgb 10 255 16, ⟨17⟩⟩ ∧
      default.setEntry "keyword=cyan,loud" = .error (.badAttributes "loud") ∧
      plain.setEntry "keyword=cyan,loud" = .error (.badAttributes "loud") := by
  have hname : Text.Spells "\u3000KeyWord ".toList Tag.keyword.name.toList :=
    ⟨"\u3000".toList, "KeyWord".toList, " ".toList, rfl, by decide, by decide, by decide⟩
  have hcolor : Text.Spells "\t#0aFF10 ".toList (Color.rgb 10 255 16).render.toList :=
    ⟨"\t".toList, "#0aFF10".toList, " ".toList, rfl, by decide, by decide, by decide⟩
  have hnames : List.Forall₂ (fun piece n => Text.Spells piece (AttributeName.word n).toList)
      ["Bold".toList, " NONE ".toList, "reverse".toList, "BOLD".toList]
      [.bold, .none, .reverse, .bold] := by
    refine .cons ?_ (.cons ?_ (.cons ?_ (.cons ?_ .nil)))
    · exact ⟨[], "Bold".toList, [], rfl, rfl, rfl, by decide⟩
    · exact ⟨" ".toList, "NONE".toList, " ".toList, rfl, by decide, by decide, by decide⟩
    · exact ⟨[], "reverse".toList, [], rfl, rfl, rfl, by decide⟩
    · exact ⟨[], "BOLD".toList, [], rfl, rfl, rfl, by decide⟩
  have hwritten : Written .keyword (.rgb 10 255 16) [.bold, .none, .reverse, .bold]
      "\u3000KeyWord =\t#0aFF10 ,Bold+ NONE +reverse+BOLD".toList := by
    convert Written.full hname hcolor hnames using 1
    decide
  have hrefused : default.setEntry "keyword=cyan,loud" = .error (.badAttributes "loud") := rfl
  exact ⟨hwritten, ((setEntry_written default _).1 _ _ _ hwritten).2.1, hrefused,
    ((setEntry_written default _).2.1 _ hrefused).2 plain⟩

end Palette
end Terminal
end MetaPostEditor
