import MetaPostEditor.Proofs.Cutting
import MetaPostEditor.Proofs.Numerals
import MetaPostEditor.Proofs.Settings

/-!
# Listings of options can be read back

The editor shows options in the words in which they are set: `noautoindent`, `undolevels=20`.  A
listing is thus a text of directives, and this file follows it on its way back.

* `Options.words_list`: the words of a listing are the descriptions that it was made of.
* `Options.apply_describe`: a description, taken as a directive, gives its option the value that was
  described, and shows nothing.

The main result is `Options.set_listing`: a full listing brings any options to those that were
listed, and a listing of changes brings the defaults there.
-/

namespace MetaPostEditor

/-! ## Descriptions -/

lemma Setting.mem_all (s : Setting) : s ∈ all := by
  cases s with
  | flag f => cases f <;> decide
  | undolevels => decide

namespace Options

/-- The values `p`, but the option `s` as in `o`. -/
def adopt (o p : Options) : Setting → Options
  | .flag f => p.setFlag f (o.flag f)
  | .undolevels => { p with undolevels := o.undolevels }

variable (o p : Options) (s : Setting)

lemma toList_describe_undolevels :
    (o.describe .undolevels).toList =
      "undolevels".toList ++ '=' :: Nat.toDigits 10 o.undolevels.toNat := by
  simp [describe, Setting.name, toString]

lemma read?_undolevels :
    Numeral.read? 10 UInt64.size (Nat.toDigits 10 o.undolevels.toNat) = some o.undolevels.toNat :=
  Numeral.read?_toDigits (by decide) (by decide) (UInt64.toNat_lt_size o.undolevels)

lemma solid_describe : Solid (o.describe s).toList ∧ (o.describe s).toList ≠ [] := by
  cases s with
  | flag f =>
    have hflag : ∀ value, Solid (describeFlag (Setting.flag f).name value).toList ∧
        (describeFlag (Setting.flag f).name value).toList ≠ [] := by
      cases f <;> decide
    exact hflag _
  | undolevels =>
    have hname : Solid "undolevels".toList := by decide
    rw [toList_describe_undolevels]
    refine ⟨?_, by simp⟩
    rw [Solid, List.forall_mem_append, List.forall_mem_cons]
    refine ⟨hname, by decide, fun c hc => ?_⟩
    exact Unicode.isWhiteSpace_of_isDigit (Nat.isDigit_of_mem_toDigits (by decide) (by decide) hc)

lemma ofWord_describeFlag (f : Flag) (value : Bool) :
    Directive.ofWord (describeFlag (Setting.flag f).name value).toList =
      if value then .on (Setting.flag f).name else .off (Setting.flag f).name := by
  cases f <;> cases value <;> decide

lemma findFlag_name (f : Flag) : findFlag (Setting.flag f).name = .ok f := by
  cases f <;> rfl

lemma apply_assign {value : String} {n : Nat}
    (h : Numeral.read? 10 UInt64.size value.toList = some n) :
    p.apply (.assign "undolevels" value) =
      .ok ({ p with undolevels := UInt64.ofNat n }, none) := by
  have hfind : find "undolevels" = .ok .undolevels := rfl
  simp only [apply, hfind, bind, Except.bind, h]
  rfl

/-- A description is a directive that gives the option the value that is described. -/
lemma apply_describe :
    p.apply (Directive.ofWord (o.describe s).toList) = .ok (o.adopt p s, none) := by
  cases s with
  | flag f =>
    rw [describe, ofWord_describeFlag, adopt]
    cases o.flag f with
    | true =>
      rw [if_pos rfl, apply, findFlag_name]
      rfl
    | false =>
      rw [if_neg Bool.false_ne_true, apply, findFlag_name]
      rfl
  | undolevels =>
    have hcut : Text.cut? '=' (o.describe .undolevels).toList =
        some ("undolevels".toList, Nat.toDigits 10 o.undolevels.toNat) := by
      rw [toList_describe_undolevels, Text.cut?_append (by decide)]
    have hword : Directive.ofWord (o.describe .undolevels).toList =
        .assign "undolevels" (String.ofList (Nat.toDigits 10 o.undolevels.toNat)) := by
      rw [Directive.ofWord, hcut, if_neg (by rw [toList_describe_undolevels]; simp)]
      rfl
    rw [hword, apply_assign p (by rw [String.toList_ofList, read?_undolevels]),
      UInt64.ofNat_toNat, adopt]

/-! ## Listings -/

/-- The directives that a listing holds. -/
def directives (o : Options) (ss : List Setting) : List Directive :=
  ss.map fun s => Directive.ofWord (o.describe s).toList

lemma words_list (ss : List Setting) :
    Text.words (o.list ss).toList = ss.map fun s => (o.describe s).toList := by
  rw [list, String.toList_intercalate, List.map_map]
  refine Text.words_intercalate fun w hw => ?_
  obtain ⟨s, -, rfl⟩ := List.mem_map.1 hw
  exact o.solid_describe s

lemma parseAll_list {ss : List Setting} (hss : ss ≠ []) :
    Directive.parseAll (o.list ss) = o.directives ss := by
  obtain ⟨s, rest, rfl⟩ := List.exists_cons_of_ne_nil hss
  rw [Directive.parseAll, words_list]
  simp [directives]

/-- The directives of a listing are accepted one after the other, and show nothing. -/
lemma carries_directives (ss : List Setting) :
    p.Carries (o.directives ss) [] (ss.foldl o.adopt p) := by
  induction ss generalizing p with
  | nil => exact .nil p
  | cons s ss ih => exact .cons (o.apply_describe p s) (ih (o.adopt p s))

/-- A listing that is not empty brings the options in it to the values that were listed. -/
lemma set_list {ss : List Setting} (hss : ss ≠ []) :
    p.set (o.list ss) = (.ok none, ss.foldl o.adopt p) := by
  have h := o.carries_directives p ss
  rw [← o.parseAll_list hss] at h
  exact h.set

/-- An option that was adopted is described as in `o`, and all others as before. -/
lemma describe_adopt (t : Setting) :
    (o.adopt p t).describe s = if s = t then o.describe s else p.describe s := by
  cases s with
  | flag f =>
    cases t with
    | flag g => cases f <;> cases g <;> rfl
    | undolevels => cases f <;> rfl
  | undolevels =>
    cases t with
    | flag g => cases g <;> rfl
    | undolevels => rfl

lemma describe_foldl_adopt (ss : List Setting) :
    (ss.foldl o.adopt p).describe s = if s ∈ ss then o.describe s else p.describe s := by
  induction ss generalizing p with
  | nil => simp
  | cons t ss ih =>
    rw [List.foldl_cons, ih, describe_adopt]
    by_cases hs : s ∈ ss <;> by_cases ht : s = t <;> simp [hs, ht]

lemma describeFlag_inj {name : String} {a b : Bool}
    (h : describeFlag name a = describeFlag name b) : a = b := by
  have hne : name ≠ "no" ++ name := by
    intro hname
    have hlen := congrArg String.length hname
    rw [String.length_append] at hlen
    exact absurd hlen (Nat.ne_of_lt (Nat.lt_add_of_pos_left (by decide)))
  cases a with
  | true =>
    cases b with
    | true => rfl
    | false => exact absurd h hne
  | false =>
    cases b with
    | true => exact absurd h.symm hne
    | false => rfl

variable {o p}

/-- Options that are described alike are the same. -/
lemma eq_of_describe_eq (h : ∀ s, p.describe s = o.describe s) : p = o := by
  have hflag : ∀ f, p.flag f = o.flag f := fun f => describeFlag_inj (h (.flag f))
  have hnumber : p.undolevels = o.undolevels := by
    have hlist := congrArg String.toList (h .undolevels)
    rw [toList_describe_undolevels, toList_describe_undolevels] at hlist
    obtain ⟨-, hdigits⟩ := List.cons.inj (List.append_cancel_left hlist)
    have hread := read?_undolevels p
    rw [hdigits, read?_undolevels] at hread
    exact UInt64.toNat_inj.1 (Option.some.inj hread).symm
  obtain ⟨a, b, c, n⟩ := o
  obtain ⟨a', b', c', n'⟩ := p
  obtain rfl : a' = a := hflag .autoindent
  obtain rfl : b' = b := hflag .outdent
  obtain rfl : c' = c := hflag .comments
  obtain rfl : n' = n := hnumber
  rfl

lemma list_eq_empty_iff {ss : List Setting} : o.list ss = "" ↔ ss = [] := by
  constructor
  · intro h
    have hwords := o.words_list ss
    rw [h] at hwords
    exact List.map_eq_nil_iff.1 hwords.symm
  · rintro rfl
    rfl

lemma mem_changed {s : Setting} : s ∈ o.changed ↔ o.describe s ≠ default.describe s := by
  simp [changed, Setting.mem_all]

lemma changed_eq_nil_iff : o.changed = [] ↔ o = default := by
  constructor
  · intro h
    refine eq_of_describe_eq fun s => ?_
    by_contra hs
    have hmem := mem_changed.2 hs
    simp [h] at hmem
  · rintro rfl
    simp [changed]

/-- **Listings can be read back.**  What is shown for `all` brings any options to those that were
shown, and shows nothing itself.  What is shown for no directive at all brings the defaults there;
it is empty if the options are the defaults, and then it is once more no directive at all. -/
theorem set_listing (o p : Options) :
    (∃ all, o.set "all" = (.ok (some all), o) ∧ p.set all = (.ok none, o)) ∧
    ∃ changes, o.set "" = (.ok (some changes), o) ∧
      default.set changes = (.ok (if o = default then some "" else none), o) ∧
      (changes = "" ↔ o = default) := by
  have hall : Setting.all.foldl o.adopt p = o :=
    eq_of_describe_eq fun s => by rw [describe_foldl_adopt, if_pos s.mem_all]
  have hchanged : o.changed.foldl o.adopt default = o := by
    refine eq_of_describe_eq fun s => ?_
    rw [describe_foldl_adopt]
    split
    · rfl
    · next hs => exact (not_not.1 (mt mem_changed.2 hs)).symm
  refine ⟨⟨o.list Setting.all, rfl, ?_⟩, o.list o.changed, rfl, ?_, ?_⟩
  · rw [set_list o p (by decide), hall]
  · by_cases ho : o = default
    · -- there is nothing in the listing
      subst ho
      rw [changed_eq_nil_iff.2 rfl, if_pos rfl]
      rfl
    · rw [set_list o default (mt changed_eq_nil_iff.1 ho), hchanged, if_neg ho]
  · rw [list_eq_empty_iff, changed_eq_nil_iff]

end Options
end MetaPostEditor
