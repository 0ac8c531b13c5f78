import FilterQuery.Proofs.Asking
import FilterQuery.Proofs.Lexicon
import FilterQuery.Proofs.Nearest
import FilterQuery.Proofs.Replacing
import FilterQuery.Proofs.Shapes

/-!
# Numbers in texts and in documents

A number word is a minus sign, if there is one, and all that follows of the characters a number may
have. It is read as a whole, and its digits alone decide what it is read as: a whole number if that
has 64 bits, a number with a point if the nearest number of the format is finite, and a fault
otherwise (`ofNumber?_eq_int_iff`, `ofNumber?_eq_float_iff`). What is read is never too great for a
document, so a plain document has, in place of each literal, a value of the same kind
(`Condition.forall₂_atoms_fill`).
-/

namespace FilterQuery

/-- In front of `rest` stands a number word: the minus sign that the text may begin with and the
longest run of letters, digits, underscores and points behind it. -/
structure IsNumberWord (text word rest : List Char) : Prop where
  append : text = word ++ rest
  run : ∃ run, word = signChars (text.head? = some '-') ++ run ∧ ∀ c ∈ run, isNumberChar c = true
  longest : ∀ c ∈ rest.head?, isNumberChar c = false

/-- Digits, with a minus sign or none, and the number they write. -/
def IsWhole (word : List Char) (n : Int) : Prop :=
  ∃ negative digits, digits ≠ [] ∧ (∀ c ∈ digits, c.isDigit = true) ∧
    word = signChars negative ++ digits ∧
    n = if negative then -(Decimal.natOfDigits digits : Int) else Decimal.natOfDigits digits

/-- Digits on both sides of a point, with a minus sign or none, and the number they write without
the sign. -/
def IsPointed (word : List Char) (negative : Bool) (q : ℚ) : Prop :=
  ∃ whole fraction, whole ≠ [] ∧ fraction ≠ [] ∧ (∀ c ∈ whole, c.isDigit = true) ∧
    (∀ c ∈ fraction, c.isDigit = true) ∧ word = signChars negative ++ (whole ++ '.' :: fraction) ∧
    q = Decimal.natOfDigits (whole ++ fraction) / 10 ^ fraction.length

/-- A literal and a value of its kind that shows the same. -/
inductive Literal.Stands : Literal → Json → Prop
  | null : Stands .null .null
  | bool (b : Bool) : Stands (.bool b) (.bool b)
  | int (n : Int) : Stands (.int n) (.int n)
  | float (x : Finite64) : Stands (.float (.finite x)) (.float x)
  | string (s : String) : Stands (.string s) (.str s)

namespace Json

mutual

/-- The values in a value that are neither arrays nor objects, in order. -/
def atoms : Json → List Json
  | .arr items => atomsOfItems items
  | .obj fields => atomsOfFields fields
  | value => [value]

def atomsOfItems : List Json → List Json
  | [] => []
  | item :: rest => item.atoms ++ atomsOfItems rest

def atomsOfFields : List (String × Json) → List Json
  | [] => []
  | (_, value) :: rest => value.atoms ++ atomsOfFields rest

end

end Json

/-- The atoms of the filter of a document. -/
def Document.atoms (d : Document) : List Json :=
  (d.filter.map Json.atoms).getD []

theorem Decimal.absolute_ofDigits (negative : Bool) (whole fraction : List Char) :
    (ofDigits negative whole fraction 0).absolute =
      natOfDigits (whole ++ fraction) / 10 ^ fraction.length := by
  rw [absolute, ofDigits, zero_sub, zpow_neg, zpow_natCast, div_eq_mul_inv]

theorem Finite64.isNumeral_iff {x : Finite64} {word : List Char} :
    x.IsNumeral word ↔ ∃ q, IsPointed word x.negative q ∧ x.IsNearest q := by
  constructor
  · rintro ⟨negative, whole, fraction, hw, hf, hwd, hfd, rfl, hx⟩
    obtain ⟨hs, hnearest⟩ := Binary64.ofDecimal_eq_finite_iff.1 hx
    rw [Decimal.absolute_ofDigits] at hnearest
    exact ⟨_, ⟨whole, fraction, hw, hf, hwd, hfd, by rw [hs]; rfl, rfl⟩, hnearest⟩
  · rintro ⟨q, ⟨whole, fraction, hw, hf, hwd, hfd, rfl, rfl⟩, hnearest⟩
    refine ⟨x.negative, whole, fraction, hw, hf, hwd, hfd, rfl, ?_⟩
    exact Binary64.ofDecimal_eq_finite_iff.2 ⟨rfl, by rwa [Decimal.absolute_ofDigits]⟩

theorem Literal.ofNumber?_eq_some_iff {word : List Char} {v : Literal} :
    ofNumber? word = some v ↔ IsNumber word v := by
  refine ⟨isNumber_of_ofNumber?, fun h => ?_⟩
  cases h with
  | @whole negative digits n hne hd hn hmin hmax =>
    obtain ⟨c, cs, rfl⟩ := List.exists_cons_of_ne_nil hne
    rw [ofNumber?_append_signChars negative (hd c List.mem_cons_self),
      ofUnsigned?_whole negative hd hn.symm (isInt64_iff.2 ⟨hmin, hmax⟩)]
  | point h =>
    obtain ⟨negative, whole, fraction, hw, hf, hwd, hfd, rfl, hx⟩ := h
    have hv := ofUnsigned?_fraction negative hwd hfd hw hf hx
    obtain ⟨c, cs, rfl⟩ := List.exists_cons_of_ne_nil hw
    rw [List.cons_append] at hv ⊢
    rw [ofNumber?_append_signChars negative (hwd c List.mem_cons_self), hv]

namespace Literal

variable {word : List Char}

theorem ofNumber?_eq_int_iff {n : Int} :
    ofNumber? word = some (.int n) ↔ IsWhole word n ∧ -2 ^ 63 ≤ n ∧ n ≤ 2 ^ 63 - 1 := by
  rw [ofNumber?_eq_some_iff]
  constructor
  · rintro ⟨negative, hne, hd, hn, hmin, hmax⟩
    exact ⟨⟨negative, _, hne, hd, rfl, hn⟩, hmin, by omega⟩
  · rintro ⟨⟨negative, digits, hne, hd, rfl, hn⟩, hmin, hmax⟩
    exact .whole negative hne hd hn hmin (by omega)

theorem ofNumber?_eq_float_iff {y : Binary64} : ofNumber? word = some (.float y) ↔
    ∃ (x : Finite64) (q : ℚ), y = .finite x ∧ IsPointed word x.negative q ∧ x.IsNearest q := by
  rw [ofNumber?_eq_some_iff]
  constructor
  · rintro ⟨⟩
    rename_i x h
    obtain ⟨q, hq⟩ := Finite64.isNumeral_iff.1 h
    exact ⟨x, q, rfl, hq⟩
  · rintro ⟨x, q, rfl, hq⟩
    exact .point (Finite64.isNumeral_iff.2 ⟨q, hq⟩)

theorem ofNumber?_eq_none_iff : ofNumber? word = none ↔
    (∀ n, ¬(IsWhole word n ∧ -2 ^ 63 ≤ n ∧ n ≤ 2 ^ 63 - 1)) ∧
      ∀ (x : Finite64) (q : ℚ), ¬(IsPointed word x.negative q ∧ x.IsNearest q) := by
  constructor
  · intro h
    refine ⟨fun n hn => ?_, fun x q hq => ?_⟩
    · rw [ofNumber?_eq_int_iff.2 hn] at h
      cases h
    · rw [ofNumber?_eq_float_iff.2 ⟨x, q, rfl, hq⟩] at h
      cases h
  · rintro ⟨hint, hfloat⟩
    rw [Option.eq_none_iff_forall_ne_some]
    intro v hv
    cases isNumber_of_ofNumber? hv with
    | whole => exact hint _ (ofNumber?_eq_int_iff.1 hv)
    | point =>
      obtain ⟨x, q, -, hq⟩ := ofNumber?_eq_float_iff.1 hv
      exact hfloat x q hq

end Literal

theorem isNumberWord_splitNumber {c : Char} (h : isNumberStart c = true) (cs : List Char) :
    IsNumberWord (c :: cs) (splitNumber (c :: cs)).1 (splitNumber (c :: cs)).2 := by
  refine ⟨(splitNumber_append _).symm, ?_, ?_⟩
  · have hrun : ∀ d ∈ cs.takeWhile isNumberChar, isNumberChar d = true :=
      fun d hd => List.mem_takeWhile_imp hd
    rw [splitNumber_cons h]
    by_cases hc : c = '-'
    · exact ⟨_, by simp [hc, signChars], hrun⟩
    · refine ⟨c :: cs.takeWhile isNumberChar, by simp [hc, signChars],
        List.forall_mem_cons.2 ⟨?_, hrun⟩⟩
      simp only [isNumberStart, Bool.or_eq_true, decide_eq_true_eq, hc, or_false] at h
      rcases h with h | rfl
      · exact isNumberChar_of_isDigit h
      · decide
  · intro d hd
    have hnot := List.head?_dropWhile_not isNumberChar cs
    rw [splitNumber_cons h] at hd
    rwa [Option.mem_def.1 hd] at hnot

namespace Cursor

/-- At a number word, the cursor reads that word and goes on behind it. -/
theorem next_of_isNumberStart {c : Cursor} {x : Char} {cs : List Char} (h : c.skip.rest = x :: cs)
    (hx : isNumberStart x = true) : c.next =
      (match Literal.ofNumber? (splitNumber (x :: cs)).1 with
        | some v => .ok ⟨.literal v, String.ofList (splitNumber (x :: cs)).1, c.skip.position⟩
        | none => .error ⟨c.skip.position,
            .malformedNumber (String.ofList (splitNumber (x :: cs)).1)⟩,
        ⟨(splitNumber (x :: cs)).2, c.skip.position.advance (splitNumber (x :: cs)).1⟩) := by
  rw [next, h, scan_of_isNumberStart hx, scanNumber]
  dsimp only [behind]
  rcases Literal.ofNumber? (splitNumber (x :: cs)).1 with _ | v <;> rfl

end Cursor

namespace Literal

theorem stands_toJson {v : Literal} (h : (Token.literal v).IsWritable) : v.Stands v.toJson := by
  cases v with
  | null => exact .null
  | bool b => exact .bool b
  | int n => exact .int n
  | float x =>
    obtain ⟨y, rfl⟩ := h
    exact .float y
  | string s => exact .string s

/-- Nothing but null stands as null. -/
theorem null_mem_of_forall₂ {vs : List Literal} {values : List Json}
    (h : List.Forall₂ Stands vs values) (hnull : .null ∈ values) : .null ∈ vs := by
  induction h with
  | nil => cases hnull
  | cons hv _ ih =>
    rcases List.mem_cons.1 hnull with heq | hnull
    · subst heq
      cases hv
      exact List.mem_cons_self
    · exact List.mem_cons_of_mem _ (ih hnull)

@[simp]
theorem atoms_toJson (v : Literal) : v.toJson.atoms = [v.toJson] := by
  cases v with
  | float x => cases x <;> rfl
  | _ => rfl

end Literal

namespace Json

@[simp]
theorem atoms_single (key : String) (value : Json) : (single key value).atoms = value.atoms :=
  List.append_nil _

theorem atoms_arr (items : List Json) : (arr items).atoms = items.flatMap atoms := by
  rw [atoms]
  induction items with
  | nil => rfl
  | cons item items ih => rw [atomsOfItems, ih, List.flatMap_cons]

end Json

theorem Leaf.atoms_document (l : Leaf) :
    l.call.document.atoms = l.predicate.literals.map Literal.toJson := by
  have hlist : ∀ vs : List Literal,
      (Json.arr (vs.map Literal.toJson)).atoms = vs.map Literal.toJson := fun vs => by
    rw [Json.atoms_arr, List.flatMap_map, List.map_eq_flatMap]
    exact List.flatMap_congr fun v _ => v.atoms_toJson
  obtain ⟨name, ⟨op, v⟩ | ⟨negated, vs⟩⟩ := l
  · cases op <;> simp [Leaf.call, Call.document, Operator.symbol?, Argument.toJson,
      Predicate.literals]
  · cases negated <;> simp [Leaf.call, Call.document, Operator.symbol?, Argument.toJson,
      Predicate.literals, hlist]

namespace Condition

/-- The atoms of a plain document are the values of the literals. -/
theorem atoms_fill (x : Condition) :
    (x.fill Call.document).atoms = x.literals.map Literal.toJson := by
  induction x using Condition.induction with
  | leaf l =>
    rw [fill, l.atoms_document, literals, leaves, List.flatMap_singleton]
  | node c xs ih =>
    rw [fill, Json.atoms_single, Json.atoms_arr, fillAll_eq_map, List.flatMap_map, literals_node,
      List.map_flatMap]
    exact List.flatMap_congr ih

theorem forall₂_atoms_fill {x : Condition} (h : ∀ l ∈ x.leaves, l.IsWritable) :
    List.Forall₂ Literal.Stands x.literals (x.fill Call.document).atoms := by
  rw [atoms_fill, List.forall₂_map_right_iff, List.forall₂_same]
  intro v hv
  obtain ⟨l, hl, hv⟩ := List.mem_flatMap.1 hv
  exact Literal.stands_toJson ((h l hl).literals v hv)

end Condition

theorem Query.forall₂_atoms_render {q : Query} (h : q.IsWritable) : ∃ d : Document,
    q.render none = .done d ∧ List.Forall₂ Literal.Stands q.literals d.atoms := by
  refine ⟨_, q.render_none, ?_⟩
  rw [Query.literals, Document.atoms]
  rcases hf : q.filter with _ | x
  · exact .nil
  · exact Condition.forall₂_atoms_fill (h.leaves x hf)

/-- Wherever a digit, a minus sign or a point is met, the whole number word is read, as a whole
number if it is digits with a value of 64 bits, as a number with a point if it is digits on both
sides of a point whose value rounds to a finite number, and as a fault at its beginning otherwise.
In the plain document of an accepted text stands, for each literal in its turn, a value of its
kind; so nothing but null becomes null. -/
theorem numbers_read_exactly :
    (∀ (c : Cursor) (x : Char) (cs : List Char), c.skip.rest = x :: cs →
      x.isDigit = true ∨ x = '-' ∨ x = '.' → ∃ word rest, IsNumberWord (x :: cs) word rest ∧
        c.next.2 = ⟨rest, c.skip.position.advance word⟩ ∧
        (∀ n, c.next.1 = .ok ⟨.literal (.int n), String.ofList word, c.skip.position⟩ ↔
          IsWhole word n ∧ -2 ^ 63 ≤ n ∧ n ≤ 2 ^ 63 - 1) ∧
        (∀ y, c.next.1 = .ok ⟨.literal (.float y), String.ofList word, c.skip.position⟩ ↔
          ∃ (z : Finite64) (q : ℚ), y = .finite z ∧ IsPointed word z.negative q ∧
            z.IsNearest q) ∧
        (c.next.1 = .error ⟨c.skip.position, .malformedNumber (String.ofList word)⟩ ↔
          (∀ n, ¬(IsWhole word n ∧ -2 ^ 63 ≤ n ∧ n ≤ 2 ^ 63 - 1)) ∧
            ∀ (z : Finite64) (q : ℚ), ¬(IsPointed word z.negative q ∧ z.IsNearest q))) ∧
    ∀ (text : String) (q : Query), Query.ofText text = .ok q → ∃ d : Document,
      Parser.plain.parse text = .ok (.done d) ∧ List.Forall₂ Literal.Stands q.literals d.atoms ∧
        (.null ∈ d.atoms → .null ∈ q.literals) := by
  refine ⟨fun c x cs h hx => ?_, fun text q h => ?_⟩
  · have hstart : isNumberStart x = true := by simpa [isNumberStart, or_assoc] using hx
    refine ⟨_, _, isNumberWord_splitNumber hstart cs, ?_⟩
    rw [c.next_of_isNumberStart h hstart]
    generalize (splitNumber (x :: cs)).1 = word
    refine ⟨rfl, fun n => ?_, fun y => ?_, ?_⟩
    · rw [← Literal.ofNumber?_eq_int_iff]
      rcases Literal.ofNumber? word with _ | v <;> simp
    · rw [← Literal.ofNumber?_eq_float_iff]
      rcases Literal.ofNumber? word with _ | v <;> simp
    · rw [← Literal.ofNumber?_eq_none_iff]
      rcases Literal.ofNumber? word with _ | v <;> simp
  · obtain ⟨d, hd, hall⟩ := Query.forall₂_atoms_render (Query.isWritable_of_ofText h).1
    refine ⟨d, ?_, hall, Literal.null_mem_of_forall₂ hall⟩
    rw [Parser.parse, h]
    exact congrArg Except.ok hd

theorem numbers_read_exactly_at_bounds :
    (Cursor.ofText " -9223372036854775808)").next.1 = .ok
      ⟨.literal (.int (-9223372036854775808)), "-9223372036854775808", ⟨1, 1, 2⟩⟩ ∧
    (Cursor.ofText "9223372036854775808").next.1 =
      .error ⟨.start, .malformedNumber "9223372036854775808"⟩ ∧
    (∀ n, ¬(IsWhole "9223372036854775808".toList n ∧ -2 ^ 63 ≤ n ∧ n ≤ 2 ^ 63 - 1)) ∧
    ∃ q d, Query.ofText "a IN (1, 2.5, NULL)" = .ok q ∧
      Parser.plain.parse "a IN (1, 2.5, NULL)" = .ok (.done d) ∧
      List.Forall₂ Literal.Stands q.literals d.atoms ∧ q.literals.length = 3 := by
  refine ⟨?_, rfl, ?_, ?_⟩
  · obtain ⟨word, rest, ⟨happend, -, -⟩, hrest, hint, -, -⟩ :=
      numbers_read_exactly.1 (Cursor.ofText " -9223372036854775808)") '-' _ rfl (.inr (.inl rfl))
    obtain rfl : [')'] = rest := congrArg Cursor.rest hrest
    obtain rfl : "-9223372036854775808".toList = word := List.append_cancel_right happend
    refine (hint _).2 ⟨⟨true, "9223372036854775808".toList, ?_, List.all_eq_true.1 ?_, rfl, ?_⟩, ?_⟩
      <;> decide
  · obtain ⟨word, rest, ⟨happend, -, -⟩, hrest, -, -, hfault⟩ :=
      numbers_read_exactly.1 (Cursor.ofText "9223372036854775808") '9' _ rfl (.inl rfl)
    obtain rfl : [] = rest := congrArg Cursor.rest hrest
    obtain rfl : "9223372036854775808".toList = word := List.append_cancel_right happend
    exact (hfault.1 rfl).1
  · have hread : Sentence.ofText "a IN (1, 2.5, NULL)" = .ok (.filter (.one (.one (.test
        (.member "a" false (.more (.more (.one (.int 1))
          (.float (Binary64.ofDecimal (.ofDigits false ['2'] ['5'] 0)))) .null)))))) := by
      refine Stage.read_eq_ok_of_passes (.cons rfl nofun (.cons rfl nofun (.cons rfl nofun
        (.cons rfl nofun (.cons rfl nofun (.cons rfl nofun (.cons rfl nofun (.cons rfl nofun
          (.cons rfl nofun (.nil _)))))))))) ?_ rfl rfl
      nofun
    have h := (ofText_eq_ok_iff_sentence (by decide)).2 ⟨_, hread, rfl⟩
    obtain ⟨d, hparse, hall, -⟩ := numbers_read_exactly.2 _ _ h
    exact ⟨_, d, h, hparse, hall, rfl⟩

end FilterQuery
