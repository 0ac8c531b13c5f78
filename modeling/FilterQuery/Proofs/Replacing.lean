import FilterQuery.Proofs.Cutting
import FilterQuery.Proofs.Runs

/-!
# Other literals in the same place

A query is told by its literals, in order, and by what is left of it when all of them are null
(`Query.eq_of_blank_eq`). Reading does not look at the value of a literal: with another one in its
place a sentence is a sentence still, and its query differs in that literal only
(`Sentence.exists_replaced`). A string in quotes is one token whatever it is, and no character of
the text around it is read along with it, so it can stand wherever a string stands.
-/

namespace FilterQuery

/-- The predicate with null in place of each literal. -/
def Predicate.blank : Predicate → Predicate
  | .compare op _ => .compare op .null
  | .member negated values => .member negated (values.map fun _ => .null)

def Leaf.blank (l : Leaf) : Leaf :=
  ⟨l.identifier, l.predicate.blank⟩

namespace Condition

mutual

/-- The condition with null in place of each literal. -/
def blank : Condition → Condition
  | .leaf l => .leaf l.blank
  | .node c children => .node c (blankOfAll children)

def blankOfAll : List Condition → List Condition
  | [] => []
  | x :: xs => x.blank :: blankOfAll xs

end

/-- The literals of a condition, in order. -/
def literals (x : Condition) : List Literal :=
  x.leaves.flatMap fun l => l.predicate.literals

end Condition

/-- The query with null in place of each literal. -/
def Query.blank (q : Query) : Query :=
  ⟨q.filter.map Condition.blank, q.order⟩

/-- The literals of a query, in order. -/
def Query.literals (q : Query) : List Literal :=
  (q.filter.map Condition.literals).getD []

theorem Predicate.length_literals_blank (p : Predicate) :
    p.blank.literals.length = p.literals.length := by
  cases p <;> simp [blank, literals]

theorem Predicate.eq_of_blank_eq {p r : Predicate} (hb : p.blank = r.blank)
    (hl : p.literals = r.literals) : p = r := by
  cases p with
  | compare op v =>
    cases r with
    | compare op' w =>
      obtain ⟨rfl, -⟩ := compare.inj hb
      rw [List.singleton_inj.1 hl]
    | member => cases hb
  | member negated vs =>
    cases r with
    | compare => cases hb
    | member negated' ws =>
      obtain ⟨rfl, -⟩ := member.inj hb
      rw [show vs = ws from hl]

theorem Leaf.eq_of_blank_eq {l m : Leaf} (hb : l.blank = m.blank)
    (hl : l.predicate.literals = m.predicate.literals) : l = m := by
  obtain ⟨name, p⟩ := l
  obtain ⟨name', r⟩ := m
  obtain rfl : name = name' := congrArg Leaf.identifier hb
  obtain rfl : p = r := Predicate.eq_of_blank_eq (congrArg Leaf.predicate hb) hl
  rfl

namespace Condition

theorem blankOfAll_eq_map : ∀ xs : List Condition, blankOfAll xs = xs.map blank
  | [] => rfl
  | x :: xs => by rw [blankOfAll, blankOfAll_eq_map xs, List.map_cons]

theorem literals_node (c : Connective) (xs : List Condition) :
    (node c xs).literals = xs.flatMap literals := by
  rw [literals, leaves, leavesOfAll_eq_flatMap, List.flatMap_assoc]
  rfl

theorem length_literals_blank (x : Condition) : x.blank.literals.length = x.literals.length := by
  induction x using Condition.induction with
  | leaf l => simpa [blank, Leaf.blank, literals, leaves] using l.predicate.length_literals_blank
  | node c xs ih =>
    rw [blank, blankOfAll_eq_map, literals_node, literals_node, List.flatMap_map,
      List.length_flatMap, List.length_flatMap, List.map_congr_left ih]

theorem eq_of_map_blank_eq : ∀ {xs ys : List Condition},
    (∀ x ∈ xs, ∀ y, x.blank = y.blank → x.literals = y.literals → x = y) →
      xs.map blank = ys.map blank → xs.flatMap literals = ys.flatMap literals → xs = ys
  | [], ys, _, hb, _ => (List.map_eq_nil_iff.1 hb.symm).symm
  | x :: xs, ys, ih, hb, hl => by
    obtain ⟨y, ys, rfl⟩ : ∃ y ys', ys = y :: ys' := by
      cases ys with
      | nil => cases hb
      | cons y ys => exact ⟨y, ys, rfl⟩
    obtain ⟨hx, hxs⟩ := List.cons.inj hb
    have hlength : x.literals.length = y.literals.length := by
      rw [← x.length_literals_blank, ← y.length_literals_blank, hx]
    obtain ⟨hfirst, hrest⟩ := List.append_inj hl hlength
    rw [ih x List.mem_cons_self y hx hfirst,
      eq_of_map_blank_eq (fun z hz => ih z (List.mem_cons_of_mem x hz)) hxs hrest]

theorem eq_of_blank_eq {x y : Condition} (hb : x.blank = y.blank) (hl : x.literals = y.literals) :
    x = y := by
  induction x using Condition.induction generalizing y with
  | leaf l =>
    cases y with
    | leaf m =>
      rw [Leaf.eq_of_blank_eq (leaf.inj hb) (by simpa [literals, leaves] using hl)]
    | node c ys => cases hb
  | node c xs ih =>
    cases y with
    | leaf m => cases hb
    | node d ys =>
      obtain ⟨rfl, hbs⟩ := node.inj hb
      rw [blankOfAll_eq_map, blankOfAll_eq_map] at hbs
      rw [literals_node, literals_node] at hl
      rw [eq_of_map_blank_eq (fun x hx y => ih x hx) hbs hl]

theorem Joins.literals_eq {c : Connective} {xs : List Condition} {y : Condition}
    (h : Joins c xs y) : y.literals = xs.flatMap literals := by
  rw [literals, h.leaves_eq, List.flatMap_assoc]
  rfl

theorem connective?_blank (x : Condition) : x.blank.connective? = x.connective? := by
  cases x <;> rfl

theorem splice_blank (c : Connective) (x : Condition) :
    splice c x.blank = (splice c x).map blank := by
  rcases splice_cases c x with ⟨xs, rfl, hs⟩ | ⟨hc, hs⟩ <;> rw [hs]
  · rw [blank, blankOfAll_eq_map]
    exact if_pos rfl
  · rw [splice_eq_self (x.connective?_blank ▸ hc), List.map_singleton]

/-- Joining does not look at literals. -/
theorem Joins.blank {c : Connective} {xs : List Condition} {y : Condition} (h : Joins c xs y) :
    Joins c (xs.map Condition.blank) y.blank := by
  rcases joins_iff_or.1 h with rfl | ⟨hl, rfl⟩
  · exact .one _
  rw [joins_iff_node (by simpa using hl), Condition.blank, blankOfAll_eq_map, List.flatMap_map,
    List.map_flatMap]
  simp only [splice_blank]

end Condition

/-- A query is told by its literals and by what is left of it without them. -/
theorem Query.eq_of_blank_eq {q r : Query} (hb : q.blank = r.blank)
    (hl : q.literals = r.literals) : q = r := by
  obtain ⟨filter, order⟩ := q
  obtain ⟨filter', order'⟩ := r
  obtain ⟨hfilter, rfl⟩ := Query.mk.inj hb
  cases filter with
  | none => cases filter' with
    | none => rfl
    | some y => cases hfilter
  | some x => cases filter' with
    | none => cases hfilter
    | some y => rw [Condition.eq_of_blank_eq (Option.some.inj hfilter) hl]

def Token.literal? : Token → Option Literal
  | .literal v => some v
  | _ => none

/-- The literals among tokens, in order. -/
def literalsOf (ts : List Token) : List Literal :=
  ts.filterMap Token.literal?

theorem literalsOf_append (ts us : List Token) :
    literalsOf (ts ++ us) = literalsOf ts ++ literalsOf us :=
  List.filterMap_append

theorem literalsOf_intercalate {s : Token} (hs : s.literal? = none) (tss : List (List Token)) :
    literalsOf ([s].intercalate tss) = tss.flatMap literalsOf := by
  cases tss with
  | nil => rfl
  | cons ts tss =>
    rw [intercalate_cons, literalsOf, List.filterMap_append, List.filterMap_flatMap]
    simp only [List.filterMap_cons, hs, List.flatMap_cons]
    rfl

theorem Run.literalsOf_tokens (r : Run Literal) :
    literalsOf (r.tokens fun v => [.literal v]) = r.toList := by
  rw [tokens_eq, literalsOf_intercalate rfl, List.flatMap_map]
  exact List.flatMap_singleton' _

theorem Test.literalsOf_tokens : ∀ t : Test, literalsOf t.tokens = t.leaf.predicate.literals
  | .compare .. => rfl
  | .member name negated values => by
    have hvalues : literalsOf (values.tokens (fun v => [.literal v]) ++ [.closeParen]) =
        values.toList := by
      rw [literalsOf_append, values.literalsOf_tokens]
      exact List.append_nil _
    cases negated <;> exact hvalues

/-- The literals of a disjunction are those of its condition. -/
theorem Disjunction.literalsOf_tokens (d : Disjunction) :
    literalsOf d.tokens = d.condition.literals := by
  induction d using Disjunction.induction with
  | groups d ih =>
    rw [d.tokens_eq, literalsOf_intercalate rfl, List.flatMap_map, d.joins.literals_eq,
      List.flatMap_map]
    refine List.flatMap_congr fun c hc => ?_
    rw [c.tokens_eq, literalsOf_intercalate rfl, List.flatMap_map, c.joins.literals_eq,
      List.flatMap_map]
    refine List.flatMap_congr fun o ho => ?_
    cases o with
    | test t =>
      rw [Operand.tokens, t.literalsOf_tokens]
      exact (List.append_nil _).symm
    | group e =>
      have happend : literalsOf (e.tokens ++ [.closeParen]) = e.condition.literals := by
        rw [literalsOf_append, ih c hc e ho]
        exact List.append_nil _
      exact happend

theorem Run.literalsOf_orderTokens (terms : Run SortTerm) : literalsOf terms.orderTokens = [] := by
  have hterms : literalsOf (terms.tokens SortTerm.tokens) = [] := by
    rw [tokens_eq, literalsOf_intercalate rfl, List.flatMap_map, List.flatMap_eq_nil_iff]
    rintro ⟨name, _ | _ | _⟩ - <;> rfl
  exact hterms

theorem Sentence.literalsOf_tokens (s : Sentence) : literalsOf s.tokens = s.query.literals := by
  cases s with
  | filter d => exact d.literalsOf_tokens
  | order terms => exact terms.literalsOf_orderTokens
  | both d terms =>
    rw [tokens, literalsOf_append, terms.literalsOf_orderTokens, List.append_nil]
    exact d.literalsOf_tokens

section Pieces

variable {α : Type} {xs ys front back : List α} {a : α}

theorem exists_behind_of_not_mem (h : xs ++ ys = front ++ a :: back) (ha : a ∉ xs) :
    ∃ more, front = xs ++ more ∧ ys = more ++ a :: back := by
  rcases List.append_eq_append_iff.1 h with ⟨more, hf, hy⟩ | ⟨more, rfl, hb⟩
  · exact ⟨more, hf, hy⟩
  · rcases List.cons_eq_append_iff.1 hb with ⟨rfl, hy⟩ | ⟨more, rfl, -⟩
    · exact ⟨[], by simp, hy⟩
    · exact absurd (by simp) ha

theorem exists_in_front_of_not_mem (h : xs ++ ys = front ++ a :: back) (ha : a ∉ ys) :
    ∃ more, back = more ++ ys ∧ xs = front ++ a :: more := by
  rcases List.append_eq_append_iff.1 h with ⟨more, -, rfl⟩ | ⟨more, hx, hb⟩
  · exact absurd (by simp) ha
  · rcases List.cons_eq_append_iff.1 hb with ⟨-, rfl⟩ | ⟨more, rfl, hy⟩
    · exact absurd List.mem_cons_self ha
    · exact ⟨more, hy, hx⟩

end Pieces

section Replaced

variable {front back : List Token} {w : Literal}

theorem Test.tokens_member (name : String) (negated : Bool) (values : Run Literal) :
    (member name negated values).tokens = memberTokens name negated ++ [.openParen] ++
      ((values.tokens fun v => [.literal v]) ++ [.closeParen]) := by
  simp [tokens, memberTokens]

theorem Run.exists_replaced {r : Run Literal}
    (h : (r.tokens fun v => [.literal v]) = front ++ .literal w :: back) (v : Literal) :
    ∃ s : Run Literal, (s.tokens fun v => [.literal v]) = front ++ .literal v :: back ∧
      (s.toList.map fun _ => Literal.null) = r.toList.map fun _ => .null := by
  rw [tokens_eq] at h
  obtain ⟨xs, y, zs, before, after, hr, hy, rfl, rfl⟩ := exists_of_intercalate_eq _
    (show Token.literal w ≠ .comma from nofun) h
  obtain ⟨rfl, rfl⟩ : before = [] ∧ after = [] := by
    cases before <;> simp_all
  obtain ⟨s, hs, ht⟩ := Run.exists_of_ne_nil (fun v => [.literal v])
    (show xs ++ [v] ++ zs ≠ [] by simp)
  refine ⟨s, ?_, by simp [hs, hr]⟩
  rw [ht, intercalate_append _ _ (by simp)]
  simp

theorem Test.exists_replaced {t : Test} (h : t.tokens = front ++ .literal w :: back) (v : Literal) :
    ∃ u : Test, u.tokens = front ++ .literal v :: back ∧ u.leaf.blank = t.leaf.blank := by
  cases t with
  | compare name op x =>
    obtain ⟨more, rfl, hx⟩ := exists_behind_of_not_mem
      (show [.identifier name, .comparison op] ++ [.literal x] = front ++ .literal w :: back from h)
      (by simp)
    obtain ⟨rfl, rfl⟩ : more = [] ∧ back = [] := by
      cases more <;> simp_all
    exact ⟨.compare name op v, rfl, rfl⟩
  | member name negated values =>
    rw [tokens_member] at h
    obtain ⟨more, rfl, hlist⟩ :=
      exists_behind_of_not_mem h (by cases negated <;> simp [memberTokens])
    obtain ⟨rest, rfl, hvalues⟩ := exists_in_front_of_not_mem hlist (by simp)
    obtain ⟨s, hs, hblank⟩ := Run.exists_replaced hvalues v
    refine ⟨.member name negated s, ?_, ?_⟩
    · rw [tokens_member, hs]
      simp
    · rw [leaf, leaf, Leaf.blank, Leaf.blank, Predicate.blank, Predicate.blank, hblank]

/-- An operand with another literal in place of one, if that goes for what is in its parentheses. -/
theorem Operand.exists_replaced {o : Operand} (h : o.tokens = front ++ .literal w :: back)
    (v : Literal)
    (hgroup : ∀ d, o = .group d → ∀ front back, d.tokens = front ++ .literal w :: back →
      ∃ e : Disjunction, e.tokens = front ++ .literal v :: back ∧
        e.condition.blank = d.condition.blank) :
    ∃ p : Operand, p.tokens = front ++ .literal v :: back ∧
      p.condition.blank = o.condition.blank := by
  cases o with
  | test t =>
    obtain ⟨u, hu, hblank⟩ := Test.exists_replaced h v
    exact ⟨.test u, hu, congrArg Condition.leaf hblank⟩
  | group d =>
    obtain ⟨more, rfl, hinner⟩ := exists_behind_of_not_mem
      (show [.openParen] ++ (d.tokens ++ [.closeParen]) = front ++ .literal w :: back from h)
      (by simp)
    obtain ⟨rest, rfl, hd⟩ := exists_in_front_of_not_mem hinner (by simp)
    obtain ⟨e, he, hblank⟩ := hgroup d rfl more rest hd
    refine ⟨.group e, ?_, hblank⟩
    rw [tokens, he]
    simp

namespace Conjunction

theorem exists_replaced {c : Conjunction} {os os' : List Operand} {o o' : Operand}
    (h : c.toList = os ++ o :: os') (ho : o'.condition.blank = o.condition.blank) :
    ∃ e : Conjunction, e.tokens = tokensInFront os ++ o'.tokens ++ tokensBehind os' ∧
      e.condition.blank = c.condition.blank := by
  obtain ⟨e, he, hjoins⟩ := exists_between os o' os'
  have hc := c.joins.blank
  have hnew := hjoins.blank
  rw [h, List.map_append, List.map_cons, List.map_append, List.map_cons] at hc
  rw [List.map_append, List.map_cons, ho] at hnew
  exact ⟨e, he, hnew.eq hc⟩

end Conjunction

namespace Disjunction

theorem exists_replaced_conjunction {d : Disjunction} {cs cs' : List Conjunction}
    {c c' : Conjunction} (h : d.toList = cs ++ c :: cs')
    (hc : c'.condition.blank = c.condition.blank) :
    ∃ e : Disjunction, e.tokens = tokensInFront cs ++ c'.tokens ++ tokensBehind cs' ∧
      e.condition.blank = d.condition.blank := by
  obtain ⟨e, he, hjoins⟩ := exists_between cs c' cs'
  have hd := d.joins.blank
  have hnew := hjoins.blank
  rw [h, List.map_append, List.map_cons, List.map_append, List.map_cons] at hd
  rw [List.map_append, List.map_cons, hc] at hnew
  exact ⟨e, he, hnew.eq hd⟩

/-- A disjunction with another literal in place of one is a disjunction. -/
theorem exists_replaced {d : Disjunction} (h : d.tokens = front ++ .literal w :: back)
    (v : Literal) :
    ∃ e : Disjunction, e.tokens = front ++ .literal v :: back ∧
      e.condition.blank = d.condition.blank := by
  induction d using Disjunction.induction generalizing front back with
  | groups d ih =>
    rw [tokens_eq] at h
    obtain ⟨cs, c, cs', before, after, hd, hc, rfl, rfl⟩ := exists_of_intercalate_eq _
      (show Token.literal w ≠ .keyword .or from nofun) h
    rw [Conjunction.tokens_eq] at hc
    obtain ⟨os, o, os', first, last, hos, ho, rfl, rfl⟩ := exists_of_intercalate_eq _
      (show Token.literal w ≠ .keyword .and from nofun) hc
    obtain ⟨o', hnew, hblank⟩ := Operand.exists_replaced ho v fun e he _ _ htokens =>
      ih c (by simp [hd]) e (by simp [hos, he]) htokens
    obtain ⟨c', hc', hblank⟩ := Conjunction.exists_replaced hos hblank
    obtain ⟨d', hd', hblank⟩ := exists_replaced_conjunction hd hblank
    refine ⟨d', ?_, hblank⟩
    rw [hd', hc', hnew, tokensInFront, tokensBehind, Conjunction.tokensInFront,
      Conjunction.tokensBehind]
    simp

end Disjunction

/-- A sentence with another literal in place of one is a sentence, and its query is the same but for
that literal. -/
theorem Sentence.exists_replaced {s : Sentence} (h : s.tokens = front ++ .literal w :: back)
    (v : Literal) :
    ∃ t : Sentence, t.tokens = front ++ .literal v :: back ∧ t.query.blank = s.query.blank := by
  have horder : ∀ terms : Run SortTerm, .literal w ∉ terms.orderTokens := fun terms hmem => by
    have hw : w ∈ literalsOf terms.orderTokens := List.mem_filterMap.2 ⟨_, hmem, rfl⟩
    rw [terms.literalsOf_orderTokens] at hw
    cases hw
  cases s with
  | filter d =>
    obtain ⟨e, he, hblank⟩ := d.exists_replaced h v
    exact ⟨.filter e, he, by simp [query, Query.blank, hblank]⟩
  | order terms =>
    rw [tokens] at h
    exact absurd (by simp [h]) (horder terms)
  | both d terms =>
    obtain ⟨rest, rfl, hd⟩ := exists_in_front_of_not_mem h (horder terms)
    obtain ⟨e, he, hblank⟩ := d.exists_replaced hd v
    exact ⟨.both e terms, by simp [tokens, he], by simp [query, Query.blank, hblank]⟩

end Replaced

theorem mostOpen_replaced (front back : List Token) (v w : Literal) :
    mostOpen (front ++ .literal v :: back) = mostOpen (front ++ .literal w :: back) := by
  rw [mostOpen, mostOpen, Nesting.most_append, Nesting.most_append]
  rfl

theorem hasTokens_string (s : String) :
    HasTokens (Literal.string s).toText [.literal (.string s)] :=
  hasTokens_of_scan (scan_string s) nofun

/-- Nothing is read on into a string, and a string is not read on. -/
theorem Cut.hasTokens_string {text front mid back : String} {ls ms rs : List Lexeme}
    (h : Cut text front mid back ls ms rs) (s : String) :
    ∃ ts, rs.map Lexeme.token = ts ++ [.endOfInput] ∧
      HasTokens (front ++ (Literal.string s).toText ++ back)
        (ls.map Lexeme.token ++ [.literal (.string s)] ++ ts) := by
  refine h.hasTokens_replace (FilterQuery.hasTokens_string s) (fun c hc t => ?_) rfl fun _ => rfl
  rw [Literal.toText, Quoted.encode, String.toList_ofList] at hc
  rw [← Option.some.inj hc]
  exact not_gluesTo (by decide) (by decide) t

/-- The text of a string is one token, that string. Put in the place of a string of an accepted
text, whatever string it is, it makes an accepted text again, and the query of that text is the one
that has this string in the place of that one and is else the same. -/
theorem ofText_string_replaced :
    (∀ s, HasTokens (Literal.string s).toText [.literal (.string s)]) ∧
    ∀ text q ls l rs r, Query.ofText text = .ok q → tokenize text = .ok (ls ++ l :: rs) →
      l.token = .literal (.string r) →
        ∃ front back k, text = front ++ l.text ++ back ∧ l.position.offset = front.utf8ByteSize ∧
          k = (literalsOf (ls.map Lexeme.token)).length ∧ q.literals[k]? = some (.string r) ∧
          ∀ s, ∃ q', Query.ofText (front ++ (Literal.string s).toText ++ back) = .ok q' ∧
            ∀ p, p = q' ↔ p.blank = q.blank ∧ p.literals = q.literals.set k (.string s) := by
  refine ⟨hasTokens_string, fun text q ls l rs r hq hlexemes hl => ?_⟩
  obtain ⟨front, back, hcut, hpos⟩ :=
    exists_cut_of_lexeme hlexemes (ne_nil_of_tokenize hlexemes (by rw [hl]; nofun))
  obtain ⟨-, -, ts, -, hts⟩ := hcut.hasTokens
  have htokens : HasTokens text (ls.map Lexeme.token ++ .literal (.string r) :: ts) :=
    ⟨_, hlexemes, by simp [hl, hts]⟩
  have htext : text ≠ "" := by
    rintro rfl
    have heq := htokens.eq (hasTokens_nil (by simp))
    simp at heq
  obtain ⟨s, hs, hdepth, rfl⟩ := exists_derives_of_ofText hq htext
  have hst : s.tokens = ls.map Lexeme.token ++ .literal (.string r) :: ts := HasTokens.eq hs htokens
  have hliterals : s.query.literals =
      literalsOf (ls.map Lexeme.token) ++ .string r :: literalsOf ts := by
    rw [← s.literalsOf_tokens, hst, literalsOf_append]
    rfl
  refine ⟨front, back, _, hcut.text_eq, congrArg Position.offset hpos, rfl, by simp [hliterals],
    fun v => ?_⟩
  obtain ⟨t, ht, hblank⟩ := s.exists_replaced hst (.string v)
  obtain ⟨us, hus, hnew⟩ := hcut.hasTokens_string v
  obtain rfl : us = ts := List.append_inj_left' (hus.symm.trans hts) rfl
  rw [List.append_assoc, List.singleton_append, ← ht] at hnew
  have hder : t.Derives (front ++ (Literal.string v).toText ++ back) := hnew
  have hlimit : t.depth ≤ maxNesting := by
    rw [← mostOpen_tokens, ht, mostOpen_replaced _ _ _ (.string r), ← hst, mostOpen_tokens]
    exact hdepth
  have hset : t.query.literals = s.query.literals.set (literalsOf (ls.map Lexeme.token)).length
      (.string v) := by
    rw [← t.literalsOf_tokens, ht, literalsOf_append, hliterals,
      List.set_append_right _ _ (by simp)]
    simp [literalsOf, Token.literal?]
  refine ⟨t.query, hder.ofText_eq_ok_iff.2 ⟨hlimit, rfl⟩, fun p => ⟨?_, fun ⟨hb, hl⟩ => ?_⟩⟩
  · rintro rfl
    exact ⟨hblank, hset⟩
  · exact Query.eq_of_blank_eq (hb.trans hblank.symm) (hl.trans hset.symm)

theorem ofText_string_replaced_quotes : ∃ q q', Query.ofText "a = 'x'" = .ok q ∧
    HasTokens (Literal.string "' OR b = '").toText [.literal (.string "' OR b = '")] ∧
    Query.ofText ("a = " ++ (Literal.string "' OR b = '").toText) = .ok q' ∧
      q'.blank = q.blank ∧ q'.literals = [.string "' OR b = '"] := by
  have htokenize := @tokenize_of_passes "a = 'x'"
    ([⟨.identifier "a", "a", .start⟩, ⟨.comparison .equal, "=", ⟨2, 1, 3⟩⟩] ++
      [⟨.literal (.string "x"), "'x'", ⟨4, 1, 5⟩⟩]) ⟨[], ⟨7, 1, 8⟩⟩
    (.cons rfl (by simp) (.cons rfl (by simp) (.cons rfl (by simp) (.nil _)))) (by simp)
  have hder : (Sentence.filter (.one (.one (.test (.compare "a" .equal (.string "x")))))).Derives
      "a = 'x'" := ⟨_, htokenize, rfl⟩
  have hq := hder.ofText_eq_ok_iff.2 ⟨by decide, rfl⟩
  obtain ⟨hstring, hreplaced⟩ := ofText_string_replaced
  rw [List.append_assoc] at htokenize
  obtain ⟨front, back, _, htext, hsize, rfl, -, hnew⟩ := hreplaced _ _ _ _ _ "x" hq htokenize rfl
  rw [String.append_assoc] at htext
  have hparts : "a = " ++ ("'x'" ++ "") = front ++ ("'x'" ++ back) := htext
  obtain ⟨rfl, hback⟩ := eq_of_append_eq hparts hsize
  obtain ⟨-, rfl⟩ := eq_of_append_eq hback rfl
  obtain ⟨q', hq', hp⟩ := hnew "' OR b = '"
  rw [String.append_empty] at hq'
  exact ⟨_, q', hq, hstring _, hq', ((hp q').1 rfl).1, ((hp q').1 rfl).2⟩

end FilterQuery
